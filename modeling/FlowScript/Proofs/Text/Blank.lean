import FlowScript.Text.Blank
import Mathlib.Data.List.DropRight

/-!
# Stretches of texts

A text without the blanks at its ends is a stretch of it, and so is each of its lines.

## Main statements

* `isInfix_trim`, `trim_eq_nil_iff`: what trimming leaves, and when it leaves nothing.
* `infix_of_mem_commandLines`: the lines of a text are stretches of it.
* `commandLines_of_blank`: text without content has no lines.
-/
namespace FlowScript.Text

/-! ## Blanks -/

theorem trimStart_suffix (cs : List Char) : trimStart cs <:+ cs :=
  List.dropWhile_suffix _

theorem isPrefix_trimEnd (cs : List Char) : trimEnd cs <+: cs := by
  have h := List.reverse_prefix.2 (List.dropWhile_suffix isBlank (l := cs.reverse))
  simpa [trimEnd] using h

/-- A text without the blanks at its ends is a stretch of it. -/
theorem isInfix_trim (cs : List Char) : trim cs <:+: cs :=
  (isPrefix_trimEnd _).isInfix.trans (trimStart_suffix cs).isInfix

theorem trimEnd_eq_nil_iff {cs : List Char} : trimEnd cs = [] ↔ ∀ c ∈ cs, isBlank c := by
  simp only [trimEnd, List.reverse_eq_nil_iff, List.dropWhile_eq_nil_iff, List.mem_reverse]

theorem trimStart_eq_nil_iff {cs : List Char} : trimStart cs = [] ↔ ∀ c ∈ cs, isBlank c :=
  List.dropWhile_eq_nil_iff

theorem trimStart_trimStart (cs : List Char) : trimStart (trimStart cs) = trimStart cs :=
  List.dropWhile_idempotent isBlank cs

/-- Trimming leaves nothing of a text of blanks only. -/
theorem trim_eq_nil_iff {cs : List Char} : trim cs = [] ↔ ∀ c ∈ cs, isBlank c := by
  rw [trim, trimEnd_eq_nil_iff, ← trimStart_eq_nil_iff, trimStart_trimStart, trimStart_eq_nil_iff]

/-- Nothing is trimmed of a text that starts and ends with characters that are no blanks. -/
theorem trim_eq_self {c d : Char} {cs : List Char} (hc : isBlank c = false)
    (hd : isBlank d = false) : trim (c :: cs ++ [d]) = c :: cs ++ [d] := by
  have hs : trimStart (c :: cs ++ [d]) = c :: cs ++ [d] := by simp [trimStart, hc]
  rw [trim, hs]
  simp [trimEnd, hd]

/-- Nothing is trimmed of a text without blanks. -/
theorem trim_of_solid {cs : List Char} (h : ∀ c ∈ cs, isBlank c = false) : trim cs = cs := by
  have hd : ∀ ds : List Char, (∀ c ∈ ds, isBlank c = false) → ds.dropWhile isBlank = ds := by
    intro ds hds
    cases ds with
    | nil => rfl
    | cons c ds => simp [hds c (by simp)]
  rw [trim, trimStart, hd cs h, trimEnd, hd _ (by simpa using h), List.reverse_reverse]

/-! ## Lines -/

theorem pieces_ne_nil (cs : List Char) : pieces cs ≠ [] := by
  cases cs with
  | nil => simp [pieces]
  | cons c cs =>
    simp only [pieces]
    split
    · simp
    · split <;> simp

theorem pieces_of_line {cs : List Char} (h : ∀ c ∈ cs, isLineBreak c = false) :
    pieces cs = [cs] := by
  induction cs with
  | nil => rfl
  | cons c cs ih =>
    simp only [pieces, h c (by simp), ih fun d hd => h d (List.mem_cons_of_mem _ hd)]
    rfl

/-- The pieces between line breaks are stretches of the text, the first one its start. -/
theorem infix_of_pieces {cs p : List Char} {ps : List (List Char)} (h : pieces cs = p :: ps) :
    p <+: cs ∧ ∀ q ∈ ps, q <:+: cs := by
  induction cs generalizing p ps with
  | nil =>
    simp only [pieces, List.cons.injEq] at h
    obtain ⟨rfl, rfl⟩ := h
    simp
  | cons c cs ih =>
    cases hp : pieces cs with
    | nil => exact absurd hp (pieces_ne_nil cs)
    | cons q qs =>
      obtain ⟨hq, hqs⟩ := ih hp
      have hc : cs <:+: c :: cs := (List.suffix_cons c cs).isInfix
      simp only [pieces, hp] at h
      split at h
      · obtain ⟨rfl, rfl⟩ := List.cons.inj h
        refine ⟨List.nil_prefix, fun q hq' => ?_⟩
        obtain rfl | hq' := List.mem_cons.1 hq'
        · exact hq.isInfix.trans hc
        · exact (hqs q hq').trans hc
      · obtain ⟨rfl, rfl⟩ := List.cons.inj h
        exact ⟨List.cons_prefix_cons.2 ⟨rfl, hq⟩, fun q hq' => (hqs q hq').trans hc⟩

theorem infix_of_mem_pieces {cs p : List Char} (h : p ∈ pieces cs) : p <:+: cs := by
  cases hp : pieces cs with
  | nil => exact absurd hp (pieces_ne_nil cs)
  | cons q qs =>
    obtain ⟨hq, hqs⟩ := infix_of_pieces hp
    rw [hp] at h
    obtain rfl | h := List.mem_cons.1 h
    · exact hq.isInfix
    · exact hqs p h

/-- The lines of a text are stretches of it. -/
theorem infix_of_mem_commandLines {text line : String} (h : line ∈ commandLines text) :
    line.toList <:+: text.toList := by
  simp only [commandLines, List.mem_map, List.mem_filter] at h
  obtain ⟨_, ⟨⟨p, hp, rfl⟩, -⟩, rfl⟩ := h
  simpa using (isInfix_trim p).trans (infix_of_mem_pieces hp)

theorem pieces_append_lineFeed {cs : List Char} (h : ∀ c ∈ cs, isLineBreak c = false)
    (ds : List Char) : pieces (cs ++ '\n' :: ds) = cs :: pieces ds := by
  induction cs with
  | nil => rfl
  | cons c cs ih =>
    simp only [List.cons_append, pieces, h c (by simp),
      ih fun d hd => h d (List.mem_cons_of_mem _ hd)]
    rfl

/-- Whether a text is a line of command text as it stands. -/
def isLine (line : String) : Bool :=
  line.toList.all (!isLineBreak ·) && trim line.toList == line.toList && !line.isEmpty

/-- The text of some lines, each with a line feed after it. -/
def ofLines (lines : List String) : String :=
  String.ofList (lines.flatMap fun line => line.toList ++ ['\n'])

/-- The lines of a text that has been put together from lines. -/
theorem commandLines_ofLines {lines : List String} (h : ∀ line ∈ lines, isLine line) :
    commandLines (ofLines lines) = lines := by
  simp only [commandLines, ofLines, String.toList_ofList]
  induction lines with
  | nil => rfl
  | cons line lines ih =>
    have hl := h line (by simp)
    simp only [isLine, Bool.and_eq_true, beq_iff_eq, List.all_eq_true, Bool.not_eq_eq_eq_not,
      Bool.not_true] at hl
    obtain ⟨⟨hb, ht⟩, hne⟩ := hl
    rw [List.flatMap_cons, List.append_assoc, List.singleton_append, pieces_append_lineFeed hb,
      List.map_cons, ht, List.filter_cons_of_pos (by simpa using hne), List.map_cons,
      ih fun l hl => h l (List.mem_cons_of_mem _ hl), String.ofList_toList]

/-- Text without content has no lines. -/
theorem commandLines_of_blank {text : String} (h : (trimmed text).isEmpty) :
    commandLines text = [] := by
  have hb : ∀ c ∈ text.toList, isBlank c := by
    rw [← trim_eq_nil_iff]
    simpa [trimmed, String.isEmpty_iff] using h
  simp only [commandLines, List.map_eq_nil_iff, List.filter_eq_nil_iff, List.mem_map]
  rintro _ ⟨p, hp, rfl⟩
  have ht : trim p = [] :=
    trim_eq_nil_iff.2 fun c hc => hb c ((infix_of_mem_pieces hp).subset hc)
  simp [ht]

end FlowScript.Text
