import FlowScript.Proofs.Text.Blank
import FlowScript.Text.Digit
import FlowScript.Text.Word
import Mathlib.Data.List.TakeWhile

/-!
# Blanks at the ends of texts

Trimming a text twice is trimming it once, and blanks at the ends of a text do not matter for what
is trimmed later on. Words hold no blanks. A text that is put together from parts has no blanks at
its ends if the first and the last part have none there.

## Main definitions

* `IsSolid`, `IsFree`: texts that can be a part in the middle and at the end of a line.

## Main statements

* `takeWhile_run`: where a run of a class ends.
* `trim_trim`, `trimmed_join`: what trimming leaves as it is.
* `not_isBlank_of_isWord`: words hold no blanks.
* `map_trim_splitOn_trimStart`, `map_trim_splitOn_trimEnd`: the parts between the commas of a text.
-/
namespace FlowScript.Text

variable {cs : List Char}

/-! ## Runs -/

/-- A run of a class is taken as a whole, up to the first character that is not of the class. -/
theorem takeWhile_run {α : Type} {p : α → Bool} {run after : List α} (hr : ∀ c ∈ run, p c)
    (ha : ∀ c ∈ after.head?, p c = false) :
    (run ++ after).takeWhile p = run ∧ (run ++ after).dropWhile p = after := by
  rw [List.takeWhile_append_of_pos hr, List.dropWhile_append_of_pos hr]
  cases after with
  | nil => simp
  | cons c after => simp [ha c rfl]

/-! ## Trimming -/

theorem trimStart_eq_self {c : Char} (hc : isBlank c = false) (cs : List Char) :
    trimStart (c :: cs) = c :: cs := by
  simp [trimStart, hc]

theorem trimStart_blank {c : Char} (hc : isBlank c) (cs : List Char) :
    trimStart (c :: cs) = trimStart cs := by
  simp [trimStart, hc]

theorem trimStart_append_of_blank {bs : List Char} (hb : ∀ b ∈ bs, isBlank b) (cs : List Char) :
    trimStart (bs ++ cs) = trimStart cs :=
  List.dropWhile_append_of_pos hb

theorem not_isBlank_of_trimStart_eq {c : Char} (h : trimStart (c :: cs) = c :: cs) :
    isBlank c = false := by
  by_contra hb
  rw [Bool.not_eq_false] at hb
  rw [trimStart_blank hb] at h
  have hl := (trimStart_suffix cs).length_le
  rw [h, List.length_cons] at hl
  omega

/-- Trimming the end keeps what stands at the start. -/
theorem trimStart_trim (cs : List Char) : trimStart (trim cs) = trim cs := by
  rw [trim]
  cases hs : trimStart cs with
  | nil => rfl
  | cons c ds =>
    have hc : isBlank c = false := not_isBlank_of_trimStart_eq (hs ▸ trimStart_trimStart cs)
    cases he : trimEnd (c :: ds) with
    | nil => rfl
    | cons d es =>
      have hp := isPrefix_trimEnd (c :: ds)
      rw [he] at hp
      obtain ⟨rfl, -⟩ := List.cons_prefix_cons.1 hp
      exact trimStart_eq_self hc es

theorem trimEnd_append_of_blank {bs : List Char} (hb : ∀ b ∈ bs, isBlank b) (cs : List Char) :
    trimEnd (cs ++ bs) = trimEnd cs := by
  rw [trimEnd, trimEnd, List.reverse_append,
    List.dropWhile_append_of_pos (by simpa using hb)]

theorem trim_trim (cs : List Char) : trim (trim cs) = trim cs := by
  conv_lhs => rw [trim, trimStart_trim]
  exact List.rdropWhile_idempotent isBlank (trimStart cs)

/-! ## Words -/

/-- Word characters of ASCII lie behind the blanks of ASCII. -/
theorem toNat_of_isAsciiWord {c : Char} (h : isAsciiWord c) : 0x20 < c.toNat ∧ c.toNat < 0x80 := by
  have h : (((decide (c.val ≥ 'A'.val ∧ c.val ≤ 'Z'.val) ||
      (c.val ≥ 'a'.val && c.val ≤ 'z'.val)) || (c.val ≥ '0'.val && c.val ≤ '9'.val)) ||
      c == '_') = true := h
  simp only [Bool.or_eq_true, Bool.and_eq_true, decide_eq_true_eq, beq_iff_eq, ge_iff_le,
    UInt32.le_iff_toNat_le] at h
  rcases h with ((h | h) | h) | rfl
  · have hl : 65 ≤ c.toNat := h.1
    have hu : c.toNat ≤ 90 := h.2
    omega
  · have hl : 97 ≤ c.toNat := h.1
    have hu : c.toNat ≤ 122 := h.2
    omega
  · have hl : 48 ≤ c.toNat := h.1
    have hu : c.toNat ≤ 57 := h.2
    omega
  · decide

theorem not_isBlank_of_isAsciiWord {c : Char} (h : isAsciiWord c) : isBlank c = false := by
  have hn := toNat_of_isAsciiWord h
  simp only [isBlank, Bool.or_eq_false_iff, Bool.and_eq_false_iff, decide_eq_false_iff_not,
    beq_eq_false_iff_ne]
  omega

/-- Intervals that lie between the blanks hold none. -/
theorem not_isBlank_of_has (rs : Ranges) {c : Char}
    (hr : ∀ r ∈ rs, (0x20 < r.1 ∧ r.2 < 0x85) ∨ (0xA0 < r.1 ∧ r.2 < 0x1680) ∨
      (0x1680 < r.1 ∧ r.2 < 0x2000) ∨ (0x205F < r.1 ∧ r.2 < 0x3000) ∨ 0x3000 < r.1)
    (h : rs.has c.toNat) : isBlank c = false := by
  obtain ⟨r, hm, hl, hu⟩ := Ranges.has_iff.1 h
  have hb := hr r hm
  simp only [isBlank, Bool.or_eq_false_iff, Bool.and_eq_false_iff, decide_eq_false_iff_not,
    beq_eq_false_iff_ne]
  omega

theorem not_isBlank_of_isWord {c : Char} (h : isWord c) : isBlank c = false := by
  unfold isWord at h
  split at h
  · exact not_isBlank_of_isAsciiWord h
  · exact not_isBlank_of_has lettersAndNumerals (by decide +kernel) h

theorem not_isWord_of_isBlank {c : Char} (h : isBlank c) : isWord c = false := by
  by_contra hw
  simp [not_isBlank_of_isWord (by simpa using hw)] at h

theorem any_isBlank_eq_false (h : ∀ c ∈ cs, isBlank c = false) : cs.any isBlank = false := by
  simpa using h

theorem has_of_isDigit {c : Char} (h : isDigit c) : decimalDigits.has c.toNat := by
  simp only [isDigit, digit?] at h
  split at h
  · split at h
    · rename_i hd
      simp only [Char.isDigit, Bool.and_eq_true, decide_eq_true_eq, ge_iff_le,
        UInt32.le_iff_toNat_le] at hd
      exact Ranges.has_iff.2 ⟨(0x30, 0x39), by simp [decimalDigits], hd⟩
    · simp at h
  · simp only [Ranges.start?, Option.isSome_map, List.find?_isSome] at h
    simpa [Ranges.has] using h

/-- The digits among the word characters of ASCII are those of ASCII. -/
theorem isDigit_of_isAsciiWord {c : Char} (hw : isAsciiWord c) (h : isDigit c) : c.isDigit := by
  have hn := (toNat_of_isAsciiWord hw).2
  simp only [isDigit, digit?, hn, if_true] at h
  split at h
  · assumption
  · simp at h

theorem not_isBlank_of_isDigit {c : Char} (h : isDigit c) : isBlank c = false :=
  not_isBlank_of_has decimalDigits (by decide +kernel) (has_of_isDigit h)

/-! ## Parts of lines -/

/-- A nonempty text without blanks. -/
structure IsSolid (cs : List Char) : Prop where
  ne_nil : cs ≠ []
  solid : ∀ c ∈ cs, isBlank c = false

/-- A text that can stand at the end of a form: there are no blanks at its ends, and no line feeds
in it. -/
structure IsFree (cs : List Char) : Prop where
  ne_nil : cs ≠ []
  trim_eq : trim cs = cs
  oneLine : '\n' ∉ cs

theorem isFree_trim (hne : trim cs ≠ []) (hl : '\n' ∉ cs) : IsFree (trim cs) :=
  ⟨hne, trim_trim cs, fun h => hl ((isInfix_trim cs).subset h)⟩

theorem IsFree.trimStart_eq (h : IsFree cs) : trimStart cs = cs := by
  rw [← h.trim_eq, trimStart_trim]

/-- A text that ends in blanks is not free. -/
theorem IsFree.not_blank {front back : List Char} (h : IsFree (front ++ back)) (hne : back ≠ []) :
    ¬ ∀ b ∈ back, isBlank b := by
  intro hb
  have ht := h.trim_eq
  rw [trim, h.trimStart_eq, trimEnd_append_of_blank hb] at ht
  have hl := (isPrefix_trimEnd front).length_le
  have hp := List.length_pos_iff.2 hne
  rw [ht, List.length_append] at hl
  omega

/-- There are no blanks to pass over in front of a free text. -/
theorem IsFree.trimStart_append (h : IsFree cs) (after : List Char) :
    trimStart (cs ++ after) = cs ++ after := by
  cases cs with
  | nil => exact absurd rfl h.ne_nil
  | cons c cs => exact trimStart_eq_self (not_isBlank_of_trimStart_eq h.trimStart_eq) _

theorem IsSolid.isFree (h : IsSolid cs) : IsFree cs :=
  ⟨h.ne_nil, trim_of_solid h.solid, fun hm => absurd (h.solid _ hm) (by decide)⟩

theorem IsSolid.trimStart_append (h : IsSolid cs) (after : List Char) :
    trimStart (cs ++ after) = cs ++ after :=
  h.isFree.trimStart_append after

theorem IsFree.trimEnd_eq (h : IsFree cs) : trimEnd cs = cs := by
  conv_rhs => rw [← h.trim_eq, trim, h.trimStart_eq]

theorem trimEnd_append {front back : List Char} (hne : back ≠ []) (hb : trimEnd back = back) :
    trimEnd (front ++ back) = front ++ back := by
  have hr : back.reverse.dropWhile isBlank = back.reverse := List.reverse_eq_iff.1 hb
  rw [trimEnd, List.reverse_append, List.dropWhile_append, hr, if_neg (by simpa using hne),
    ← List.reverse_append, List.reverse_reverse]

/-- What stands between two free texts is not trimmed. -/
theorem trim_append {front middle back : List Char} (hf : IsFree front) (hb : IsFree back) :
    trim (front ++ (middle ++ back)) = front ++ (middle ++ back) := by
  rw [trim, hf.trimStart_append, ← List.append_assoc, trimEnd_append hb.ne_nil hb.trimEnd_eq]

/-- What stands between two free texts does not matter if it has no line feeds. -/
theorem IsFree.append {front middle back : List Char} (hf : IsFree front) (hb : IsFree back)
    (hm : '\n' ∉ middle) : IsFree (front ++ (middle ++ back)) :=
  ⟨by simp [hf.ne_nil], trim_append hf hb, by simp [hf.oneLine, hm, hb.oneLine]⟩

/-- A text that is put together has no blanks at its ends if its first and its last part have
none there. -/
theorem trimmed_join (first : String) (more : List String) (hne : more ≠ [])
    (hf : isBlank (first.toList.headD ' ') = false) (hl : (more.getLast hne).toList ≠ [])
    (ht : trimEnd (more.getLast hne).toList = (more.getLast hne).toList) :
    trimmed (.join (first :: more)) = .join (first :: more) := by
  have hs : (String.join (first :: more)).toList =
      (first.toList ++ more.dropLast.flatMap String.toList) ++ (more.getLast hne).toList := by
    conv_lhs => rw [← List.dropLast_append_getLast hne]
    simp
  cases hc : first.toList with
  | nil =>
    rw [hc] at hf
    exact absurd hf (by decide)
  | cons c cs =>
    rw [hc, List.headD_cons] at hf
    rw [hc] at hs
    rw [trimmed, hs, trim, List.cons_append, List.cons_append, trimStart_eq_self hf,
      ← List.cons_append, ← List.cons_append, trimEnd_append hl ht, ← hs, String.ofList_toList]

theorem IsSolid.of_isWordRun (h : isWordRun cs) : IsSolid cs := by
  simp only [isWordRun, Bool.and_eq_true, Bool.not_eq_eq_eq_not, Bool.not_true,
    List.isEmpty_eq_false_iff, List.all_eq_true] at h
  exact ⟨h.1, fun c hc => not_isBlank_of_isWord (h.2 c hc)⟩

/-! ## Parts between commas -/

variable {b : Char}

theorem trim_cons_blank (hb : isBlank b) (cs : List Char) : trim (b :: cs) = trim cs := by
  rw [trim, trimStart_blank hb, ← trim]

theorem trim_append_blank (hb : isBlank b) (cs : List Char) : trim (cs ++ [b]) = trim cs := by
  have hl : ∀ c ∈ [b], isBlank c := by simpa using hb
  rw [trim, trimStart, List.dropWhile_append]
  by_cases he : (cs.dropWhile isBlank).isEmpty
  · have hs : trimStart cs = [] := List.isEmpty_iff.1 he
    rw [if_pos he, trim, hs, List.dropWhile_cons_of_pos hb]
    rfl
  · rw [if_neg he, trimEnd_append_of_blank hl]
    rfl

theorem ne_comma (hb : isBlank b) : b ≠ ',' := by
  rintro rfl
  exact absurd hb (by decide)

/-- A blank in front of a text belongs to its first part. -/
theorem map_trim_splitOn_cons (hb : isBlank b) (cs : List Char) :
    ((b :: cs).splitOn ',').map trim = (cs.splitOn ',').map trim := by
  rw [List.splitOn_cons_eq_if_modifyHead, if_neg (by simpa using ne_comma hb)]
  cases cs.splitOn ',' with
  | nil => rfl
  | cons part parts => simp [trim_cons_blank hb]

/-- A blank behind a text belongs to its last part. -/
theorem splitOn_append_blank (hb : isBlank b) (cs : List Char) :
    ∃ parts last, cs.splitOn ',' = parts ++ [last] ∧
      (cs ++ [b]).splitOn ',' = parts ++ [last ++ [b]] := by
  induction cs with
  | nil =>
    refine ⟨[], [], rfl, ?_⟩
    rw [List.nil_append, List.splitOn_cons_eq_if_modifyHead, if_neg (by simpa using ne_comma hb)]
    rfl
  | cons c cs ih =>
    obtain ⟨parts, last, h, h'⟩ := ih
    rw [List.cons_append, List.splitOn_cons_eq_if_modifyHead, List.splitOn_cons_eq_if_modifyHead, h,
      h']
    by_cases hc : (c == ',') = true
    · rw [if_pos hc, if_pos hc]
      exact ⟨[] :: parts, last, rfl, rfl⟩
    · rw [if_neg hc, if_neg hc]
      cases parts with
      | nil => exact ⟨[], c :: last, rfl, rfl⟩
      | cons part parts => exact ⟨(c :: part) :: parts, last, rfl, rfl⟩

theorem map_trim_splitOn_append (hb : isBlank b) (cs : List Char) :
    ((cs ++ [b]).splitOn ',').map trim = (cs.splitOn ',').map trim := by
  obtain ⟨parts, last, h, h'⟩ := splitOn_append_blank hb cs
  rw [h, h']
  simp [trim_append_blank hb]

theorem map_trim_splitOn_trimStart (cs : List Char) :
    ((trimStart cs).splitOn ',').map trim = (cs.splitOn ',').map trim := by
  induction cs with
  | nil => rfl
  | cons c cs ih =>
    cases hc : isBlank c with
    | true => rw [trimStart_blank hc, ih, map_trim_splitOn_cons hc]
    | false => rw [trimStart_eq_self hc]

theorem map_trim_splitOn_trimEnd (cs : List Char) :
    ((trimEnd cs).splitOn ',').map trim = (cs.splitOn ',').map trim := by
  induction cs using List.reverseRecOn with
  | nil => rfl
  | append_singleton cs c ih =>
    cases hc : isBlank c with
    | true =>
      rw [trimEnd_append_of_blank (by simpa using hc), ih, map_trim_splitOn_append hc]
    | false => rw [trimEnd_append (by simp) (by simp [trimEnd, hc])]

end FlowScript.Text
