import FlowScript.Condition.Parser
import FlowScript.Proofs.Text.Keyword

/-!
# Texts that ask what a variable contains

A line is one clause that asks what a variable contains if the keyword for that stands anywhere in
it as a word of its own. Since the keyword is made of word characters, it is enough to look for it on
both sides of any other character.

## Main definitions

* `Condition.Asks`: the texts in which the keyword is a word of its own.

## Main statements

* `Condition.asks_of_containment?`: only texts that ask are taken apart around the keyword.
* `Condition.containment?_isSome_iff`: the lines that are taken apart around the keyword.
* `Condition.asks_append_cons_iff`, `Condition.asks_append_append_iff`: the keyword stands on one
  side of any other characters.
-/
namespace FlowScript.Condition

open Text

variable {cs : List Char}

/-- A text in which `contains`, in any case, stands as a word of its own. -/
def Asks (cs : List Char) : Prop :=
  ∃ front word after, cs = front ++ (word ++ after) ∧ word.map fold = "contains".toList ∧
    endsWord front.reverse ∧ endsWord after

/-! ## The keyword -/

theorem isWordRun_of_contains {word : List Char} (h : word.map fold = "contains".toList) :
    isWordRun word :=
  isWordRun_of_map_fold (by decide) h

/-- The first letter of the keyword stands in every text that asks. -/
theorem exists_fold_of_asks (h : Asks cs) : ∃ c ∈ cs, fold c = 'c' := by
  obtain ⟨front, word, after, rfl, hfold, -, -⟩ := h
  cases word with
  | nil => exact absurd hfold (by decide)
  | cons c word => exact ⟨c, by simp, (List.cons.inj hfold).1⟩

theorem endsWord_cons (c : Char) (cs : List Char) : endsWord (c :: cs) = !isWord c := rfl

theorem endsWord_of_blank {b : Char} (hb : isBlank b) (cs : List Char) : endsWord (b :: cs) := by
  cases hw : isWord b with
  | false => simp [endsWord_cons, hw]
  | true => simp [not_isBlank_of_isWord hw] at hb

/-- Where the keyword is found: behind blanks or at the start of a word, up to its end. -/
theorem of_pieceAt?_isSome {before : List Char} (h : (pieceAt? before cs).isSome) :
    (startsBlank cs ∨ endsWord before) ∧
      ∃ word after, trimStart cs = word ++ after ∧ word.map fold = "contains".toList ∧
        endsWord after := by
  unfold pieceAt? at h
  split at h
  · rename_i hstart
    refine ⟨by simpa using hstart, ?_⟩
    split at h
    · rename_i after ha
      obtain ⟨word, hcs, hword⟩ := afterWord?_eq_some_iff.1 ha
      refine ⟨word, after, hcs, hword, ?_⟩
      cases he : endsWord after with
      | true => rfl
      | false => simp [he] at h
    · simp at h
  · simp at h

theorem pieceAt?_isSome {before word after : List Char} (hl : '\n' ∉ cs)
    (hstart : startsBlank cs ∨ endsWord before) (hcs : trimStart cs = word ++ after)
    (hword : word.map fold = "contains".toList) (he : endsWord after) :
    (pieceAt? before cs).isSome := by
  have ha := afterWord?_eq_some_iff.2 ⟨word, hcs, hword⟩
  have hpiece : '\n' ∉ trimStart after := fun hm => hl ((trimStart_suffix cs).subset
    ((afterWord?_suffix ha).subset ((trimStart_suffix after).subset hm)))
  rw [pieceAt?, if_pos (by simpa using hstart), ha]
  simp [he, hpiece]

/-- The keyword is found at some place. -/
theorem of_containmentAfter_isSome {read : List Char} (h : (containmentAfter read cs).isSome) :
    ∃ front back, cs = front ++ back ∧ (pieceAt? (front.reverse ++ read) back).isSome := by
  induction cs generalizing read with
  | nil =>
    rw [containmentAfter, Option.isSome_map] at h
    exact ⟨[], [], rfl, h⟩
  | cons c cs ih =>
    simp only [containmentAfter, Option.orElse_eq_orElse, Option.orElse_eq_or, Option.isSome_or,
      Option.isSome_map, Bool.or_eq_true] at h
    rcases h with h | h
    · exact ⟨[], c :: cs, rfl, h⟩
    · split at h
      · simp at h
      · obtain ⟨front, back, rfl, hp⟩ := ih h
        exact ⟨c :: front, back, rfl, by simpa using hp⟩

theorem containmentAfter_isSome {front back read : List Char} (hl : '\n' ∉ front)
    (h : (pieceAt? (front.reverse ++ read) back).isSome) :
    (containmentAfter read (front ++ back)).isSome := by
  induction front generalizing read with
  | nil =>
    cases back with
    | nil => simpa [containmentAfter] using h
    | cons c cs =>
      rw [List.reverse_nil, List.nil_append] at h
      simp [containmentAfter, h]
  | cons c front ih =>
    have hc : c ≠ '\n' := fun h => hl (h ▸ List.mem_cons_self)
    have ih := ih (fun h => hl (List.mem_cons_of_mem _ h)) (by simpa using h)
    simp [containmentAfter, hc, ih]

/-- A text that is taken apart around the keyword asks what a variable contains. -/
theorem asks_of_containment? (h : (containment? cs).isSome) : Asks cs := by
  obtain ⟨front, back, rfl, hp⟩ := of_containmentAfter_isSome h
  obtain ⟨hstart, word, after, hword, hfold, he⟩ := of_pieceAt?_isSome hp
  refine ⟨front ++ back.takeWhile isBlank, word, after, ?_, hfold, ?_, he⟩
  · rw [← hword, trimStart, List.append_assoc, List.takeWhile_append_dropWhile]
  · -- a blank in front of the keyword, or what stands before the blanks
    cases hb : (back.takeWhile isBlank).reverse with
    | nil =>
      rw [List.append_nil] at hstart
      rw [List.reverse_append, hb, List.nil_append]
      refine hstart.resolve_left fun hs => ?_
      cases back with
      | nil => simp [startsBlank] at hs
      | cons b back => simp [show isBlank b = true from hs] at hb
    | cons b bs =>
      rw [List.reverse_append, hb]
      refine endsWord_of_blank (List.mem_takeWhile_imp (l := back) ?_) _
      rw [← List.mem_reverse, hb]
      exact List.mem_cons_self

/-- **The lines that are taken apart around the keyword** are those in which it is a word of its
own. -/
theorem containment?_isSome_iff (hl : '\n' ∉ cs) : (containment? cs).isSome ↔ Asks cs := by
  refine ⟨asks_of_containment?, ?_⟩
  rintro ⟨front, word, after, rfl, hfold, hf, he⟩
  have hback : '\n' ∉ word ++ after := fun hm => hl (List.mem_append_right _ hm)
  have htrim : trimStart (word ++ after) = word ++ after :=
    (IsSolid.of_isWordRun (isWordRun_of_contains hfold)).trimStart_append after
  refine containmentAfter_isSome (fun hm => hl (List.mem_append_left _ hm)) ?_
  exact pieceAt?_isSome hback (.inr (by rwa [List.append_nil])) htrim hfold he

theorem containment?_eq_none (h : ¬ Asks cs) : containment? cs = none := by
  rw [← Option.isNone_iff_eq_none, ← Option.isSome_eq_false_iff, ← Bool.not_eq_true]
  exact fun hs => h (asks_of_containment? hs)

theorem containment?_eq_none_iff (hl : '\n' ∉ cs) : containment? cs = none ↔ ¬ Asks cs := by
  rw [← containment?_isSome_iff hl, Bool.not_eq_true, Option.isSome_eq_false_iff,
    Option.isNone_iff_eq_none]

/-! ## Both sides of a character -/

variable {as bs : List Char} {d : Char}

/-- The keyword stands on one side of any character that is none of a word. -/
theorem asks_append_cons_iff (hd : isWord d = false) :
    Asks (as ++ d :: bs) ↔ Asks as ∨ Asks bs := by
  constructor
  · rintro ⟨front, word, after, h, hfold, hf, ha⟩
    have hrun := isWordRun_of_contains hfold
    rcases append_cons_eq_append h (notMem_of_isWordRun hrun hd) (isWordRun_iff.1 hrun).1 with
      ⟨rest, rfl, rfl⟩ | ⟨rest, rfl, rfl⟩
    · refine .inl ⟨front, word, rest, rfl, hfold, hf, ?_⟩
      cases rest with
      | nil => rfl
      | cons c rest => exact ha
    · refine .inr ⟨rest, word, after, rfl, hfold, ?_, ha⟩
      cases hr : rest.reverse with
      | nil => rfl
      | cons c cs => simpa [hr, endsWord_cons] using hf
  · rintro (⟨front, word, after, rfl, hfold, hf, ha⟩ | ⟨front, word, after, rfl, hfold, hf, ha⟩)
    · refine ⟨front, word, after ++ d :: bs, by simp, hfold, hf, ?_⟩
      cases after with
      | nil => simp [endsWord_cons, hd]
      | cons c after => exact ha
    · refine ⟨as ++ d :: front, word, after, by simp, hfold, ?_, ha⟩
      cases hr : front.reverse with
      | nil => simp [hr, endsWord_cons, hd]
      | cons c cs => simpa [hr, endsWord_cons] using hf

theorem not_asks_nil : ¬ Asks [] :=
  (containment?_eq_none_iff (by simp)).1 (by decide)

theorem asks_cons_iff (hd : isWord d = false) : Asks (d :: bs) ↔ Asks bs := by
  rw [← List.nil_append (d :: bs), asks_append_cons_iff hd, or_iff_right not_asks_nil]

theorem asks_append_iff {front : List Char} (hf : front.any isWord = false) :
    Asks (front ++ bs) ↔ Asks bs := by
  induction front with
  | nil => rw [List.nil_append]
  | cons d front ih =>
    rw [List.any_cons, Bool.or_eq_false_iff] at hf
    rw [List.cons_append, asks_cons_iff hf.1, ih hf.2]

/-- The keyword stands on one side of characters that are none of a word. -/
theorem asks_append_append_iff {between : List Char} (hne : between ≠ [])
    (hb : between.any isWord = false) :
    Asks (as ++ (between ++ bs)) ↔ Asks as ∨ Asks bs := by
  cases between with
  | nil => exact absurd rfl hne
  | cons d between =>
    rw [List.any_cons, Bool.or_eq_false_iff] at hb
    rw [List.cons_append, asks_append_cons_iff hb.1, asks_append_iff hb.2]

end FlowScript.Condition
