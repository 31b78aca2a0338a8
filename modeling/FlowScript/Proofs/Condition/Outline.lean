import FlowScript.Proofs.Condition.Connective
import FlowScript.Proofs.Condition.Containment
import FlowScript.Proofs.Condition.Digits

/-!
# The recursive reading of conditions

A condition can be read by cutting it at its first connective and reading both sides in the same
way. The reader of conditions goes on at the right side only and takes the left sides for clauses as
they stand. On one line this comes to the same, since a left side is never cut again, up to the
number of connectives on the right spine that are allowed.

## Main definitions

* `Outline`: how a text is cut, with the texts of its clauses.
* `Outline.condition`, `Outline.spine`: the condition of an outline, and the connectives on its right
  spine.
* `Condition.outline`: the outline of a text, both sides of a cut alike.
* `Condition.IsUncut`: the texts that are one clause as they stand.

## Main statements

* `Condition.outline_of_split?`: the left side of a cut is a clause.
* `Condition.chain?_cases`: the chain of a text against its outline.
* `Condition.parse_eq_outline`: the reader against the recursive reading.
-/
namespace FlowScript

open Text

/-- How a text is cut at connectives, with the texts of the clauses in between. -/
inductive Outline where
  | clause (text : List Char)
  | join (connective : Connective) (left right : Outline)
  deriving DecidableEq, Repr

namespace Outline

/-- The condition of an outline. The last clause is read first, as the reader does: it matters only
where two clauses meet faults. -/
def condition : Outline → Except Fault Condition
  | clause text => Condition.clause text
  | join k left right => do
    let right ← right.condition
    let left ← left.condition
    return .join k left right

/-- The number of connectives on the right spine of an outline. -/
def spine : Outline → Nat
  | clause _ => 0
  | join _ _ right => right.spine + 1

end Outline

namespace Condition

variable {cs left right : List Char} {k : Connective}

/-! ## Cleaning -/

theorem cleaned_of_kept (hk : cs.any isDropped = false) (ht : trim cs = cs) :
    cleaned cs = cs := by
  have hf : cs.filter (!isDropped ·) = cs :=
    List.filter_eq_self.2 fun c hc => by simpa using List.any_eq_false.1 hk c hc
  rw [cleaned, hf, ht]

/-- A part of a cleaned text needs no cleaning but at its ends. -/
theorem cleaned_trim {part : List Char} (h : part ⊆ cleaned cs) :
    cleaned (trim part) = trim part := by
  refine cleaned_of_kept (List.any_eq_false.2 fun c hc => ?_) (trim_trim part)
  have hm := (isInfix_trim _).subset (h ((isInfix_trim part).subset hc))
  simpa using (List.mem_filter.1 hm).2

theorem cleaned_cleaned (cs : List Char) : cleaned (cleaned cs) = cleaned cs := by
  have ht : trim (cleaned cs) = cleaned cs := trim_trim _
  have h := cleaned_trim (List.Subset.refl (cleaned cs))
  rwa [ht] at h

theorem cleaned_subset (cs : List Char) : cleaned cs ⊆ cs :=
  List.Subset.trans (isInfix_trim _).subset (List.filter_subset_self _)

theorem length_cleaned_le (cs : List Char) : (cleaned cs).length ≤ cs.length :=
  (isInfix_trim _).length_le.trans (List.length_filter_le _ _)

/-! ## Cuts -/

/-- Both sides of a cut are shorter than the text, by the connective. -/
theorem length_of_split? (h : split? cs = some (left, k, right)) :
    left.length < cs.length ∧ right.length < cs.length := by
  obtain ⟨part, more, hj, rfl, rfl⟩ := split?_eq_some h
  obtain ⟨_, rfl, hne, -, ha, -⟩ := Scan.shortest_minimal hj
  obtain ⟨blanks, after, rfl, -, rfl, -, -⟩ := connectiveAt?_eq_some_iff.1 ha
  have hpart := (isInfix_trim part).length_le
  have hmore := (isInfix_trim (trimStart after)).length_le
  have hafter := (trimStart_suffix after).length_le
  have hpos := List.length_pos_iff.2 hne
  simp only [List.length_append, k.toList_symbol, List.length_cons, List.length_nil]
  omega

/-- The outline of a text. The text is cleaned; one without content, one that asks what a variable
contains and one without connectives is a clause; and any other text is cut at its first connective,
and both sides are outlined in turn. -/
def outline (cs : List Char) : Outline :=
  match _h : split? (cleaned cs) with
  | none => .clause (cleaned cs)
  | some (left, k, right) => .join k (outline left) (outline right)
termination_by cs.length
decreasing_by
  · exact (length_of_split? _h).1.trans_le (length_cleaned_le cs)
  · exact (length_of_split? _h).2.trans_le (length_cleaned_le cs)

theorem outline_of_none (h : split? (cleaned cs) = none) : outline cs = .clause (cleaned cs) := by
  rw [outline]
  split
  · rfl
  · rename_i hs
    simp [h] at hs

theorem outline_of_some (h : split? (cleaned cs) = some (left, k, right)) :
    outline cs = .join k (outline left) (outline right) := by
  rw [outline]
  split
  · rename_i hs
    simp [h] at hs
  · rename_i hs
    obtain ⟨rfl, rfl, rfl⟩ : left = _ ∧ k = _ ∧ right = _ := by simpa [h] using hs
    rfl

/-- What a text means does not change when it is cleaned. -/
theorem outline_cleaned (cs : List Char) : outline (cleaned cs) = outline cs := by
  cases hs : split? (cleaned cs) with
  | none => rw [outline_of_none hs, outline_of_none (by rwa [cleaned_cleaned]), cleaned_cleaned]
  | some found =>
    obtain ⟨left, k, right⟩ := found
    rw [outline_of_some hs, outline_of_some (by rwa [cleaned_cleaned])]

/-- The sides of a cut of a clean text are clean, and the right one is a line. -/
theorem clean_of_split? (hc : cleaned cs = cs) (h : split? cs = some (left, k, right)) :
    cleaned left = left ∧ cleaned right = right ∧ '\n' ∉ right := by
  obtain ⟨part, more, hj, rfl, rfl⟩ := split?_eq_some h
  obtain ⟨after, hpart, hafter, -, ha⟩ := Scan.shortest_eq_some hj
  obtain ⟨blanks, rest, rfl, -, rfl, -, hmore⟩ := connectiveAt?_eq_some_iff.1 ha
  have hrest : trimStart rest ⊆ cs := fun c hm => hafter.subset
    (List.mem_append_right _ (List.mem_append_right _ ((trimStart_suffix rest).subset hm)))
  rw [← hc] at hpart hrest
  exact ⟨cleaned_trim hpart.subset, cleaned_trim hrest,
    fun hm => hmore ((isInfix_trim _).subset hm)⟩

/-- **The left side of a cut is a clause**, on one line. -/
theorem outline_of_split? (hc : cleaned cs = cs) (hl : '\n' ∉ cs)
    (h : split? cs = some (left, k, right)) :
    outline cs = .join k (.clause left) (outline right) := by
  obtain ⟨hleft, -⟩ := clean_of_split? hc h
  obtain ⟨part, more, hj, rfl, rfl⟩ := split?_eq_some h
  have hnone : split? (trim part) = none := split?_of_joined? (joined?_trim_left hj hl)
  have ho : outline (trim part) = .clause (trim part) := by
    rw [outline_of_none (by rwa [hleft]), hleft]
  rw [outline_of_some (by rwa [hc]), ho]

/-! ## Chains -/

/-- The chain of a text against its outline: there is one if there are not too many connectives on
the right spine, and its clauses, read from the last to the first, make up the condition of the
outline. -/
theorem chain?_cases (hc : cleaned cs = cs) (hl : '\n' ∉ cs) (n : Nat) :
    (n < (outline cs).spine ∧ chain? n cs = none) ∨
      ((outline cs).spine ≤ n ∧ ∃ parts last, chain? n cs = some (parts, last) ∧
        (clause last).bind (joinAll parts) = (outline cs).condition) := by
  induction n generalizing cs with
  | zero =>
    cases hs : split? cs with
    | none =>
      rw [outline_of_none (by rwa [hc]), hc]
      refine .inr ⟨Nat.le_refl 0, [], cs, by rw [chain?, hs], ?_⟩
      cases h : clause cs <;> simp [Outline.condition, h, Except.bind, joinAll, pure, Except.pure]
    | some found =>
      obtain ⟨left, k, right⟩ := found
      rw [outline_of_split? hc hl hs]
      exact .inl ⟨Nat.succ_pos _, by rw [chain?, hs]⟩
  | succ n ih =>
    cases hs : split? cs with
    | none =>
      rw [outline_of_none (by rwa [hc]), hc]
      refine .inr ⟨Nat.zero_le _, [], cs, by rw [chain?, hs], ?_⟩
      cases h : clause cs <;> simp [Outline.condition, h, Except.bind, joinAll, pure, Except.pure]
    | some found =>
      obtain ⟨left, k, right⟩ := found
      obtain ⟨hleft, hright, hline⟩ := clean_of_split? hc hs
      rw [outline_of_split? hc hl hs]
      rcases ih hright hline with ⟨hn, hnone⟩ | ⟨hn, parts, last, hchain, hread⟩
      · exact .inl ⟨Nat.succ_lt_succ hn, by rw [chain?, hs]; simp [hnone]⟩
      · refine .inr ⟨Nat.succ_le_succ hn, (left, k) :: parts, last, ?_, ?_⟩
        · rw [chain?, hs]
          simp [hchain]
        · simp only [Outline.condition, ← hread, bind, pure, Except.pure]
          cases clause last with
          | error f => rfl
          | ok c =>
            simp only [Except.bind, joinAll_cons, hleft]

/-- The reader goes by the outline of a text, up to the connectives that are allowed. -/
theorem parse_of_oneLine (hl : '\n' ∉ cs) :
    parse cs = if (outline cs).spine ≤ maxNesting then (outline cs).condition else .ok never := by
  have hline : '\n' ∉ cleaned cs := fun hm => hl (cleaned_subset cs hm)
  have h := chain?_cases (cleaned_cleaned cs) hline maxNesting
  rw [outline_cleaned] at h
  rcases h with ⟨hn, hnone⟩ | ⟨hn, parts, last, hchain, hread⟩
  · rw [if_neg (Nat.not_le_of_lt hn), parse, hnone]
  · rw [if_pos hn, parse, hchain, ← hread]
    rfl

/-- A text that is not cut is read as one clause. -/
theorem parse_of_split? (h : split? (cleaned cs) = none) : parse cs = clause (cleaned cs) := by
  rw [parse, chain?, h]
  cases hc : clause (cleaned cs) <;> simp [hc, bind, Except.bind, pure, Except.pure]

/-! ## Texts that are not cut -/

/-- A text without braces and connectives, and without blanks at its ends, is one clause. -/
theorem parse_eq_clause (ht : trim cs = cs) (hk : cs.any isDropped = false)
    (hj : ∀ k : Connective, ¬ k.symbol.toList <:+: cs) : parse cs = clause cs := by
  have hc := cleaned_of_kept hk ht
  have hs : split? (cleaned cs) = none := by
    rw [hc]
    exact split?_of_joined? (joined?_eq_none hj)
  rw [parse_of_split? hs, hc]

/-- A text that is not cut, whole or as a part: it has no blanks at its ends and no line feeds, and
it holds no braces, no connectives and no `contains`. -/
structure IsUncut (cs : List Char) : Prop extends IsFree cs where
  kept : cs.any isDropped = false
  unjoined : ∀ k : Connective, ¬ k.symbol.toList <:+: cs
  asksNothing : containment? cs = none

/-- Whether a text is not cut can be decided. -/
theorem isUncut_iff : IsUncut cs ↔
    (cs ≠ [] ∧ trim cs = cs ∧ '\n' ∉ cs) ∧ cs.any isDropped = false ∧
      (¬ Connective.and.symbol.toList <:+: cs ∧ ¬ Connective.or.symbol.toList <:+: cs) ∧
      containment? cs = none := by
  constructor
  · rintro ⟨⟨hne, ht, hl⟩, hk, hj, ha⟩
    exact ⟨⟨hne, ht, hl⟩, hk, ⟨hj .and, hj .or⟩, ha⟩
  · rintro ⟨⟨hne, ht, hl⟩, hk, ⟨hand, hor⟩, ha⟩
    refine ⟨⟨hne, ht, hl⟩, hk, fun k => ?_, ha⟩
    cases k with
    | and => exact hand
    | or => exact hor

namespace IsUncut

theorem cleaned_eq (h : IsUncut cs) : cleaned cs = cs :=
  cleaned_of_kept h.kept h.trim_eq

theorem split?_eq (h : IsUncut cs) : split? (cleaned cs) = none := by
  rw [h.cleaned_eq]
  exact split?_of_joined? (joined?_eq_none h.unjoined)

theorem outline_eq (h : IsUncut cs) : outline cs = .clause cs := by
  rw [outline_of_none h.split?_eq, h.cleaned_eq]

theorem parse_eq (h : IsUncut cs) : parse cs = clause cs :=
  parse_eq_clause h.trim_eq h.kept h.unjoined

theorem not_asks (h : IsUncut cs) : ¬ Asks cs :=
  (containment?_eq_none_iff h.oneLine).1 h.asksNothing

end IsUncut

/-! ## Digits -/

/-- The digits of an integer that is too long stand in the text, when the braces that are dropped
are left out of it. -/
theorem digits_of_overlong (h : Overlong cs) :
    ∃ digits, digits <:+: cleaned cs ∧ isDigitRun digits ∧ maxDigits < digits.length := by
  have hrun {text right : List Char} (h : TooLong (trim right)) (hr : right <:+: text) :
      ∃ digits, digits <:+: text ∧ isDigitRun digits ∧ maxDigits < digits.length := by
    obtain ⟨sign, digits, -, ht, hd, hlen⟩ := h
    rw [trim_trim] at ht
    have hne : digits ≠ [] := by
      rintro rfl
      simp at hlen
    refine ⟨digits, ?_, by simp [isDigitRun, hd, hne], hlen⟩
    exact (ht ▸ (List.suffix_append _ _).isInfix).trans ((isInfix_trim right).trans hr)
  have hclause {text : List Char} (h : OverlongClause text) :
      ∃ digits, digits <:+: text ∧ isDigitRun digits ∧ maxDigits < digits.length := by
    obtain ⟨-, -, ⟨name, r, right, hs, ht⟩ | ⟨-, r, name, right, hp, ht⟩⟩ := h
    · exact hrun ht (comparison_eq_some hs).2.2.1
    · exact hrun ht ((Comparative.parts_eq_some hp).2.2.1.trans (isInfix_trim text))
  obtain ⟨parts, last, hc, ho⟩ := h
  obtain ⟨hlast, hparts⟩ := infix_of_chain? hc
  rcases ho with ho | ⟨part, hp, ho⟩
  · obtain ⟨digits, hd, hrest⟩ := hclause ho
    exact ⟨digits, hd.trans hlast, hrest⟩
  · obtain ⟨digits, hd, hrest⟩ := hclause ho
    have hf : part.1.filter (!isDropped ·) = part.1 := by
      refine List.filter_eq_self.2 fun c hm => ?_
      exact (List.mem_filter.1 ((isInfix_trim _).subset ((hparts part hp).subset hm))).2
    rw [cleaned, hf] at hd
    exact ⟨digits, (hd.trans (isInfix_trim _)).trans (hparts part hp), hrest⟩

/-! ## The reader and the recursive reading -/

/-- **The reader comes to the recursive reading**, on one line: a text with at most as many
connectives on its right spine as are allowed is read as the condition of its outline, and one with
more as the condition that never holds. A condition is read if no digits in the text, when its braces
are left out, are too many for an integer. -/
theorem parse_eq_outline (hl : '\n' ∉ cs) :
    parse cs = (if (outline cs).spine ≤ maxNesting then (outline cs).condition else .ok never) ∧
      ((∀ digits, digits <:+: cleaned cs → isDigitRun digits → digits.length ≤ maxDigits) →
        ∃ c, parse cs = .ok c) := by
  refine ⟨parse_of_oneLine hl, fun hd => ?_⟩
  cases h : parse cs with
  | ok c => exact ⟨c, rfl⟩
  | error f =>
    obtain ⟨digits, hi, hrun, hlen⟩ := digits_of_overlong (parse_eq_error h).1
    exact absurd (hd digits hi hrun) (Nat.not_le_of_lt hlen)

/-- Of four bars in a row the two in the middle are the connective: each side keeps one. -/
theorem parse_bars_in_a_row :
    (outline "|||| a && b".toList).spine = 2 ∧ (∃ c, parse "|||| a && b".toList = .ok c) ∧
      parse "|||| a && b".toList =
        .ok (.join .or (holds "|") (.join .and (holds "| a") (holds "b"))) := by
  have ho : outline "|||| a && b".toList =
      .join .or (.clause ['|']) (.join .and (.clause "| a".toList) (.clause ['b'])) := by
    have hwhole : split? (cleaned "|||| a && b".toList) = some (['|'], .or, "| a && b".toList) := by
      decide +kernel
    have hright : split? (cleaned "| a && b".toList) = some ("| a".toList, .and, ['b']) := by
      decide +kernel
    rw [outline_of_some hwhole, outline_of_some hright, outline_of_none (by decide +kernel),
      outline_of_none (by decide +kernel), outline_of_none (by decide +kernel)]
    decide +kernel
  obtain ⟨hread, htotal⟩ := parse_eq_outline (show '\n' ∉ "|||| a && b".toList by decide)
  refine ⟨by rw [ho]; rfl, htotal fun digits hi _ => hi.length_le.trans (by decide), ?_⟩
  rw [hread, ho]
  decide +kernel

end Condition
end FlowScript
