import FlowScript.Proofs.Condition.Parts
import FlowScript.Proofs.Numeric.Digits

/-!
# Conditions with integers that are too long

A condition cannot be read if one of its clauses compares something with an integer that has too
many digits. The clauses are read from the last one to the first, and any of them will do.

## Main definitions

* `Condition.OverlongClause`, `Condition.Overlong`: clauses and conditions with such an integer.

## Main statements

* `Condition.parse_eq_error`: what is to blame for a fault.
* `Condition.parse_eq_error_iff`: the texts that meet a fault.
-/
namespace FlowScript

open Text

variable {cs : List Char} {f : Fault}

namespace Condition

/-! ## Operands -/

theorem operand_eq_error (h : operand cs = .error f) : TooLong (trim cs) ∧ Blames cs f := by
  simp only [operand, bind, Except.bind] at h
  cases hn : number? (trim cs) with
  | error e =>
    simp only [hn, Except.error.injEq] at h
    obtain ⟨ht, hb⟩ := number?_eq_error (h ▸ hn)
    exact ⟨ht, hb.mono (isInfix_trim cs)⟩
  | ok n =>
    simp only [hn] at h
    split at h
    · simp [pure, Except.pure] at h
    · split at h
      · simp [pure, Except.pure] at h
      · split at h <;> simp [pure, Except.pure] at h

theorem operand_of_tooLong (h : TooLong (trim cs)) : ∃ f, operand cs = .error f := by
  obtain ⟨f, hf⟩ := number?_eq_error_iff.2 h
  exact ⟨f, by simp [operand, hf, bind, Except.bind]⟩

/-! ## Clauses -/

/-- A clause that compares something with an integer that has too many digits. -/
def OverlongClause (cs : List Char) : Prop :=
  cs ≠ [] ∧ containment? cs = none ∧
    ((∃ name r right, comparison? cs = some (name, r, right) ∧ TooLong (trim right)) ∨
      comparison? cs = none ∧
        ∃ r name right, Comparative.parts? (trim cs) = some (r, name, right) ∧ TooLong (trim right))

theorem comparative_eq_error (h : comparative cs = .error f) :
    (∃ r name right, Comparative.parts? (trim cs) = some (r, name, right) ∧ TooLong (trim right)) ∧
      Blames cs f := by
  cases hp : Comparative.parts? (trim cs) with
  | none => simp [comparative_of_none hp] at h
  | some parts =>
    obtain ⟨r, name, right⟩ := parts
    rw [comparative_of_some hp] at h
    have ho : operand right = .error f := by
      cases ho : operand right with
      | ok e => simp [ho, Except.map] at h
      | error e => simpa [ho, Except.map] using h
    obtain ⟨ht, hb⟩ := operand_eq_error ho
    exact ⟨⟨r, name, right, rfl, ht⟩,
      hb.mono ((Comparative.parts_eq_some hp).2.2.1.trans (isInfix_trim cs))⟩

theorem clause_eq_error (h : clause cs = .error f) : OverlongClause cs ∧ Blames cs f := by
  unfold clause at h
  split at h
  · simp at h
  · rename_i hne
    simp only [List.isEmpty_iff] at hne
    split at h
    · simp only at h
      split at h <;> simp at h
    · rename_i hc
      split at h
      · rename_i name r right hs
        cases ho : operand right with
        | ok e => simp [ho, bind, Except.bind, pure, Except.pure] at h
        | error e =>
          simp only [ho, bind, Except.bind, Except.error.injEq] at h
          obtain ⟨ht, hb⟩ := operand_eq_error (h ▸ ho)
          exact ⟨⟨hne, hc, .inl ⟨name, r, right, hs, ht⟩⟩, hb.mono (comparison_eq_some hs).2.2.1⟩
      · rename_i hs
        cases ho : comparative cs with
        | ok c => cases c <;> simp [ho, bind, Except.bind, pure, Except.pure] at h
        | error e =>
          simp only [ho, bind, Except.bind, Except.error.injEq] at h
          obtain ⟨hp, hb⟩ := comparative_eq_error (h ▸ ho)
          exact ⟨⟨hne, hc, .inr ⟨hs, hp⟩⟩, hb⟩

theorem clause_of_overlong (h : OverlongClause cs) : ∃ f, clause cs = .error f := by
  obtain ⟨hne, hc, ⟨name, r, right, hs, ht⟩ | ⟨hs, r, name, right, hp, ht⟩⟩ := h
  · obtain ⟨f, hf⟩ := operand_of_tooLong ht
    exact ⟨f, by simp [clause, hne, hc, hs, hf, bind, Except.bind]⟩
  · obtain ⟨f, hf⟩ := operand_of_tooLong ht
    refine ⟨f, ?_⟩
    simp [clause, hne, hc, hs, comparative_of_some hp, hf, bind, Except.bind, Except.map]

/-! ## Conditions -/

theorem joinAll_eq_error {parts : List (List Char × Connective)} {last : Condition}
    (h : joinAll parts last = .error f) : ∃ part ∈ parts, clause (cleaned part.1) = .error f := by
  induction parts with
  | nil => simp [joinAll, pure, Except.pure] at h
  | cons part parts ih =>
    rw [joinAll_cons] at h
    cases hj : joinAll parts last with
    | error e =>
      obtain ⟨p, hp, hc⟩ := ih (by simpa [hj, Except.bind] using h)
      exact ⟨p, List.mem_cons_of_mem _ hp, hc⟩
    | ok right =>
      cases hc : clause (cleaned part.1) with
      | error e => exact ⟨part, by simp, by simpa [hj, hc, Except.bind] using h⟩
      | ok left => simp [hj, hc, Except.bind] at h

theorem joinAll_of_error {parts : List (List Char × Connective)} {last : Condition}
    {part : List Char × Connective} (hp : part ∈ parts)
    (hc : clause (cleaned part.1) = .error f) : ∃ g, joinAll parts last = .error g := by
  induction parts with
  | nil => simp at hp
  | cons first parts ih =>
    rw [joinAll_cons]
    cases hj : joinAll parts last with
    | error e => exact ⟨e, rfl⟩
    | ok right =>
      obtain rfl | hp := List.mem_cons.1 hp
      · exact ⟨f, by simp [hc, Except.bind]⟩
      · obtain ⟨g, hg⟩ := ih hp
        simp [hg] at hj

/-- A condition with a clause that compares something with an integer that has too many digits. -/
def Overlong (cs : List Char) : Prop :=
  ∃ parts last, chain? maxNesting (cleaned cs) = some (parts, last) ∧
    (OverlongClause last ∨ ∃ part ∈ parts, OverlongClause (cleaned part.1))

theorem blames_of_cleaned (h : Blames (cleaned cs) f) : Blames cs f := by
  refine (h.mono (isInfix_trim _)).of_filter ?_
  intro c hc
  simp only [isDropped, Bool.not_eq_eq_eq_not, Bool.not_false, Bool.or_eq_true, beq_iff_eq] at hc
  rcases hc with rfl | rfl <;> rfl

/-- The digits of a clause are to blame for a fault in reading a condition. -/
theorem parse_eq_error (h : parse cs = .error f) : Overlong cs ∧ Blames cs f := by
  unfold parse at h
  cases hc : chain? maxNesting (cleaned cs) with
  | none => simp [hc] at h
  | some found =>
    obtain ⟨parts, last⟩ := found
    obtain ⟨hlast, hparts⟩ := infix_of_chain? hc
    simp only [hc, bind, Except.bind] at h
    cases hl : clause last with
    | error e =>
      simp only [hl, Except.error.injEq] at h
      obtain ⟨ho, hb⟩ := clause_eq_error (h ▸ hl)
      exact ⟨⟨parts, last, hc, .inl ho⟩, blames_of_cleaned (hb.mono hlast)⟩
    | ok c =>
      simp only [hl] at h
      obtain ⟨part, hp, he⟩ := joinAll_eq_error h
      obtain ⟨ho, hb⟩ := clause_eq_error he
      exact ⟨⟨parts, last, hc, .inr ⟨part, hp, ho⟩⟩,
        blames_of_cleaned ((blames_of_cleaned hb).mono (hparts part hp))⟩

theorem parse_eq_error_iff : (∃ f, parse cs = .error f) ↔ Overlong cs := by
  constructor
  · rintro ⟨f, h⟩
    exact (parse_eq_error h).1
  · rintro ⟨parts, last, hc, ho⟩
    simp only [parse, hc, bind, Except.bind]
    cases hl : clause last with
    | error e => exact ⟨e, rfl⟩
    | ok c =>
      obtain ho | ⟨part, hp, ho⟩ := ho
      · obtain ⟨f, hf⟩ := clause_of_overlong ho
        simp [hf] at hl
      · obtain ⟨f, hf⟩ := clause_of_overlong ho
        exact joinAll_of_error hp hf

end Condition
end FlowScript
