import FlowScript.Proofs.Condition.Parts
import FlowScript.Proofs.Expr.WellFormed

/-!
# Values that are read

Conditions compare well-formed expressions, and so all values that are read are made of such
expressions. Text that is no condition is read as one that never holds, which is well formed, too.

## Main definitions

* `Condition.WellFormed`, `Value.WellFormed`: conditions and values made of well-formed expressions.

## Main statements

* `Condition.wellFormed_of_parse`: every condition that is read is well formed.
* `Value.wellFormed_of_read`: every value that is read is well formed.
-/
namespace FlowScript

open Text

namespace Condition

/-- A condition that compares well-formed expressions. -/
def WellFormed : Condition → Prop
  | compare l _ r => l.WellFormed ∧ r.WellFormed
  | join _ l r => l.WellFormed ∧ r.WellFormed
  | contains _ _ => True

variable {cs : List Char} {c : Condition}

theorem wellFormed_never : never.WellFormed :=
  ⟨rfl, rfl⟩

theorem wellFormed_holds (h : cs ≠ []) : (holds (String.ofList cs)).WellFormed :=
  ⟨Expr.wellFormed_var h, rfl⟩

/-- What can stand on the right-hand side of a comparison. -/
theorem operand_cases {e : Expr} (h : operand cs = .ok e) :
    (∃ n, e = .ofNumber n) ∨ (∃ b, e = .ofBool b) ∨
      (∃ inside, inside <:+: cs ∧ e = .ofText (String.ofList inside)) ∨
      e = .var (String.ofList (trim cs)) := by
  simp only [operand, bind, Except.bind, pure, Except.pure] at h
  cases hn : number? (trim cs) with
  | error f => simp [hn] at h
  | ok n =>
    simp only [hn] at h
    split at h
    · exact .inl ⟨_, (Except.ok.inj h).symm⟩
    · split at h
      · exact .inr (.inl ⟨_, (Except.ok.inj h).symm⟩)
      · split at h
        · rename_i hu
          exact .inr (.inr (.inl ⟨_, (Expr.infix_of_unquote? hu).trans (isInfix_trim cs),
            (Except.ok.inj h).symm⟩))
        · exact .inr (.inr (.inr (Except.ok.inj h).symm))

/-- The right-hand side of a comparison is well formed if it holds more than blanks. -/
theorem wellFormed_of_operand {e : Expr} (hne : trim cs ≠ []) (h : operand cs = .ok e) :
    e.WellFormed := by
  rcases operand_cases h with ⟨n, rfl⟩ | ⟨b, rfl⟩ | ⟨inside, -, rfl⟩ | rfl
  · exact Expr.wellFormed_ofNumber _
  · exact Expr.wellFormed_ofBool _
  · exact Expr.wellFormed_ofText _
  · exact Expr.wellFormed_var hne

theorem comparative_eq_ok (h : comparative cs = .ok (some c)) :
    ∃ name r right e, name ≠ [] ∧ name <:+: cs ∧ right <:+: cs ∧ trim right ≠ [] ∧
      operand right = .ok e ∧ c = compare (.var (String.ofList name)) r e := by
  cases hp : Comparative.parts? (trim cs) with
  | none => simp [comparative_of_none hp] at h
  | some parts =>
    obtain ⟨r, name, right⟩ := parts
    obtain ⟨hname, hn, hr, hright⟩ := Comparative.parts_eq_some hp
    rw [comparative_of_some hp] at h
    cases ho : operand right with
    | error f => simp [ho, Except.map] at h
    | ok e =>
      simp only [ho, Except.map, Except.ok.injEq, Option.some.injEq] at h
      exact ⟨name, r, right, e, hname, hn.trans (isInfix_trim cs), hr.trans (isInfix_trim cs),
        hright, ho, h.symm⟩

/-- What a clause can be: one that never holds, a question what a variable contains, a comparison of
a variable with an operand, or a variable that must be true. -/
theorem clause_cases (h : clause cs = .ok c) :
    c = never ∨
      (∃ input piece, input ⊆ cs ∧ piece ⊆ cs ∧
        c = contains (String.ofList input) (String.ofList piece)) ∨
      (∃ name r right e, name ≠ [] ∧ name <:+: cs ∧ right <:+: cs ∧ trim right ≠ [] ∧
        operand right = .ok e ∧ c = compare (.var (String.ofList name)) r e) ∨
      cs ≠ [] ∧ c = holds (String.ofList cs) := by
  unfold clause at h
  split at h
  · exact .inl (Except.ok.inj h).symm
  · rename_i hne
    split at h
    · rename_i left right hp
      obtain ⟨hl, hr⟩ := containmentAfter_eq_some hp
      simp only at h
      split at h
      · exact .inl (Except.ok.inj h).symm
      · have hpiece : trim right ⊆ cs := List.Subset.trans (isInfix_trim right).subset hr
        exact .inr (.inl ⟨_, _, List.Subset.trans (isInfix_trim left).subset hl,
          List.Subset.trans (List.filter_subset_self _) hpiece, (Except.ok.inj h).symm⟩)
    · split at h
      · rename_i name r right hs
        obtain ⟨hname, hn, hr, hright⟩ := comparison_eq_some hs
        cases ho : operand right with
        | error f => simp [ho, bind, Except.bind] at h
        | ok e =>
          simp only [ho, bind, Except.bind, pure, Except.pure, Except.ok.injEq] at h
          exact .inr (.inr (.inl ⟨name, r, right, e, hname, hn, hr, hright, ho, h.symm⟩))
      · cases hw : comparative cs with
        | error f => simp [hw, bind, Except.bind] at h
        | ok found =>
          simp only [hw, bind, Except.bind, pure, Except.pure] at h
          split at h
          · obtain rfl := Except.ok.inj h
            exact .inr (.inr (.inl (comparative_eq_ok hw)))
          · exact .inr (.inr (.inr ⟨by simpa using hne, (Except.ok.inj h).symm⟩))

theorem wellFormed_of_clause (h : clause cs = .ok c) : c.WellFormed := by
  rcases clause_cases h with rfl | ⟨input, piece, -, -, rfl⟩ |
    ⟨name, r, right, e, hname, -, -, hright, ho, rfl⟩ | ⟨hne, rfl⟩
  · exact wellFormed_never
  · trivial
  · exact ⟨Expr.wellFormed_var hname, wellFormed_of_operand hright ho⟩
  · exact wellFormed_holds hne

theorem joinAll_induction {K : Condition → Prop}
    (clauses : ∀ {part c}, part ⊆ cs → clause part = .ok c → K c)
    (joins : ∀ k {l r}, K l → K r → K (join k l r)) {parts : List (List Char × Connective)}
    (hp : ∀ part ∈ parts, part.1 ⊆ cs) {last : Condition} (hl : K last)
    (h : joinAll parts last = .ok c) : K c := by
  induction parts generalizing c with
  | nil =>
    obtain rfl := Except.ok.inj h
    exact hl
  | cons part parts ih =>
    rw [joinAll_cons] at h
    cases hj : joinAll parts last with
    | error f => simp [hj, Except.bind] at h
    | ok right =>
      cases hc : clause (cleaned part.1) with
      | error f => simp [hj, hc, Except.bind] at h
      | ok left =>
        simp only [hj, hc, Except.bind, Except.ok.injEq] at h
        subst h
        have hpart : cleaned part.1 ⊆ cs := List.Subset.trans (isInfix_trim _).subset
          (List.Subset.trans (List.filter_subset_self _) (hp part List.mem_cons_self))
        exact joins _ (clauses hpart hc) (ih (fun p hm => hp p (List.mem_cons_of_mem _ hm)) hj)

/-- What holds of every clause, and of two conditions that are joined whenever it holds of both,
holds of every condition that a text writes. -/
theorem parse_induction {K : Condition → Prop}
    (clauses : ∀ {part c}, part ⊆ cs → clause part = .ok c → K c)
    (joins : ∀ k {l r}, K l → K r → K (join k l r)) (h : parse cs = .ok c) : K c := by
  unfold parse at h
  split at h
  · obtain rfl := Except.ok.inj h
    have hn : clause [] = .ok never := rfl
    exact clauses (List.nil_subset _) hn
  · rename_i parts last hc
    cases hl : clause last with
    | error f => simp [hl, bind, Except.bind] at h
    | ok c' =>
      simp only [hl, bind, Except.bind] at h
      obtain ⟨hlast, hparts⟩ := infix_of_chain? hc
      have hcleaned : cleaned cs ⊆ cs :=
        List.Subset.trans (isInfix_trim _).subset (List.filter_subset_self _)
      exact joinAll_induction clauses joins
        (fun p hm => List.Subset.trans (hparts p hm).subset hcleaned)
        (clauses (List.Subset.trans hlast.subset hcleaned) hl) h

/-- **Every condition that a text writes is well formed.** -/
theorem wellFormed_of_parse (h : parse cs = .ok c) : c.WellFormed :=
  parse_induction (fun _ => wellFormed_of_clause) (fun _ _ _ hl hr => ⟨hl, hr⟩) h

end Condition

namespace Value

/-- A value that is made of well-formed expressions. -/
def WellFormed : Value → Prop
  | expr e => e.WellFormed
  | cond c => c.WellFormed

/-- A question to a classifier: its name is a word, and what it is asked about is a part of the
text. -/
theorem question_eq_some {cs model input : List Char} (h : question? cs = some (model, input)) :
    isWordRun model ∧ input <:+: cs := by
  have hasked {word : String} (h : Scan.keyword word (Scan.gap (Scan.word fun model =>
      Scan.gap (Scan.rest fun input => (model, input)))) cs = some (model, input)) :
      isWordRun model ∧ input <:+: cs := by
    obtain ⟨_, h₁, h⟩ := Scan.keyword_suffix h
    obtain ⟨_, h₂, h⟩ := Scan.gap_suffix h
    obtain ⟨_, _, -, h₃, hm, h⟩ := Scan.word_eq_some h
    obtain ⟨_, h₄, h⟩ := Scan.gap_suffix h
    obtain ⟨-, -, he⟩ := Scan.rest_eq_some.1 h
    obtain ⟨rfl, rfl⟩ := Prod.mk.inj he
    exact ⟨hm, (h₄.trans (h₃.trans (h₂.trans h₁))).isInfix⟩
  rcases Scan.either_eq_some h with h | h
  · exact hasked h
  · exact hasked h

/-- What a text can stand for as a value: a question to a classifier, a condition or an
expression. -/
theorem read_cases {cs : List Char} {v : Value} (h : Value.read cs = .ok v) :
    (∃ model input e, isWordRun model ∧ input <:+: cs ∧ Expr.read input = .ok e ∧
        v = expr (.classify (String.ofList model) e)) ∨
      (∃ c, Condition.parse (trim cs) = .ok c ∧ v = cond c) ∨
      ∃ e, Expr.read (trim cs) = .ok e ∧ v = expr e := by
  simp only [Value.read, bind, Except.bind, pure, Except.pure] at h
  split at h
  · rename_i model input hq
    cases he : Expr.read input with
    | error f => simp [he] at h
    | ok e =>
      simp only [he, Except.ok.injEq] at h
      obtain ⟨hm, hi⟩ := question_eq_some hq
      exact .inl ⟨model, input, e, hm, hi.trans (isInfix_trim cs), he, h.symm⟩
  · split at h
    · cases hc : Condition.parse (trim cs) with
      | error f => simp [hc] at h
      | ok c =>
        simp only [hc, Except.ok.injEq] at h
        exact .inr (.inl ⟨c, rfl, h.symm⟩)
    · cases he : Expr.read (trim cs) with
      | error f => simp [he] at h
      | ok e =>
        simp only [he, Except.ok.injEq] at h
        exact .inr (.inr ⟨e, rfl, h.symm⟩)

/-- **Every value that a text stands for is well formed.** -/
theorem wellFormed_of_read {cs : List Char} {v : Value} (h : Value.read cs = .ok v) :
    v.WellFormed := by
  rcases read_cases h with ⟨model, input, e, -, -, he, rfl⟩ | ⟨c, hc, rfl⟩ | ⟨e, he, rfl⟩
  · have hw : e.WellFormed := Expr.wellFormed_of_read he
    exact hw
  · exact Condition.wellFormed_of_parse hc
  · exact Expr.wellFormed_of_read he

end Value
end FlowScript
