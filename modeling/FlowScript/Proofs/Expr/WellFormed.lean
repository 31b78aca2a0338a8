import FlowScript.Proofs.Expr.Grammar
import FlowScript.Proofs.Text.Scan
import FlowScript.Value.Parser

/-!
# Expressions that are read

Whatever text an expression is read from, its literals are numbers, truth values and texts, and its
variables have names.

## Main definitions

* `Expr.WellFormed`: expressions with literals of these kinds and names for all variables.

## Main statements

* `Expr.read_cases`: what a text can stand for.
* `Expr.wellFormed_of_parse`, `Expr.wellFormed_of_read`: every expression that is read is well
  formed.
-/
namespace FlowScript

open Text

/-- Whether a document can be a literal: a number, a truth value or a text. -/
def Json.isLiteral : Json → Bool
  | number _ => true
  | bool _ => true
  | string _ => true
  | _ => false

namespace Expr

/-- An expression whose literals are numbers, truth values and texts, and whose variables have
names. -/
def WellFormed : Expr → Prop
  | literal v => v.isLiteral
  | var name => name ≠ ""
  | binary _ l r => l.WellFormed ∧ r.WellFormed
  | classify _ i => i.WellFormed

theorem wellFormed_ofNumber (n : Number) : (ofNumber n).WellFormed := rfl

theorem wellFormed_ofBool (b : Bool) : (ofBool b).WellFormed := rfl

theorem wellFormed_ofText (s : String) : (ofText s).WellFormed := rfl

theorem wellFormed_var {cs : List Char} (h : cs ≠ []) : (var (String.ofList cs)).WellFormed := by
  simpa [WellFormed] using h

theorem wellFormed_ofWord {cs : List Char} (h : cs ≠ []) : (ofWord cs).WellFormed := by
  unfold ofWord
  split
  · exact wellFormed_ofBool _
  · exact wellFormed_var h

theorem Stands.wellFormed {t : Token} {e : Expr} (ht : t.Whole) (h : Stands t e) :
    e.WellFormed := by
  cases h with
  | word name => exact wellFormed_ofWord ht.chars_ne_nil
  | number h =>
    unfold ofNumeral at h
    split at h
    · obtain rfl := Except.ok.inj h
      exact wellFormed_ofNumber _
    · simp at h

/-- Every expression that the reader accepts is well formed. -/
theorem wellFormed_of_parse {cs : List Char} {e : Expr} (h : parse cs = .ok (some e)) :
    e.WellFormed :=
  parse_induction (fun _ ht hs => hs.wellFormed ht) (fun hl hr => ⟨hl, hr⟩) h

/-- What is read from between quotes is a part of the text. -/
theorem infix_of_unquote? {cs inside : List Char} (h : unquote? cs = some inside) :
    inside <:+: cs := by
  cases cs with
  | nil => simp [unquote?] at h
  | cons quote cs =>
    simp only [unquote?] at h
    split at h
    · split at h
      · simp at h
      · rename_i last rest hr
        split at h
        · obtain rfl := Option.some.inj h
          refine ⟨[quote], [last], ?_⟩
          have hcs : cs = rest.reverse ++ [last] := by
            rw [← List.reverse_reverse cs, hr, List.reverse_cons]
          simp [hcs]
        · simp at h
    · simp at h

/-- What a text can stand for: a part of it as text, a number, what it writes as a whole, or a
variable. -/
theorem read_cases {cs : List Char} {e : Expr} (h : Expr.read cs = .ok e) :
    (∃ inside, inside <:+: cs ∧ e = ofText (String.ofList inside)) ∨ (∃ n, e = ofNumber n) ∨
      parse (trim cs) = .ok (some e) ∨
      isWordRun (trim cs) ∧ e = var (String.ofList (trim cs)) := by
  simp only [Expr.read, bind, Except.bind, pure, Except.pure] at h
  split at h
  · rename_i hu
    exact .inl ⟨_, (infix_of_unquote? hu).trans (isInfix_trim cs), (Except.ok.inj h).symm⟩
  · cases hn : number? (trim cs) with
    | error f => simp [hn] at h
    | ok n =>
      simp only [hn] at h
      split at h
      · exact .inr (.inl ⟨_, (Except.ok.inj h).symm⟩)
      · cases hp : Expr.parse (trim cs) with
        | error f => simp [hp] at h
        | ok p =>
          simp only [hp] at h
          split at h
          · obtain rfl := Except.ok.inj h
            exact .inr (.inr (.inl rfl))
          · split at h
            · rename_i hw
              exact .inr (.inr (.inr ⟨hw, (Except.ok.inj h).symm⟩))
            · exact .inl ⟨_, isInfix_trim cs, (Except.ok.inj h).symm⟩

/-- **Every expression that a text stands for is well formed.** -/
theorem wellFormed_of_read {cs : List Char} {e : Expr} (h : Expr.read cs = .ok e) :
    e.WellFormed := by
  rcases read_cases h with ⟨inside, -, rfl⟩ | ⟨n, rfl⟩ | hp | ⟨hw, rfl⟩
  · exact wellFormed_ofText _
  · exact wellFormed_ofNumber _
  · exact wellFormed_of_parse hp
  · simp only [isWordRun, Bool.and_eq_true, Bool.not_eq_eq_eq_not, Bool.not_true,
      List.isEmpty_eq_false_iff] at hw
    exact wellFormed_var hw.1

end Expr
end FlowScript
