import FlowScript.Condition.Printer
import FlowScript.Proofs.Condition.Comparison
import FlowScript.Proofs.Numeric.Decimal

/-!
# Comparisons that are read from their texts

The text of a comparison has a blank on either side of its symbol. So it does not matter whether the
text of the operand starts like a symbol, and a comparison is read from its text as soon as its
operand is read from the text of the operand alone. Integers and truth values are, and so is every
variable that a right-hand side can be.

## Main definitions

* `Condition.IsOperand`: the operands of comparisons that are read from their texts.

## Main statements

* `Condition.parse_compare`: a comparison is read from its text if its operand is.
* `Condition.parse_chars_compare`: comparisons with integers, truth values and variables are read
  from their texts.
-/
namespace FlowScript

open Text

namespace Condition

variable {name : String} {e : Expr}

/-- The operands of comparisons that are read from their texts: integers that are not too long,
truth values, and the variables that are read from their names, if a name has no blanks and nothing
at which a condition is cut. -/
inductive IsOperand : Expr → Prop
  | integer {n : Int} (short : (Nat.toDigits 10 n.natAbs).length ≤ maxDigits) :
      IsOperand (.ofInt n)
  | truth (b : Bool) : IsOperand (.ofBool b)
  | var {name : String} (uncut : IsUncut name.toList)
      (solid : ∀ c ∈ name.toList, isBlank c = false)
      (read : operand name.toList = .ok (.var name)) : IsOperand (.var name)

/-! ## Texts of operands -/

/-- There are neither letters nor symbols in the text of an integer. -/
theorem isUncut_ofInt (n : Int) : IsUncut (Expr.ofInt n).chars := by
  have hfree := (isSolid_toString n).isFree
  have hmem {c : Char} (hc : c ∈ (Expr.ofInt n).chars) : c = '-' ∨ c.isDigit := mem_toString hc
  refine ⟨hfree, List.any_eq_false.2 fun c hc hd => ?_, fun k => ?_, ?_⟩
  · simp only [isDropped, Bool.or_eq_true, beq_iff_eq] at hd
    rcases hd with rfl | rfl <;> exact absurd (hmem hc) (by decide)
  · refine Connective.not_infix_of_notMem fun hk => absurd (hmem hk) ?_
    cases k <;> decide
  · refine (containment?_eq_none_iff hfree.oneLine).2 fun h => ?_
    obtain ⟨c, hc, hf⟩ := exists_fold_of_asks h
    rcases hmem hc with rfl | hd
    · exact absurd hf (by decide)
    · rw [fold_of_isDigit hd] at hf
      subst hf
      exact absurd hd (by decide)

theorem isUncut_ofBool (b : Bool) : IsUncut (Expr.ofBool b).chars := by
  cases b <;> exact isUncut_iff.2 (by decide)

namespace IsOperand

theorem isUncut (h : IsOperand e) : IsUncut e.chars := by
  cases h with
  | integer short => exact isUncut_ofInt _
  | truth b => exact isUncut_ofBool b
  | var uncut solid read => exact uncut

theorem solid (h : IsOperand e) : ∀ c ∈ e.chars, isBlank c = false := by
  cases h with
  | @integer n short => exact (isSolid_toString n).solid
  | truth b =>
    have hall : (Expr.ofBool b).chars.all (!isBlank ·) := by cases b <;> decide
    simpa using hall
  | var uncut solid read => exact solid

/-- An operand is read from its text. -/
theorem operand_chars (h : IsOperand e) : operand e.chars = .ok e := by
  cases h with
  | @integer n short =>
    have htrim : trim (Expr.ofInt n).chars = (Expr.ofInt n).chars :=
      (isSolid_toString n).isFree.trim_eq
    have hn : number? (Expr.ofInt n).chars = .ok (some (.int n)) := number?_of_short short
    simp only [operand, htrim, hn, bind, Except.bind, pure, Except.pure]
    rfl
  | truth b => cases b <;> rfl
  | var uncut solid read => exact read

end IsOperand

/-! ## Texts of comparisons -/

theorem chars_compare (name : String) (r : Relation) (e : Expr) :
    (compare (.var name) r e).chars = name.toList ++ (r.padded ++ e.chars) := by
  simp [chars, Expr.chars, Relation.padded]

/-- A comparison is read from its text if its operand is. -/
theorem parse_compare (hn : isWordRun name.toList) (ha : containment? name.toList = none)
    (r : Relation) (hu : IsUncut e.chars) (hs : ∀ c ∈ e.chars, isBlank c = false)
    (ho : operand e.chars = .ok e) :
    parse (compare (.var name) r e).chars = .ok (compare (.var name) r e) := by
  rw [chars_compare, parse_padded hn ha r hu, any_isBlank_eq_false hs, ho, String.ofList_toList]
  rfl

/-- **Comparisons are read from their texts**, whatever their relation is: a variable that is no
keyword is compared with the same integer, truth value or variable as before. -/
theorem parse_chars_compare (hn : isWordRun name.toList) (ha : containment? name.toList = none)
    (r : Relation) (h : IsOperand e) :
    parse (compare (.var name) r e).chars = .ok (compare (.var name) r e) :=
  parse_compare hn ha r h.isUncut h.solid h.operand_chars

/-- An operand may start like the rest of a longer symbol, and it may be a number with a sign or a
word for a truth value. -/
theorem parse_chars_compare_greater :
    parse "x > =5".toList = .ok (compare (.var "x") .greater (.var "=5")) ∧
      parse "x > -12".toList = .ok (compare (.var "x") .greater (.ofInt (-12))) ∧
      parse "x > false".toList = .ok (compare (.var "x") .greater (.ofBool false)) := by
  have hn : isWordRun "x".toList := by decide
  have ha : containment? "x".toList = none := by decide
  have hsolid : "=5".toList.all (!isBlank ·) := by decide
  have hvariable : IsOperand (.var "=5") :=
    .var (isUncut_iff.2 (by decide)) (by simpa using hsolid) (by decide +kernel)
  have hinteger : IsOperand (.ofInt (-12)) := .integer (by decide)
  have htruth : IsOperand (.ofBool false) := .truth false
  exact ⟨parse_chars_compare hn ha .greater hvariable,
    parse_chars_compare hn ha .greater hinteger, parse_chars_compare hn ha .greater htruth⟩

end Condition
end FlowScript
