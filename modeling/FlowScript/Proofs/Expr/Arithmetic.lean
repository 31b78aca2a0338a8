import FlowScript.Proofs.Expr.Digits
import FlowScript.Proofs.Expr.RoundTrip

/-!
# Arithmetic that is read from its text

Whatever its shape, an expression of operations on variables, truth values and integers is read from
its text as it is, as long as it has no more operators than are read. Its parentheses cannot be too
deep then, since there is an operator inside each pair of them.

## Main definitions

* `Expr.IsVariable`: the names that are read as variables.
* `Expr.Arithmetic`: the expressions of operations on variables, truth values and integers.

## Main statements

* `Expr.Arithmetic.written`: the tokens of the text can be read as the expression.
* `Expr.Arithmetic.nesting_le_operations`: parentheses are not deeper than there are operators.
* `Expr.parse_chars_of_arithmetic`: which of these expressions are read from their texts.
-/
namespace FlowScript

open Text

namespace Expr

/-- Whether a name is read as a variable: it has letters, digits and underscores of ASCII, not
digits alone, and it stands for no truth value in any case. -/
structure IsVariable (name : List Char) : Prop where
  ascii : ∀ c ∈ name, isAsciiWord c
  not_number : ∃ c ∈ name, ¬ c.isDigit
  not_truth : name.map Char.toLower ∉ ["true".toList, "false".toList]

/-- Expressions of operations on variables, truth values, and integers that are not negative and
not too long. -/
inductive Arithmetic : Expr → Prop
  | integer {n : Nat} (h : n < 10 ^ maxDigits) : Arithmetic (ofInt n)
  | truth (b : Bool) : Arithmetic (ofBool b)
  | name {name : List Char} (h : IsVariable name) : Arithmetic (var (String.ofList name))
  | binary (op : ArithOp) {l r : Expr} (hl : Arithmetic l) (hr : Arithmetic r) :
      Arithmetic (binary op l r)

variable {n : Nat} {k : Rank} {ts : List Token} {e : Expr}

theorem IsVariable.whole {name : List Char} (h : IsVariable name) : (Token.word name).Whole := by
  obtain ⟨c, hc, hd⟩ := h.not_number
  refine ⟨h.ascii, c, hc, ?_⟩
  by_contra hdigit
  exact hd (isDigit_of_isAsciiWord (h.ascii c hc) (by simpa using hdigit))

theorem IsVariable.ofWord_eq {name : List Char} (h : IsVariable name) :
    ofWord name = var (String.ofList name) := by
  have ht := h.not_truth
  simp only [List.mem_cons, List.not_mem_nil, or_false, not_or] at ht
  rw [ofWord, truth?, if_neg ht.1, if_neg ht.2]

/-- **The tokens of the text of such an expression can be read as it.** -/
theorem Arithmetic.written (h : Arithmetic e) : ∃ us, Written e us := by
  induction h with
  | integer h =>
    obtain ⟨u, hw, hc, hs⟩ := exists_token_ofInt h
    exact ⟨[u], .operand hw hc hs⟩
  | truth b =>
    obtain ⟨u, hw, hc, hs⟩ := exists_token_ofBool b
    exact ⟨[u], .operand hw hc hs⟩
  | @name name h =>
    refine ⟨[.word name], .operand h.whole (by simp [Token.chars, chars]) ?_⟩
    rw [← h.ofWord_eq]
    exact .word name
  | binary op hl hr ihl ihr =>
    obtain ⟨us, hus⟩ := ihl
    obtain ⟨vs, hvs⟩ := ihr
    exact ⟨_, .binary op hus hvs⟩

/-- There is an operator inside each pair of parentheses. -/
theorem Arithmetic.nesting_le_operations (h : Arithmetic e) : e.nesting ≤ e.operations := by
  induction h with
  | integer h => exact Nat.le_refl 0
  | truth b => exact Nat.le_refl 0
  | name h => exact Nat.le_refl 0
  | @binary op l r hl hr ihl ihr =>
    have hleft := Bool.toNat_le (l.looserThan op)
    have hright := Bool.toNat_le (r.noTighterThan op)
    rw [nesting, operations, Nat.max_le]
    omega

/-- No integer among tokens that derive an expression is too long. -/
theorem Derives.length_le (h : Derives n k ts e) {digits : List Char}
    (hm : .number digits none ∈ ts) : digits.length ≤ maxDigits := by
  induction h with
  | operand h =>
    obtain rfl := List.mem_singleton.1 hm
    cases h with
    | number h =>
      by_contra hl
      rw [ofNumeral_eq_fault_iff.2 ⟨rfl, Nat.lt_of_not_le hl, rfl⟩] at h
      simp at h
  | group h ih => exact ih (by simpa using hm)
  | product h ih => exact ih hm
  | sum h ih => exact ih hm
  | binary op hl hr ihl ihr =>
    simp only [List.mem_append, List.mem_cons, reduceCtorEq, false_or] at hm
    exact hm.elim ihl ihr

/-- **Arithmetic is read from its text exactly if it has no more operators than are read**, whatever
its shape, and otherwise nothing is read. -/
theorem parse_chars_of_arithmetic (h : Arithmetic e) :
    (e.operations ≤ maxNesting → parse e.chars = .ok (some e)) ∧
      (maxNesting < e.operations → parse e.chars = .ok none) := by
  obtain ⟨us, hw⟩ := h.written
  refine ⟨fun ho => hw.parse_eq (h.nesting_le_operations.trans ho) ho, fun ho => ?_⟩
  have hd : Derives e.nesting .sum (Token.scan e.chars) e := by
    rw [hw.scan_chars]
    exact hw.derives_sum le_rfl
  obtain ⟨r, hr⟩ := exists_parse fun digits hm => hd.length_le hm
  cases r with
  | none => exact hr
  | some e' =>
    have := (parse_eq_some_iff.1 hr).2
    rw [hd.countP_isOperator] at this
    omega

/-- Differences of names that start like numbers, each to the right of the one before: as many as
there can be, and one more. -/
theorem parse_chars_of_rightDifferences :
    let e (n : Nat) := (List.replicate n (var "1e5")).foldr (binary .subtract) (ofInt 7)
    (e 2).chars = "1e5 - (1e5 - 7)".toList ∧ Arithmetic (e 32) ∧ Arithmetic (e 33) ∧
      parse (e 32).chars = .ok (some (e 32)) ∧ parse (e 33).chars = .ok none := by
  intro e
  have hvariable : IsVariable "1e5".toList :=
    ⟨List.all_eq_true.1 (by decide), ⟨'e', by decide, by decide⟩, by decide⟩
  have hname : Arithmetic (var "1e5") := .name hvariable
  have harith (n : Nat) : Arithmetic (e n) := by
    induction n with
    | zero => exact .integer (n := 7) (by decide +kernel)
    | succ n ih => exact .binary .subtract hname ih
  exact ⟨by decide +kernel, harith 32, harith 33,
    (parse_chars_of_arithmetic (harith 32)).1 (by decide),
    (parse_chars_of_arithmetic (harith 33)).2 (by decide)⟩

end Expr
end FlowScript
