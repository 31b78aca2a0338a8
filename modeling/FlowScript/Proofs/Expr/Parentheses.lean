import FlowScript.Proofs.Expr.Digits
import FlowScript.Proofs.Expr.Printed
import FlowScript.Proofs.Numeric.Text

/-!
# Parentheses of expressions

How deep parentheses lie inside each other is seen in the tokens alone: no beginning of them opens
more pairs than the limit allows without closing them. A text is therefore read as an expression
exactly if the grammar derives its tokens, however deep, and the tokens keep within the limits. Of
all texts that are read as the same expression, the one that is printed has the fewest parentheses,
because the grammar forces each pair of them.

## Main definitions

* `Token.NestsWithin`: tokens whose parentheses are not too deep.
* `Expr.Accepts`: tokens that derive an expression and keep within the limits.

## Main statements

* `Expr.derives_iff`: the nesting that a derivation is allowed is that of its tokens.
* `Expr.parse_exact`: the texts that are read as an expression, and those that are not.
* `Expr.Derives.count_parens_le`: no tokens derive an expression with fewer parentheses than its
  text has.
* `Expr.parens_minimal`: no text writes an expression with fewer parentheses than its own text.
-/
namespace FlowScript

namespace Token

/-! ## Nested parentheses -/

/-- Whether at most so many parentheses lie inside each other: no beginning of the tokens opens more
than so many that it does not close. -/
def NestsWithin (n : Nat) (ts : List Token) : Prop :=
  ∀ us, us <+: ts → us.count leftParen ≤ us.count rightParen + n

variable {n : Nat} {us vs ts : List Token}

/-- A beginning of two lists in a row ends in the first or in the second one. -/
theorem of_prefix_append (h : us <+: vs ++ ts) :
    us <+: vs ∨ ∃ ws, us = vs ++ ws ∧ ws <+: ts := by
  rcases List.prefix_or_prefix_of_prefix h (List.prefix_append vs ts) with h' | ⟨ws, rfl⟩
  · exact .inl h'
  · exact .inr ⟨ws, rfl, (List.prefix_append_right_inj vs).1 h⟩

theorem nestsWithin_of_count_eq_zero (h : ts.count leftParen = 0) : NestsWithin n ts := by
  intro us hus
  have := hus.sublist.count_le leftParen
  omega

/-- Tokens that close what they open do not matter to those behind them. -/
theorem nestsWithin_append_iff (h : us.count leftParen = us.count rightParen) :
    NestsWithin n (us ++ vs) ↔ NestsWithin n us ∧ NestsWithin n vs := by
  constructor
  · intro hn
    refine ⟨fun ws hws => hn ws (hws.trans (List.prefix_append us vs)), fun ws hws => ?_⟩
    have := hn (us ++ ws) ((List.prefix_append_right_inj us).2 hws)
    rw [List.count_append, List.count_append] at this
    omega
  · rintro ⟨hus, hvs⟩ ws hws
    rcases of_prefix_append hws with hws | ⟨rest, rfl, hrest⟩
    · exact hus ws hws
    · have := hvs rest hrest
      rw [List.count_append, List.count_append]
      omega

/-- A pair of parentheses takes one level of those around it. -/
theorem nestsWithin_group_iff (h : ts.count leftParen = ts.count rightParen) :
    NestsWithin n (leftParen :: ts ++ [rightParen]) ↔ 0 < n ∧ NestsWithin (n - 1) ts := by
  constructor
  · intro hn
    have hpos : 0 < n := by
      have : 1 ≤ 0 + n := hn [leftParen] ⟨ts ++ [rightParen], rfl⟩
      omega
    refine ⟨hpos, fun us hus => ?_⟩
    have hpre : leftParen :: us <+: leftParen :: ts ++ [rightParen] :=
      List.cons_prefix_cons.2 ⟨rfl, hus.trans (List.prefix_append ts _)⟩
    have := hn _ hpre
    simp only [List.count_cons_self, List.count_cons_of_ne, ne_eq, reduceCtorEq,
      not_false_eq_true] at this
    omega
  · rintro ⟨hpos, hn⟩ us hus
    rcases List.prefix_cons_iff.1 hus with rfl | ⟨vs, rfl, hvs⟩
    · simp
    · simp only [List.count_cons_self, List.count_cons_of_ne, ne_eq, reduceCtorEq,
        not_false_eq_true]
      rcases of_prefix_append hvs with hvs | ⟨rest, rfl, hrest⟩
      · have := hn vs hvs
        omega
      · -- behind the tokens inside there is nothing to open
        have := hrest.sublist.count_le leftParen
        rw [List.count_append, List.count_append, h]
        simp only [List.count_singleton, beq_iff_eq, reduceCtorEq, if_false] at this
        omega

end Token

namespace Expr

open Token (isOperator NestsWithin nestsWithin_append_iff nestsWithin_group_iff
  nestsWithin_of_count_eq_zero)

variable {n m : Nat} {k : Rank} {ts : List Token} {t : Token} {e : Expr} {cs : List Char}

theorem Stands.count_leftParen (h : Stands t e) : [t].count .leftParen = 0 := by
  cases h <;> rfl

theorem Stands.count_rightParen (h : Stands t e) : [t].count .rightParen = 0 := by
  cases h <;> rfl

/-- What is derived closes as many parentheses as it opens. -/
theorem Derives.count_parens_eq (h : Derives n k ts e) :
    ts.count .leftParen = ts.count .rightParen := by
  induction h with
  | operand h => rw [h.count_leftParen, h.count_rightParen]
  | group h ih => simpa using ih
  | product h ih => exact ih
  | sum h ih => exact ih
  | binary op hl hr ihl ihr => simp [ihl, ihr]

/-- A left operand and its operator do not matter to the parentheses of the right operand. -/
theorem Derives.nestsWithin_binary_iff (h : Derives m k ts e) (op : ArithOp) (rs : List Token) :
    NestsWithin n (ts ++ .operator op :: rs) ↔ NestsWithin n ts ∧ NestsWithin n rs := by
  have hop : NestsWithin n [.operator op] := nestsWithin_of_count_eq_zero rfl
  have hrest : NestsWithin n (.operator op :: rs) ↔ NestsWithin n rs := by
    rw [← List.singleton_append, nestsWithin_append_iff rfl]
    exact and_iff_right hop
  rw [nestsWithin_append_iff h.count_parens_eq, hrest]

theorem Derives.nestsWithin (h : Derives n k ts e) : NestsWithin n ts := by
  induction h with
  | operand h => exact nestsWithin_of_count_eq_zero h.count_leftParen
  | group h ih => exact (nestsWithin_group_iff h.count_parens_eq).2 ⟨Nat.succ_pos _, ih⟩
  | product h ih => exact ih
  | sum h ih => exact ih
  | binary op hl hr ihl ihr => exact (hl.nestsWithin_binary_iff op _).2 ⟨ihl, ihr⟩

/-- A derivation needs no more levels than its tokens have. -/
theorem Derives.of_nestsWithin (h : Derives m k ts e) (hn : NestsWithin n ts) :
    Derives n k ts e := by
  induction h generalizing n with
  | operand h => exact .operand h
  | group h ih =>
    obtain ⟨hpos, hn⟩ := (nestsWithin_group_iff h.count_parens_eq).1 hn
    obtain ⟨n, rfl⟩ : ∃ k, n = k + 1 := ⟨n - 1, by omega⟩
    exact .group (ih hn)
  | product h ih => exact .product (ih hn)
  | sum h ih => exact .sum (ih hn)
  | binary op hl hr ihl ihr =>
    obtain ⟨hls, hrs⟩ := (hl.nestsWithin_binary_iff op _).1 hn
    exact .binary op (ihl hls) (ihr hrs)

/-- **The nesting that a derivation is allowed is that of the parentheses among its tokens.** -/
theorem derives_iff : Derives n k ts e ↔ (∃ m, Derives m k ts e) ∧ NestsWithin n ts := by
  constructor
  · intro h
    exact ⟨⟨n, h⟩, h.nestsWithin⟩
  · rintro ⟨⟨m, h⟩, hn⟩
    exact h.of_nestsWithin hn

/-! ## Texts within the limits -/

/-- The tokens of an expression: the grammar derives it from them, there are not too many operators
among them, and their parentheses are not too deep. -/
structure Accepts (ts : List Token) (e : Expr) : Prop where
  derives : ∃ n, Derives n .sum ts e
  operators_le : ts.countP isOperator ≤ maxNesting
  nestsWithin : NestsWithin maxNesting ts

theorem parse_eq_some_iff_accepts : parse cs = .ok (some e) ↔ Accepts (Token.scan cs) e := by
  rw [parse_eq_some_iff, derives_iff]
  constructor
  · rintro ⟨⟨hd, hn⟩, ho⟩
    exact ⟨hd, ho, hn⟩
  · rintro ⟨hd, ho, hn⟩
    exact ⟨⟨hd, hn⟩, ho⟩

/-- **The reader decides the grammar within its limits.** If no integer among the tokens of a text
is too long, the text is read as an expression exactly if its tokens derive that expression and
keep within the limits, and it is read as none exactly if they do so for no expression. -/
theorem parse_exact
    (h : ∀ digits, .number digits none ∈ Token.scan cs → digits.length ≤ maxDigits) :
    (∀ e, parse cs = .ok (some e) ↔ Accepts (Token.scan cs) e) ∧
      (parse cs = .ok none ↔ ∀ e, ¬ Accepts (Token.scan cs) e) := by
  refine ⟨fun e => parse_eq_some_iff_accepts, ?_⟩
  obtain ⟨r, hr⟩ := exists_parse h
  constructor
  · intro hnone e he
    have hsome := parse_eq_some_iff_accepts.2 he
    simp [hnone] at hsome
  · intro hno
    cases r with
    | none => exact hr
    | some e => exact absurd (parse_eq_some_iff_accepts.1 hr) (hno e)

/-- As many operators and parentheses as there can be, and one more pair of parentheses. -/
theorem parse_exact_of_nestedDifferences :
    let deep := List.replicate 32 '(' ++ 'x' :: (List.replicate 32 "-x)".toList).flatten
    let deeper := parenthesised deep
    let e := (List.replicate 32 (var "x")).foldl (binary .subtract) (var "x")
    (∀ digits, .number digits none ∈ Token.scan deep → digits.length ≤ maxDigits) ∧
      Accepts (Token.scan deep) e ∧
      (∀ digits, .number digits none ∈ Token.scan deeper → digits.length ≤ maxDigits) ∧
      parse deeper = .ok none := by
  intro deep deeper e
  have hnumbers : ∀ cs, (Token.scan cs).all (!·.isNumber) →
      ∀ digits, .number digits none ∈ Token.scan cs → digits.length ≤ maxDigits := by
    intro cs hall digits hm
    exact absurd (List.all_eq_true.1 hall _ hm) (by simp [Token.isNumber])
  have hdeep := hnumbers deep (by decide +kernel)
  have hdeeper := hnumbers deeper (by decide +kernel)
  refine ⟨hdeep, ((parse_exact hdeep).1 e).1 (by decide +kernel), hdeeper,
    (parse_exact hdeeper).2.2 fun e he => ?_⟩
  have hpre : List.replicate 33 Token.leftParen <+: Token.scan deeper := by decide +kernel
  exact absurd (he.nestsWithin _ hpre) (by decide)

/-! ## How many parentheses a text has -/

/-- There are no parentheses in numbers and names. -/
theorem Stands.count_paren_chars (ht : t.Whole) (h : Stands t e) : e.chars.count '(' = 0 := by
  rw [List.count_eq_zero]
  cases h with
  | word name =>
    unfold ofWord
    split
    · rename_i b _
      cases b <;> decide
    · rw [chars, String.toList_ofList]
      intro hm
      exact absurd (ht.1 _ hm) (by decide)
  | number h =>
    unfold ofNumeral at h
    split at h
    · obtain rfl := Except.ok.inj h
      intro hm
      exact absurd (Number.mem_text hm) (by decide)
    · simp at h

/-- **No tokens derive an expression with fewer parentheses than its text has.** Where the text of
an operand needs parentheses, its place in the grammar is not that of an operation, so that there is
a pair around its tokens, too. -/
theorem Derives.count_parens_le (h : Derives n k ts e) (hw : ∀ t ∈ ts, t.Whole) :
    e.chars.count '(' + (e.exceeds k).toNat ≤ ts.count .leftParen := by
  induction h with
  | operand h =>
    rw [h.count_paren_chars (hw _ List.mem_cons_self), h.atomic.2.2]
    exact Nat.zero_le _
  | @group n ts e h ih =>
    have hinner := ih fun t ht => hw t (by simp [ht])
    have hpair := Bool.toNat_le (e.exceeds .primary)
    have hcount : (.leftParen :: ts ++ [.rightParen] : List Token).count .leftParen =
        ts.count .leftParen + 1 := by simp
    omega
  | @product n ts e h ih =>
    have := e.exceeds_product_le
    have := ih hw
    omega
  | @sum n ts e h ih =>
    rw [exceeds_sum]
    exact (Nat.le_add_right _ _).trans (ih hw)
  | @binary n op ls rs l r hl hr ihl ihr =>
    have hleft := ihl fun t ht => hw t (by simp [ht])
    have hright := ihr fun t ht => hw t (by simp [ht])
    have hmiddle : [' ', op.symbol, ' '].countP (· == '(') = 0 := by cases op <;> decide
    have hpair : ['(', ')'].countP (· == '(') = 1 := by decide
    have hcount : (ls ++ .operator op :: rs).count .leftParen =
        ls.count .leftParen + rs.count .leftParen := by simp
    rw [List.count] at hleft hright ⊢
    rw [exceeds_leftRank, countP_chars_binary, hmiddle, hpair, looserThan_eq, noTighterThan_eq,
      Bool.toNat_false]
    omega

/-- **The text of an expression has no more parentheses than any text that is read as it.** The
parentheses of a text are those among its tokens. -/
theorem parens_minimal (h : parse cs = .ok (some e)) :
    e.chars.count '(' ≤ (Token.scan cs).count .leftParen ∧
      (Token.scan cs).count .leftParen = cs.count '(' := by
  refine ⟨?_, Token.count_leftParen_scan cs⟩
  have hd := (parse_eq_some_iff.1 h).1
  have := hd.count_parens_le fun t ht => (Token.of_mem_scanAfter ht).2
  omega

/-- Of three pairs one is needed. -/
theorem parens_minimal_of_difference :
    let cs := "(a) - ((b - 2)*1)".toList
    let e := binary .subtract (var "a")
      (binary .multiply (binary .subtract (var "b") (ofInt 2)) (ofInt 1))
    parse cs = .ok (some e) ∧ e.chars.count '(' = 1 ∧ cs.count '(' = 3 ∧
      e.chars.count '(' ≤ (Token.scan cs).count .leftParen ∧
      (Token.scan cs).count .leftParen = cs.count '(' := by
  intro cs e
  have h : parse cs = .ok (some e) := by decide +kernel
  exact ⟨h, by decide +kernel, by decide +kernel, parens_minimal h⟩

end Expr
end FlowScript
