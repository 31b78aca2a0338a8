import FlowScript.Expr.Printer
import FlowScript.Proofs.Expr.Grammar
import FlowScript.Proofs.Text.Trim

/-!
# Expressions that are written

An expression is written with parentheses only where its place wants them, so that its tokens
derive it again. The tokens are cut off its text one by one, and the text has as many operators and
as deep parentheses as the expression.

## Main definitions

* `Expr.operations`, `Expr.nesting`: the operators and the nested parentheses of the text.
* `Expr.Written`: the tokens of the text of an expression.

## Main statements

* `Expr.Written.scan_chars`: the text is cut into these tokens.
* `Expr.Written.derives`: these tokens derive the expression.
* `Expr.Derives.nesting_le`: no text of an expression has less nested parentheses.
-/
namespace FlowScript

open Text

namespace Expr

/-! ## Parentheses that are needed -/

/-- Whether an expression needs parentheses in a place. -/
def exceeds : Expr → Rank → Bool
  | binary _ _ _, .primary => true
  | binary op _ _, .product => !op.isProduct
  | _, _ => false

theorem looserThan_eq (op : ArithOp) (e : Expr) : e.looserThan op = e.exceeds op.leftRank := by
  cases e with
  | binary inner l r => cases op <;> rfl
  | _ => cases op <;> rfl

theorem noTighterThan_eq (op : ArithOp) (e : Expr) :
    e.noTighterThan op = e.exceeds op.rightRank := by
  cases e with
  | binary inner l r => cases op <;> rfl
  | _ => cases op <;> rfl

/-- How many operators an expression has. -/
def operations : Expr → Nat
  | binary _ l r => l.operations + r.operations + 1
  | classify _ i => i.operations
  | _ => 0

/-- How many parentheses are inside each other in the text of an expression. -/
def nesting : Expr → Nat
  | binary op l r =>
    max (l.nesting + (l.looserThan op).toNat) (r.nesting + (r.noTighterThan op).toNat)
  | classify _ i => i.nesting + 1
  | _ => 0

variable {n : Nat} {k : Rank} {ts : List Token} {e : Expr}

/-- A token stands for a number, a truth value or a variable. -/
theorem Stands.leaf {t : Token} (h : Stands t e) : (∃ v, e = literal v) ∨ ∃ name, e = var name := by
  cases h with
  | number h =>
    unfold ofNumeral at h
    split at h
    · exact .inl ⟨_, (Except.ok.inj h).symm⟩
    · simp at h
  | word name =>
    unfold ofWord
    split
    · exact .inl ⟨_, rfl⟩
    · exact .inr ⟨_, rfl⟩

/-- An operand has no operators, and it needs no parentheses. -/
theorem Stands.atomic {t : Token} (h : Stands t e) :
    e.operations = 0 ∧ e.nesting = 0 ∧ ∀ k, e.exceeds k = false := by
  obtain ⟨v, rfl⟩ | ⟨name, rfl⟩ := h.leaf
  · exact ⟨rfl, rfl, fun k => by cases k <;> rfl⟩
  · exact ⟨rfl, rfl, fun k => by cases k <;> rfl⟩

theorem Stands.not_isOperator {t : Token} (h : Stands t e) : t.isOperator = false := by
  cases h <;> rfl

theorem exceeds_sum (e : Expr) : e.exceeds .sum = false := by
  cases e <;> rfl

theorem exceeds_product_le (e : Expr) :
    (e.exceeds .product).toNat ≤ (e.exceeds .primary).toNat := by
  cases e with
  | binary op l r => exact Bool.toNat_le _
  | _ => exact Nat.le_refl _

theorem exceeds_leftRank (op : ArithOp) (l r : Expr) :
    (binary op l r).exceeds op.leftRank = false := by
  cases op <;> rfl

/-- The operators among tokens are those of the expression that they derive. -/
theorem Derives.countP_isOperator (h : Derives n k ts e) :
    ts.countP Token.isOperator = e.operations := by
  induction h with
  | operand h =>
    rw [h.atomic.1, List.countP_eq_zero]
    simp [h.not_isOperator]
  | group h ih => simpa [Token.isOperator] using ih
  | product h ih => exact ih
  | sum h ih => exact ih
  | binary op hl hr ihl ihr =>
    rw [List.countP_append, List.countP_cons_of_pos rfl, ihl, ihr, operations, Nat.add_assoc]

/-- **No tokens derive an expression with less nested parentheses than its text has.** -/
theorem Derives.nesting_le (h : Derives n k ts e) : e.nesting + (e.exceeds k).toNat ≤ n := by
  induction h with
  | operand h =>
    obtain ⟨-, hn, hk⟩ := h.atomic
    simp [hn, hk]
  | @group n ts e h ih =>
    have := Bool.toNat_le (e.exceeds .primary)
    omega
  | @product n ts e h ih => exact (Nat.add_le_add_left e.exceeds_product_le _).trans ih
  | @sum n ts e h ih =>
    rw [exceeds_sum]
    exact (Nat.le_add_right _ _).trans ih
  | binary op hl hr ihl ihr =>
    rw [exceeds_leftRank, nesting, looserThan_eq, noTighterThan_eq]
    exact Nat.max_le.2 ⟨ihl, ihr⟩

/-! ## Characters of texts -/

theorem countP_parenthesised (q : Char → Bool) (wrap : Bool) (cs : List Char) :
    (if wrap then parenthesised cs else cs).countP q =
      cs.countP q + wrap.toNat * ['(', ')'].countP q := by
  cases wrap with
  | false => simp
  | true =>
    have hparens : parenthesised cs = ['('] ++ cs ++ [')'] := rfl
    have hboth : ['(', ')'] = ['('] ++ [')'] := rfl
    rw [if_pos rfl, hparens, hboth, List.countP_append, List.countP_append, List.countP_append,
      Bool.toNat_true]
    omega

/-- The text of an operation has the characters of its operands, those of the symbol and the blanks
around it, and parentheses where they are needed. -/
theorem countP_chars_binary (q : Char → Bool) (op : ArithOp) (l r : Expr) :
    (binary op l r).chars.countP q =
      l.chars.countP q + r.chars.countP q + [' ', op.symbol, ' '].countP q +
        ((l.looserThan op).toNat + (r.noTighterThan op).toNat) * ['(', ')'].countP q := by
  have happ : (binary op l r).chars =
      (if l.looserThan op then parenthesised l.chars else l.chars) ++ [' ', op.symbol, ' '] ++
        (if r.noTighterThan op then parenthesised r.chars else r.chars) := by
    simp [chars]
  rw [happ, List.countP_append, List.countP_append, countP_parenthesised, countP_parenthesised,
    Nat.add_mul]
  omega

/-! ## Tokens of texts -/

/-- Some tokens, in parentheses if they are needed. -/
def grouped (wrap : Bool) (ts : List Token) : List Token :=
  if wrap then .leftParen :: ts ++ [.rightParen] else ts

/-- The tokens of the text of an expression. -/
inductive Written : Expr → List Token → Prop
  | operand {t : Token} {e : Expr} (hw : t.Whole) (hc : t.chars = e.chars) (hs : Stands t e) :
      Written e [t]
  | binary (op : ArithOp) {l r : Expr} {ls rs : List Token} (hl : Written l ls)
      (hr : Written r rs) :
      Written (binary op l r)
        (grouped (l.looserThan op) ls ++ .operator op :: grouped (r.noTighterThan op) rs)

theorem Derives.of_primary (h : Derives n .primary ts e) (k : Rank) : Derives n k ts e := by
  cases k with
  | primary => exact h
  | product => exact h.product
  | sum => exact h.product.sum

/-- An operation stands in every place that does not want it in parentheses. -/
theorem Derives.of_exceeds {op : ArithOp} {l r : Expr}
    (h : Derives n op.leftRank ts (Expr.binary op l r))
    (hk : (Expr.binary op l r).exceeds k = false) : Derives n k ts (Expr.binary op l r) := by
  unfold ArithOp.leftRank at h
  cases k with
  | primary => simp [exceeds] at hk
  | product =>
    have hop : op.isProduct := by simpa [exceeds] using hk
    rwa [if_pos hop] at h
  | sum =>
    split at h
    · exact h.sum
    · exact h

/-- **The tokens of a text derive the expression that is written.** -/
theorem Written.derives (h : Written e ts) (hn : e.nesting + (e.exceeds k).toNat ≤ n) :
    Derives n k (grouped (e.exceeds k) ts) e := by
  induction h generalizing k n with
  | operand hw hc hs =>
    rw [hs.atomic.2.2 k]
    exact (Derives.operand hs).of_primary k
  | @binary op l r ls rs hl hr ihl ihr =>
    have hinner : ∀ {n}, (Expr.binary op l r).nesting ≤ n → Derives n op.leftRank
        (grouped (l.looserThan op) ls ++ .operator op :: grouped (r.noTighterThan op) rs)
        (.binary op l r) := by
      intro n hn
      rw [nesting, Nat.max_le, looserThan_eq, noTighterThan_eq] at hn
      rw [looserThan_eq, noTighterThan_eq]
      exact .binary op (ihl hn.1) (ihr hn.2)
    cases hk : (Expr.binary op l r).exceeds k with
    | false => exact (hinner (by omega)).of_exceeds hk
    | true =>
      rw [hk, Bool.toNat_true] at hn
      obtain ⟨n, rfl⟩ : ∃ m, n = m + 1 := ⟨n - 1, by omega⟩
      have hsum := (hinner (Nat.le_of_succ_le_succ hn)).of_exceeds (exceeds_sum _)
      exact (Derives.group hsum).of_primary k

/-! ## Cutting texts into tokens -/

theorem scanAfter_grouped {cs : List Char} (wrap : Bool)
    (h : ∀ {after : List Char}, Token.Breaks after →
      Token.scanAfter 0 (cs ++ after) = ts ++ Token.scanAfter 0 after)
    {after : List Char} (ha : Token.Breaks after) :
    Token.scanAfter 0 ((if wrap then parenthesised cs else cs) ++ after) =
      grouped wrap ts ++ Token.scanAfter 0 after := by
  cases wrap with
  | false => exact h ha
  | true =>
    simp only [if_true, parenthesised, grouped, List.cons_append, List.append_assoc,
      List.nil_append]
    rw [Token.scanAfter_leftParen, h (Token.breaks_paren after), Token.scanAfter_rightParen]

/-- The tokens are cut off the text. -/
theorem Written.scanAfter_chars (h : Written e ts) {after : List Char} (ha : Token.Breaks after) :
    Token.scanAfter 0 (e.chars ++ after) = ts ++ Token.scanAfter 0 after := by
  induction h generalizing after with
  | operand hw hc hs => rw [← hc, Token.scanAfter_append_of_whole hw ha, List.singleton_append]
  | @binary op l r ls rs hl hr ihl ihr =>
    rw [chars, List.append_assoc, List.cons_append, List.cons_append, List.cons_append,
      scanAfter_grouped (l.looserThan op) ihl (Token.breaks_blank _), Token.scanAfter_blank,
      Token.scanAfter_operator, Token.scanAfter_blank,
      scanAfter_grouped (r.noTighterThan op) ihr ha, List.append_assoc, List.cons_append]

/-! ## Texts as a whole -/

theorem isFree_parenthesised {cs : List Char} (h : '\n' ∉ cs) : IsFree (parenthesised cs) :=
  ⟨by simp [parenthesised], trim_eq_self (by decide) (by decide), by simp [parenthesised, h]⟩

/-- There are no blanks at the ends of the text, and it is one line. -/
theorem Written.isFree (h : Written e ts) : IsFree e.chars := by
  induction h with
  | operand hw hc hs => exact hc ▸ hw.isSolid.isFree
  | @binary op l r ls rs hl hr ihl ihr =>
    have hop : '\n' ≠ op.symbol := by cases op <;> decide
    have hfree : ∀ (wrap : Bool) {cs : List Char}, IsFree cs →
        IsFree (if wrap then parenthesised cs else cs) := by
      intro wrap cs hcs
      cases wrap with
      | false => exact hcs
      | true => exact isFree_parenthesised hcs.oneLine
    have hmiddle : '\n' ∉ [' ', op.symbol, ' '] := by simp [hop]
    exact (hfree _ ihl).append (hfree _ ihr) hmiddle

/-- Nothing of the text is dropped. -/
theorem Written.countP_isDropped (h : Written e ts) : e.chars.countP Token.isDropped = 0 := by
  induction h with
  | operand hw hc hs =>
    rw [← hc, List.countP_eq_zero]
    intro c hmem
    simp [hw.not_isDropped hmem]
  | binary op hl hr ihl ihr =>
    have hsymbol : [' ', op.symbol, ' '].countP Token.isDropped = 0 := by cases op <;> decide
    have hparens : ['(', ')'].countP Token.isDropped = 0 := by decide
    rw [countP_chars_binary, ihl, ihr, hsymbol, hparens, Nat.mul_zero]

/-- **The text is cut into the tokens that have been written.** -/
theorem Written.scan_chars (h : Written e ts) : Token.scan e.chars = ts := by
  have hf : e.chars.filter (!Token.isDropped ·) = e.chars :=
    List.filter_eq_self.2 fun c hc => by simpa using List.countP_eq_zero.1 h.countP_isDropped c hc
  have hs := h.scanAfter_chars Token.breaks_nil
  rw [List.append_nil, Token.scanAfter, List.append_nil] at hs
  rw [Token.scan, Token.cleaned, hf, h.isFree.trim_eq, hs]

theorem Written.derives_sum (h : Written e ts) (hn : e.nesting ≤ n) : Derives n .sum ts e := by
  have hk := exceeds_sum e
  have hd : Derives n .sum (grouped (e.exceeds .sum) ts) e := h.derives (by rwa [hk])
  rwa [hk] at hd

/-- The text has the operators of the expression. -/
theorem Written.countP_chars (h : Written e ts) :
    e.chars.countP Token.isSymbol = e.operations := by
  rw [← Token.countP_isOperator_scan, h.scan_chars, (h.derives_sum le_rfl).countP_isOperator]

/-- **An expression that is written within the limits is read again.** -/
theorem Written.parse_eq (h : Written e ts) (hn : e.nesting ≤ maxNesting)
    (ho : e.operations ≤ maxNesting) : parse e.chars = .ok (some e) := by
  have hd := h.derives_sum hn
  rw [parse_eq_some_iff, h.scan_chars]
  exact ⟨hd, hd.countP_isOperator ▸ ho⟩

end Expr
end FlowScript
