import FlowScript.Expr.Parser
import FlowScript.Proofs.Token

/-!
# The grammar of expressions

A sum is a product or a sum, an operator and a product; a product is a primary or a product, an
operator and a primary; a primary is a number, a word or a sum in parentheses. The reader of tokens
accepts what the grammar derives, within the limits, and nothing else. What waits in the reader is
the derivations of the left operands that have been read.

## Main definitions

* `Expr.Derives`: derivations, with the nesting of parentheses that they are allowed.
* `Expr.Reading.Holds`: the invariant of the reader.

## Main statements

* `Expr.ofTokens_of_derives`: the reader accepts what is derived.
* `Expr.derives_of_ofTokens`: the reader accepts nothing else.
* `Expr.parse_eq_some_iff`: the expression that a text writes is the one that it derives.
* `Expr.parse_induction`: what holds of operands and is kept by operations holds of it.
-/
namespace FlowScript

/-- The places in an expression that have no parentheses around them, from the tightest one on. -/
inductive Rank where
  | primary
  | product
  | sum
  deriving DecidableEq

/-- The place of the left operand of an operator, and of the operation itself. -/
def ArithOp.leftRank (op : ArithOp) : Rank :=
  if op.isProduct then .product else .sum

/-- The place of the right operand of an operator. -/
def ArithOp.rightRank (op : ArithOp) : Rank :=
  if op.isProduct then .primary else .product

namespace Expr

open Token (isOperator)

/-- What a token stands for where an operand is wanted. -/
inductive Stands : Token → Expr → Prop
  | number {whole : List Char} {fraction : Option (List Char)} {e : Expr}
      (h : ofNumeral whole fraction = .ok e) : Stands (.number whole fraction) e
  | word (name : List Char) : Stands (.word name) (ofWord name)

/-- The expressions that tokens derive in a place, with at most so many parentheses inside each
other. -/
inductive Derives : Nat → Rank → List Token → Expr → Prop
  | operand {n : Nat} {t : Token} {e : Expr} (h : Stands t e) : Derives n .primary [t] e
  | group {n : Nat} {ts : List Token} {e : Expr} (h : Derives n .sum ts e) :
      Derives (n + 1) .primary (.leftParen :: ts ++ [.rightParen]) e
  | product {n : Nat} {ts : List Token} {e : Expr} (h : Derives n .primary ts e) :
      Derives n .product ts e
  | sum {n : Nat} {ts : List Token} {e : Expr} (h : Derives n .product ts e) : Derives n .sum ts e
  | binary {n : Nat} (op : ArithOp) {ls rs : List Token} {l r : Expr}
      (hl : Derives n op.leftRank ls l) (hr : Derives n op.rightRank rs r) :
      Derives n op.leftRank (ls ++ .operator op :: rs) (binary op l r)

variable {n : Nat} {k : Rank} {ts : List Token} {e : Expr}

/-! ## What one token does -/

/-- How one token changes the state of the reader. -/
inductive Advances : Reading → Token → Reading → Prop
  | operand {p : Pending} {os : List Pending} {j : Nat} {t : Token} {e : Expr} (h : Stands t e) :
      Advances ⟨none, p, os, j⟩ t ⟨some e, p, os, j⟩
  | leftParen {p : Pending} {os : List Pending} {j : Nat} (h : os.length < maxNesting) :
      Advances ⟨none, p, os, j⟩ .leftParen ⟨none, Pending.none, p :: os, j⟩
  | operator {p : Pending} {os : List Pending} {j : Nat} {e : Expr} {op : ArithOp}
      (h : j < maxNesting) :
      Advances ⟨some e, p, os, j⟩ (.operator op) ⟨none, p.push e op, os, j + 1⟩
  | rightParen {p q : Pending} {os : List Pending} {j : Nat} {e : Expr} :
      Advances ⟨some e, p, q :: os, j⟩ .rightParen ⟨some (p.total e), q, os, j⟩

theorem Advances.step_eq {r r' : Reading} {t : Token} (h : Advances r t r') :
    r.step t = .ok r' := by
  cases h with
  | operand h =>
    cases h with
    | number h => simp [Reading.step, h, bind, Except.bind, pure, Except.pure]
    | word name => rfl
  | leftParen h =>
    simp only [Reading.step]
    rw [if_pos h]
  | operator h =>
    simp only [Reading.step]
    rw [if_pos h]
  | rightParen => rfl

theorem advances_of_step {r r' : Reading} {t : Token} (h : r.step t = .ok r') :
    Advances r t r' := by
  obtain ⟨operand, inner, outer, operators⟩ := r
  cases operand with
  | none =>
    cases t with
    | number whole fraction =>
      simp only [Reading.step, bind, Except.bind, pure, Except.pure] at h
      cases hn : ofNumeral whole fraction with
      | error e => simp [hn] at h
      | ok e =>
        rw [hn] at h
        obtain rfl := Except.ok.inj h
        exact .operand (.number hn)
    | word name =>
      obtain rfl := Except.ok.inj h
      exact .operand (.word name)
    | leftParen =>
      simp only [Reading.step] at h
      split at h
      · rename_i hlt
        obtain rfl := Except.ok.inj h
        exact .leftParen hlt
      · simp at h
    | operator op => simp [Reading.step] at h
    | rightParen => simp [Reading.step] at h
  | some e =>
    cases t with
    | operator op =>
      simp only [Reading.step] at h
      split at h
      · rename_i hlt
        obtain rfl := Except.ok.inj h
        exact .operator hlt
      · simp at h
    | rightParen =>
      cases outer with
      | nil => simp [Reading.step] at h
      | cons q os =>
        obtain rfl := Except.ok.inj h
        exact .rightParen
    | number whole fraction => simp [Reading.step] at h
    | word name => simp [Reading.step] at h
    | leftParen => simp [Reading.step] at h

/-! ## Reading what is derived -/

/-- What may wait before an expression in a place. -/
def Pending.Admits (p : Pending) : Rank → Prop
  | .primary => True
  | .product => p.product = .none
  | .sum => p = Pending.none

/-- What waits, and for which operand, when an expression has been read in a place. -/
def Pending.Completes (p : Pending) (e : Expr) (p' : Pending) (r : Expr) : Rank → Prop
  | .primary => p' = p ∧ r = e
  | .product => p'.sum = p.sum ∧ p'.factor r = e
  | .sum => p'.total r = e

namespace Pending

variable {p p' : Pending} {op : ArithOp} {l r : Expr}

theorem admits_push (p : Pending) (r : Expr) (op : ArithOp) :
    (p.push r op).Admits op.rightRank := by
  unfold ArithOp.rightRank push
  split
  · trivial
  · rfl

/-- The operation is complete when its right operand is. -/
theorem Completes.binary {p'' : Pending} {l' r' : Expr} (h : p.Completes l p' l' op.leftRank)
    (h' : (p'.push l' op).Completes r p'' r' op.rightRank) :
    p.Completes (binary op l r) p'' r' op.leftRank := by
  unfold ArithOp.leftRank ArithOp.rightRank push at *
  cases hop : op.isProduct with
  | true =>
    simp only [hop, if_true] at *
    obtain ⟨hs, rfl⟩ := h
    obtain ⟨rfl, rfl⟩ := h'
    exact ⟨hs, rfl⟩
  | false =>
    simp only [hop, Bool.false_eq_true, if_false, Completes] at *
    obtain ⟨hs, rfl⟩ := h'
    rw [total, hs, h]
    rfl

end Pending

theorem Advances.foldlM_cons {r r' : Reading} {t : Token} (h : Advances r t r') (ts : List Token) :
    (t :: ts).foldlM Reading.step r = ts.foldlM Reading.step r' := by
  rw [List.foldlM_cons, h.step_eq]
  rfl

theorem foldlM_append_of_ok {us vs : List Token} {r r' : Reading}
    (h : us.foldlM Reading.step r = .ok r') :
    (us ++ vs).foldlM Reading.step r = vs.foldlM Reading.step r' := by
  rw [List.foldlM_append, h]
  rfl

/-- What is derived is read, whatever waits in the parentheses around it. -/
theorem foldlM_of_derives (h : Derives n k ts e) (p : Pending) (os : List Pending) (j : Nat)
    (hp : p.Admits k) (hn : os.length + n ≤ maxNesting)
    (hj : j + ts.countP isOperator ≤ maxNesting) :
    ∃ p' r, ts.foldlM Reading.step ⟨none, p, os, j⟩ =
        .ok ⟨some r, p', os, j + ts.countP isOperator⟩ ∧ p.Completes e p' r k := by
  induction h generalizing p os j with
  | @operand n t e h =>
    have hcount : [t].countP isOperator = 0 := by
      cases h <;> rfl
    rw [hcount]
    exact ⟨p, e, (Advances.operand h).foldlM_cons [], rfl, rfl⟩
  | @group n ts e h ih =>
    have hcount : (Token.leftParen :: ts ++ [Token.rightParen]).countP isOperator =
        ts.countP isOperator := by simp [isOperator]
    rw [hcount] at hj ⊢
    obtain ⟨p', r, hf, hc⟩ := ih Pending.none (p :: os) j rfl (by simp; omega) hj
    obtain rfl : p'.total r = e := hc
    refine ⟨p, _, ?_, rfl, rfl⟩
    rw [List.cons_append, (Advances.leftParen (by omega)).foldlM_cons, foldlM_append_of_ok hf,
      Advances.rightParen.foldlM_cons]
    rfl
  | product h ih =>
    have hnone : p.product = none := hp
    obtain ⟨p', r, hf, hp', hr⟩ := ih p os j trivial hn hj
    exact ⟨p', r, hf, by rw [hp'], by rw [hp', hr, Pending.factor, hnone, join]⟩
  | sum h ih =>
    obtain rfl : p = Pending.none := hp
    have hnone : Pending.none.product = none := rfl
    obtain ⟨p', r, hf, hs, hr⟩ := ih Pending.none os j hnone hn hj
    exact ⟨p', r, hf, by simp only [Pending.Completes, Pending.total, hs, hr, Pending.none, join]⟩
  | @binary n op ls rs l r hl hr ihl ihr =>
    rw [List.countP_append, List.countP_cons_of_pos rfl] at hj ⊢
    obtain ⟨p', l', hfl, hcl⟩ := ihl p os j hp hn (by omega)
    obtain ⟨p'', r', hfr, hcr⟩ :=
      ihr (p'.push l' op) os (j + ls.countP isOperator + 1) (p'.admits_push l' op) hn (by omega)
    refine ⟨p'', r', ?_, hcl.binary hcr⟩
    rw [foldlM_append_of_ok hfl, (Advances.operator (by omega)).foldlM_cons, hfr]
    congr 2
    omega

/-- **The reader accepts what is derived within the limits.** -/
theorem ofTokens_of_derives (h : Derives maxNesting .sum ts e)
    (hj : ts.countP isOperator ≤ maxNesting) : ofTokens ts = .ok e := by
  obtain ⟨p', r, hf, hc⟩ := foldlM_of_derives h Pending.none [] 0 rfl (by simp)
    (by simpa using hj)
  have hr : p'.total r = e := hc
  rw [ofTokens, Reading.start, hf]
  simp [Reading.finish, hr, bind, Except.bind]

/-! ## Deriving what is read -/

/-- The tokens of a left operand that waits for a right one in a place, with its operator. -/
def Waits (n : Nat) (k : Rank) : Option (Expr × ArithOp) → List Token → Prop
  | none, ts => ts = []
  | some (l, op), ts => ∃ ls, ts = ls ++ [.operator op] ∧ op.leftRank = k ∧ Derives n k ls l

/-- The operation that waits is derived with its right operand. -/
theorem Waits.binary {op : ArithOp} {l r : Expr} {us rs : List Token}
    (h : Waits n k (some (l, op)) us) (hr : Derives n op.rightRank rs r) :
    Derives n k (us ++ rs) (binary op l r) := by
  obtain ⟨ls, rfl, rfl, hl⟩ := h
  rw [List.append_assoc]
  exact .binary op hl hr

namespace Pending

/-- The tokens of what waits inside one pair of parentheses. -/
def Holds (n : Nat) (p : Pending) (ts : List Token) : Prop :=
  ∃ us vs, ts = us ++ vs ∧ Waits n .sum p.sum us ∧ Waits n .product p.product vs

variable {p : Pending} {us : List Token}

theorem holds_none (n : Nat) : Pending.none.Holds n [] :=
  ⟨[], [], rfl, rfl, rfl⟩

/-- The product that an operand completes is derived, and a sum waits for it. -/
theorem Holds.factor (h : p.Holds n us) (he : Derives n .primary ts e) :
    ∃ us₁ us₂, us = us₁ ++ us₂ ∧ Waits n .sum p.sum us₁ ∧
      Derives n .product (us₂ ++ ts) (p.factor e) := by
  obtain ⟨us₁, us₂, rfl, hs, hp⟩ := h
  refine ⟨us₁, us₂, rfl, hs, ?_⟩
  unfold Pending.factor
  cases hw : p.product with
  | none =>
    obtain rfl : us₂ = [] := by rwa [hw] at hp
    exact he.product
  | some w =>
    obtain ⟨l, op⟩ := w
    rw [hw] at hp
    have hop : op.isProduct := by
      obtain ⟨-, -, hk, -⟩ := hp
      by_contra hop
      simp [ArithOp.leftRank, hop] at hk
    exact hp.binary (by rwa [ArithOp.rightRank, if_pos hop])

/-- The sum that an operand completes is derived. -/
theorem Holds.total (h : p.Holds n us) (he : Derives n .primary ts e) :
    Derives n .sum (us ++ ts) (p.total e) := by
  obtain ⟨us₁, us₂, rfl, hs, hf⟩ := h.factor he
  unfold Pending.total
  cases hw : p.sum with
  | none =>
    obtain rfl : us₁ = [] := by rwa [hw] at hs
    exact hf.sum
  | some w =>
    obtain ⟨l, op⟩ := w
    rw [hw] at hs
    have hop : ¬ op.isProduct := by
      obtain ⟨-, -, hk, -⟩ := hs
      intro hop
      simp [ArithOp.leftRank, hop] at hk
    rw [List.append_assoc]
    exact hs.binary (by rwa [ArithOp.rightRank, if_neg hop])

theorem Holds.push (h : p.Holds n us) (he : Derives n .primary ts e) (op : ArithOp) :
    (p.push e op).Holds n (us ++ ts ++ [.operator op]) := by
  unfold Pending.push
  by_cases hop : op.isProduct
  · rw [if_pos hop]
    obtain ⟨us₁, us₂, rfl, hs, hf⟩ := h.factor he
    exact ⟨us₁, us₂ ++ ts ++ [.operator op], by simp, hs, us₂ ++ ts, rfl,
      by rw [ArithOp.leftRank, if_pos hop], hf⟩
  · rw [if_neg hop]
    exact ⟨us ++ ts ++ [.operator op], [], by simp,
      ⟨us ++ ts, rfl, by rw [ArithOp.leftRank, if_neg hop], h.total he⟩, rfl⟩

end Pending

namespace Reading

/-- The tokens of what waits outside the innermost parentheses. -/
def OuterHolds : List Pending → List Token → Prop
  | [], ts => ts = []
  | p :: ps, ts => ∃ us vs, ts = us ++ vs ++ [.leftParen] ∧ OuterHolds ps us ∧
      p.Holds (maxNesting - ps.length) vs

/-- The tokens of an operand, if there is one. -/
def OperandHolds (n : Nat) : Option Expr → List Token → Prop
  | none, ts => ts = []
  | some e, ts => Derives n .primary ts e

/-- The tokens that have been read are those of what waits and of the operand. -/
structure Holds (r : Reading) (ts : List Token) : Prop where
  nesting : r.outer.length ≤ maxNesting
  operators : r.operators = ts.countP isOperator
  limit : r.operators ≤ maxNesting
  tokens : ∃ us vs ws, ts = us ++ (vs ++ ws) ∧ OuterHolds r.outer us ∧
    r.inner.Holds (maxNesting - r.outer.length) vs ∧
    OperandHolds (maxNesting - r.outer.length) r.operand ws

theorem holds_start : start.Holds [] :=
  ⟨by simp [start], rfl, by simp [start], [], [], [], rfl, rfl, Pending.holds_none _, rfl⟩

variable {r r' : Reading} {t : Token}

/-- **One token keeps the reader's invariant.** -/
theorem Holds.advance (hr : r.Holds ts) (h : Advances r t r') : r'.Holds (ts ++ [t]) := by
  obtain ⟨hn, ho, hl, us, vs, ws, rfl, hus, hvs, hws⟩ := hr
  cases h with
  | @operand p os j t e h =>
    obtain rfl : ws = [] := hws
    refine ⟨hn, ?_, hl, us, vs, [t], by simp, hus, hvs, .operand h⟩
    have hcount : [t].countP isOperator = 0 := by
      cases h <;> rfl
    rw [List.countP_append, hcount]
    exact ho
  | @leftParen p os j h =>
    obtain rfl : ws = [] := hws
    refine ⟨h, ?_, hl, us ++ vs ++ [.leftParen], [], [], by simp, ⟨us, vs, rfl, hus, hvs⟩,
      Pending.holds_none _, rfl⟩
    rw [List.countP_append]
    exact ho
  | @operator p os j e op h =>
    refine ⟨hn, ?_, h, us, vs ++ ws ++ [.operator op], [], by simp, hus, hvs.push hws op, rfl⟩
    rw [List.countP_append]
    exact congrArg (· + 1) ho
  | @rightParen p q os j e =>
    obtain ⟨us₁, us₂, rfl, hos, hq⟩ := hus
    have hlevel : maxNesting - (q :: os).length + 1 = maxNesting - os.length := by
      simp only [List.length_cons] at hn ⊢
      omega
    have hgroup := Derives.group (hvs.total hws)
    simp only [hlevel] at hgroup
    refine ⟨Nat.le_of_succ_le hn, ?_, hl, us₁, us₂,
      .leftParen :: (vs ++ ws) ++ [Token.rightParen], by simp, hos, hq, hgroup⟩
    rw [List.countP_append]
    exact ho

/-- The reader's invariant holds after any tokens. -/
theorem Holds.foldlM {us : List Token} (hr : r.Holds ts)
    (h : us.foldlM Reading.step r = .ok r') : r'.Holds (ts ++ us) := by
  induction us generalizing r ts with
  | nil =>
    obtain rfl := Except.ok.inj h
    rwa [List.append_nil]
  | cons t us ih =>
    cases hs : r.step t with
    | error e => simp [List.foldlM_cons, hs, bind, Except.bind] at h
    | ok next =>
      rw [(advances_of_step hs).foldlM_cons] at h
      have := ih (hr.advance (advances_of_step hs)) h
      rwa [List.append_assoc] at this

theorem Holds.finish (hr : r.Holds ts) (h : r.finish = .ok e) :
    Derives maxNesting .sum ts e ∧ ts.countP isOperator ≤ maxNesting := by
  obtain ⟨hn, ho, hl, us, vs, ws, rfl, hus, hvs, hws⟩ := hr
  unfold Reading.finish at h
  split at h
  · rename_i a ha hos
    obtain rfl := Except.ok.inj h
    rw [hos] at hus hvs hws
    rw [ha] at hws
    obtain rfl : us = [] := hus
    exact ⟨hvs.total hws, ho ▸ hl⟩
  · simp at h

end Reading

/-- **The reader accepts nothing else than what is derived within the limits.** -/
theorem derives_of_ofTokens (h : ofTokens ts = .ok e) :
    Derives maxNesting .sum ts e ∧ ts.countP isOperator ≤ maxNesting := by
  simp only [ofTokens, bind, Except.bind] at h
  cases hr : ts.foldlM Reading.step Reading.start with
  | error f => simp [hr] at h
  | ok r =>
    simp only [hr] at h
    exact (Reading.holds_start.foldlM hr).finish h

/-- **The expression that a text writes is the one that its tokens derive within the limits.** -/
theorem parse_eq_some_iff {cs : List Char} :
    parse cs = .ok (some e) ↔ Derives maxNesting .sum (Token.scan cs) e ∧
      (Token.scan cs).countP isOperator ≤ maxNesting := by
  unfold parse
  constructor
  · intro h
    split at h
    · rename_i e' he
      obtain rfl : e' = e := by simpa using h
      exact derives_of_ofTokens he
    · simp at h
    · simp at h
  · rintro ⟨hd, hj⟩
    rw [ofTokens_of_derives hd hj]

/-! ## Induction over what is read -/

/-- What is derived is put together from what its tokens stand for. -/
theorem Derives.induct {K : Expr → Prop} (h : Derives n k ts e)
    (operand : ∀ {t e}, t ∈ ts → Stands t e → K e)
    (binary : ∀ {op l r}, K l → K r → K (.binary op l r)) : K e := by
  induction h with
  | operand h => exact operand (by simp) h
  | group h ih => exact ih fun ht hs => operand (by simp [ht]) hs
  | product h ih => exact ih operand
  | sum h ih => exact ih operand
  | binary op hl hr ihl ihr =>
    refine binary (ihl fun ht hs => operand ?_ hs) (ihr fun ht hs => operand ?_ hs)
    · simp [ht]
    · simp [ht]

/-- What holds of all operands and is kept by all operations holds of the expression that a text
writes. -/
theorem parse_induction {K : Expr → Prop} {cs : List Char}
    (operand : ∀ {t e}, t ∈ Token.scan cs → t.Whole → Stands t e → K e)
    (binary : ∀ {op l r}, K l → K r → K (.binary op l r)) (h : parse cs = .ok (some e)) : K e :=
  (parse_eq_some_iff.1 h).1.induct
    (fun ht hs => operand ht (Token.of_mem_scanAfter ht).2 hs) binary

end Expr
end FlowScript
