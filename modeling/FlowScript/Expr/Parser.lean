import FlowScript.Expr.Basic
import FlowScript.Limit
import FlowScript.Token

/-!
# Reading expressions

Tokens are read one by one. Between two tokens the reader either wants an operand or has one; for
each pair of parentheses that is open it remembers the sum and the product that wait for their
right operand. Products are formed before sums and both from the left.

## Main definitions

* `Expr.Pending`, `Expr.Reading`: what waits in a pair of parentheses, and the state between two
  tokens.
* `Expr.Reading.step`: the next state after one token.
* `Expr.parse`: the expression that a text writes, if the whole text is one within the limits.
-/
namespace FlowScript.Expr

/-- Why reading stops early: no expression starts with the tokens read, or a number is too long. -/
inductive Halt where
  | malformed
  | fault (f : Fault)
  deriving DecidableEq, Repr

/-- What waits for its right operand inside one pair of parentheses: a sum and, after it, a
product. -/
structure Pending where
  sum : Option (Expr × ArithOp)
  product : Option (Expr × ArithOp)
  deriving DecidableEq, Repr

/-- The operation that waits, applied to its right operand. -/
def join (waiting : Option (Expr × ArithOp)) (right : Expr) : Expr :=
  match waiting with
  | none => right
  | some (left, op) => binary op left right

namespace Pending

/-- Nothing waits. -/
def none : Pending := ⟨.none, .none⟩

/-- The product that an operand completes. -/
def factor (p : Pending) (operand : Expr) : Expr :=
  join p.product operand

/-- The sum that an operand completes. -/
def total (p : Pending) (operand : Expr) : Expr :=
  join p.sum (p.factor operand)

/-- What waits after an operand and an operator. -/
def push (p : Pending) (operand : Expr) (op : ArithOp) : Pending :=
  if op.isProduct then { p with product := some (p.factor operand, op) }
  else ⟨some (p.total operand, op), .none⟩

end Pending

/-- The state between two tokens: whether there is an operand, what waits in the innermost pair of
parentheses and in those around it, and how many operators have been read. -/
structure Reading where
  operand : Option Expr
  inner : Pending
  outer : List Pending
  operators : Nat
  deriving DecidableEq, Repr

/-- A word as an operand: a truth value in any case, or a variable. -/
def ofWord (name : List Char) : Expr :=
  match truth? name with
  | some b => ofBool b
  | none => var (String.ofList name)

/-- A number as an operand. -/
def ofNumeral (whole : List Char) (fraction : Option (List Char)) : Except Halt Expr :=
  match (Numeral.mk false whole fraction none).value with
  | .ok n => .ok (ofNumber n)
  | .error f => .error (.fault f)

namespace Reading

/-- The state before the first token. -/
def start : Reading := ⟨none, Pending.none, [], 0⟩

/-- The next state after one token. -/
def step (r : Reading) (t : Token) : Except Halt Reading :=
  match r.operand, t with
  | none, .number whole fraction => do
    let e ← ofNumeral whole fraction
    return { r with operand := some e }
  | none, .word name => .ok { r with operand := some (ofWord name) }
  | none, .leftParen =>
    if r.outer.length < maxNesting then
      .ok { r with inner := Pending.none, outer := r.inner :: r.outer }
    else .error .malformed
  | some e, .operator op =>
    if r.operators < maxNesting then
      .ok ⟨none, r.inner.push e op, r.outer, r.operators + 1⟩
    else .error .malformed
  | some e, .rightParen =>
    match r.outer with
    | [] => .error .malformed
    | p :: ps => .ok ⟨some (r.inner.total e), p, ps, r.operators⟩
  | _, _ => .error .malformed

/-- The expression that has been read, if there is an operand and every parenthesis is closed. -/
def finish (r : Reading) : Except Halt Expr :=
  match r.operand, r.outer with
  | some e, [] => .ok (r.inner.total e)
  | _, _ => .error .malformed

end Reading

/-- The expression that some tokens write. -/
def ofTokens (ts : List Token) : Except Halt Expr := do
  (← ts.foldlM Reading.step Reading.start).finish

/-- The expression that a text writes, if the whole text is one within the limits. -/
def parse (cs : List Char) : Except Fault (Option Expr) :=
  match ofTokens (Token.scan cs) with
  | .ok e => .ok (some e)
  | .error .malformed => .ok none
  | .error (.fault f) => .error f

end FlowScript.Expr
