import FlowScript.Tree.Basic

/-!
# Expressions

An expression is a literal, a variable, an arithmetic operation or the answer of a classifier, and
its operands are expressions again.

## Main definitions

* `Expr`: expressions.
* `Expr.tree`, `Tree.expr?`: expressions as trees, and the expression that a tree is.
* `Expr.same`: equality in which literals are compared by value, so that a truth value equals the
  number that stands for it.
-/
namespace FlowScript

/-- An expression. -/
inductive Expr where
  | literal (value : Json)
  | var (name : String)
  | binary (op : ArithOp) (left right : Expr)
  | classify (model : String) (input : Expr)
  deriving DecidableEq, Repr, Inhabited

namespace Expr

/-- The number as an expression. -/
def ofNumber (n : Number) : Expr :=
  literal (.number n)

/-- The integer as an expression. -/
def ofInt (n : Int) : Expr :=
  literal (.ofInt n)

/-- The truth value as an expression. -/
def ofBool (b : Bool) : Expr :=
  literal (.bool b)

/-- The text as an expression. -/
def ofText (s : String) : Expr :=
  literal (.string s)

/-- The truth value that a word stands for, in any case of ASCII. -/
def truth? (cs : List Char) : Option Bool :=
  let word := cs.map Char.toLower
  if word = "true".toList then some true
  else if word = "false".toList then some false
  else none

/-! ## Equality by value -/

/-- The number that a literal stands for in comparisons; truth values stand for one and zero. -/
def numberOf? : Json → Option Number
  | .number n => some n
  | .bool b => some (.int (if b then 1 else 0))
  | _ => none

/-- Equality of literals by value. -/
def sameLiteral (a b : Json) : Bool :=
  match numberOf? a, numberOf? b with
  | some m, some n => m.same n
  | none, none => a.same b
  | _, _ => false

/-- Equality with literals compared by value. -/
def same : Expr → Expr → Bool
  | literal a, literal b => sameLiteral a b
  | var a, var b => a == b
  | binary o l r, binary o' l' r' => o == o' && same l l' && same r r'
  | classify m i, classify m' i' => m == m' && same i i'
  | _, _ => false

/-! ## Expressions as trees -/

/-- An expression as a tree. -/
def tree : Expr → Tree
  | literal v => .literal v
  | var name => .var name
  | binary op l r => .binary op l.tree r.tree
  | classify m i => .classify m i.tree

/-- The type of an expression. -/
def type (e : Expr) : ValueType :=
  e.tree.type

/-- The variables that an expression reads, in order and with repetitions. -/
def reads (e : Expr) : List String :=
  e.tree.reads

/-- The classifiers that an expression asks, outer ones first, with repetitions. -/
def models (e : Expr) : List String :=
  e.tree.models

/-- An expression in documents. -/
def toJson (e : Expr) : Json :=
  e.tree.toJson

end Expr

/-- The expression that a tree is. The fault shows the first part, from the left, that stands where
an expression is needed and is none. -/
def Tree.expr? : Tree → Except Fault Expr
  | literal v => .ok (.literal v)
  | var name => .ok (.var name)
  | binary op l r => do
    let l ← l.expr?
    let r ← r.expr?
    return .binary op l r
  | classify m i => do
    let i ← i.expr?
    return .classify m i
  | compare l r s => .error (.notExpression (compare l r s).shown)
  | join k l r => .error (.notExpression (join k l r).shown)
  | contains input piece => .error (.notExpression (contains input piece).shown)

@[simp] theorem Expr.expr?_tree (e : Expr) : e.tree.expr? = .ok e := by
  induction e with
  | literal v => rfl
  | var name => rfl
  | binary op l r ihl ihr =>
    simp [Expr.tree, Tree.expr?, ihl, ihr, bind, Except.bind, pure, Except.pure]
  | classify m i ih => simp [Expr.tree, Tree.expr?, ih, bind, Except.bind, pure, Except.pure]

@[simp] theorem Expr.isCondition_tree (e : Expr) : e.tree.isCondition = false := by
  cases e <;> rfl

end FlowScript
