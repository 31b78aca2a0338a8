import FlowScript.Condition.Printer

/-!
# Values

What a step assigns or returns is an expression or a condition. The type of a value follows from
its form alone.

## Main definitions

* `Value`: expressions and conditions.
* `Value.tree`, `Tree.value?`: values as trees, and the value that a tree is.
* `Tree.text`: the text of any tree.
-/
namespace FlowScript

/-- An expression or a condition. -/
inductive Value where
  | expr (e : Expr)
  | cond (c : Condition)
  deriving DecidableEq, Repr, Inhabited

namespace Value

/-- The text of a value. -/
def text : Value → String
  | expr e => e.text
  | cond c => c.text

/-- A value as a tree. -/
def tree : Value → Tree
  | expr e => e.tree
  | cond c => c.tree

/-- Whether a value is a condition. -/
def isCondition (v : Value) : Bool :=
  v.tree.isCondition

/-- The type of a value. -/
def type (v : Value) : ValueType :=
  v.tree.type

/-- The variables that a value reads, in order and with repetitions. -/
def reads (v : Value) : List String :=
  v.tree.reads

/-- The classifiers that a value asks, outer ones first, with repetitions. -/
def models (v : Value) : List String :=
  v.tree.models

/-- A value in documents. -/
def toJson (v : Value) : Json :=
  v.tree.toJson

end Value

namespace Tree

/-- The value that a tree is. The root decides whether it must be a condition. -/
def value? (t : Tree) : Except Fault Value :=
  if t.isCondition then t.condition?.map .cond else t.expr?.map .expr

/-- The text of the expression that a tree is; a tree that is none is shown as in messages. -/
def text (t : Tree) : String :=
  match t.expr? with
  | .ok e => e.text
  | .error _ => t.shown

end Tree

@[simp] theorem Expr.text_tree (e : Expr) : e.tree.text = e.text := by
  simp [Tree.text]

@[simp] theorem Value.value?_tree (v : Value) : v.tree.value? = .ok v := by
  cases v <;> simp [Value.tree, Tree.value?, Except.map]

end FlowScript
