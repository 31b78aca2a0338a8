import FlowScript.Expr.Basic

/-!
# Conditions

A condition compares two expressions, joins two conditions, or asks whether a variable's text
contains a piece of text.

## Main definitions

* `Condition`: the conditions.
* `Condition.never`: the condition that never holds, which stands for text that is none.
* `Condition.tree`, `Tree.condition?`: conditions as trees, and the condition that a tree is.
* `Condition.same`: equality in which literals are compared by value.
-/
namespace FlowScript

/-- A condition. -/
inductive Condition where
  | compare (left : Expr) (relation : Relation) (right : Expr)
  | join (connective : Connective) (left right : Condition)
  | contains (input piece : String)
  deriving DecidableEq, Repr, Inhabited

namespace Condition

/-- The condition that never holds: false is true. -/
def never : Condition :=
  compare (.ofBool false) .identical (.ofBool true)

/-- The condition that a variable is true. -/
def holds (name : String) : Condition :=
  compare (.var name) .identical (.ofBool true)

/-- Equality with literals compared by value. -/
def same : Condition → Condition → Bool
  | compare l r s, compare l' r' s' => l.same l' && r == r' && s.same s'
  | join k l r, join k' l' r' => k == k' && same l l' && same r r'
  | contains i p, contains i' p' => i == i' && p == p'
  | _, _ => false

/-! ## Conditions as trees -/

/-- A condition as a tree. -/
def tree : Condition → Tree
  | compare l r s => .compare l.tree r s.tree
  | join k l r => .join k l.tree r.tree
  | contains input piece => .contains input piece

/-- The variables that a condition reads, in order and with repetitions. -/
def reads (c : Condition) : List String :=
  c.tree.reads

/-- The classifiers that a condition asks, with repetitions. -/
def models (c : Condition) : List String :=
  c.tree.models

/-- A condition in documents. -/
def toJson (c : Condition) : Json :=
  c.tree.toJson

end Condition

/-- The condition that a tree is. The fault shows the first part, from the left, that stands where
an expression or a condition is needed and is none. -/
def Tree.condition? : Tree → Except Fault Condition
  | compare l r s => do
    let l ← l.expr?
    let s ← s.expr?
    return .compare l r s
  | join k l r => do
    let l ← l.condition?
    let r ← r.condition?
    return .join k l r
  | contains input piece => .ok (.contains input piece)
  | literal v => .error (.notCondition (literal v).shown)
  | var name => .error (.notCondition (var name).shown)
  | binary op l r => .error (.notCondition (binary op l r).shown)
  | classify m i => .error (.notCondition (classify m i).shown)

@[simp] theorem Condition.condition?_tree (c : Condition) : c.tree.condition? = .ok c := by
  induction c with
  | compare l r s =>
    simp [Condition.tree, Tree.condition?, bind, Except.bind, pure, Except.pure]
  | join k l r ihl ihr =>
    simp [Condition.tree, Tree.condition?, ihl, ihr, bind, Except.bind, pure, Except.pure]
  | contains input piece => rfl

@[simp] theorem Condition.isCondition_tree (c : Condition) : c.tree.isCondition = true := by
  cases c <;> rfl

end FlowScript
