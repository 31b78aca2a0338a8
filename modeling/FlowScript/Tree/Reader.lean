import FlowScript.Value.Basic

/-!
# Reading trees

Trees are given in documents, in the form in which they are written there; only a question what a
variable contains is given by the piece of text, as `literal`, and not by its pattern. An operator
that does not exist is a fault, and it is met after the faults of the operands.

## Main definitions

* `Tree.ofJson`: the tree that a document holds, if it is one.
* `Expr.ofJson`, `Condition.ofJson`: the expression and the condition that a document holds.
* `Tree.isConditionJson`, `ValueType.ofJson`: what can be said of any document by its root.
-/
namespace FlowScript

namespace Tree

/-- What has been read of a member, if there is such a member. -/
def part (key : String) (parts : List (String × Except Fault (Option Tree))) :
    Except Fault (Option Tree) :=
  match parts.find? (·.1 == key) with
  | some (_, part) => part
  | none => .ok none

/-- A node with two operands, the left one read before the right one. -/
def pair (make : Tree → Tree → Except Fault Tree)
    (parts : List (String × Except Fault (Option Tree))) : Except Fault (Option Tree) := do
  let left ← part "left" parts
  let right ← part "right" parts
  match left, right with
  | some left, some right => (make left right).map some
  | _, _ => return none

/-- The tree with a root given by its members, and the parts that have been read of them. -/
def node (root : Json) (parts : List (String × Except Fault (Option Tree))) :
    Except Fault (Option Tree) :=
  let text key := (root.textOf? key).getD ""
  match root.textOf? "type" with
  | some "Literal" => .ok ((root.member? "value").map literal)
  | some "VariableRef" => .ok (some (var (text "name")))
  | some "BinaryOp" =>
    pair (fun left right => return binary (← ArithOp.named (text "op")) left right) parts
  | some "Classify" => do
    return (← part "input" parts).map (classify (text "model"))
  | some "Compare" =>
    pair (fun left right => return compare left (← Relation.named (text "op")) right) parts
  | some "And" => pair (fun left right => .ok (join .and left right)) parts
  | some "Or" => pair (fun left right => .ok (join .or left right)) parts
  | some "RegexContains" => .ok (some (contains (text "input") (text "literal")))
  | _ => .ok none

mutual

/-- The tree that a document holds, if it is one. -/
def ofJson : Json → Except Fault (Option Tree)
  | .object ms => node (.object ms) (ofMembers ms)
  | _ => .ok none
termination_by structural j => j

/-- The trees that the members of a document hold. -/
def ofMembers : Json.Members → List (String × Except Fault (Option Tree))
  | [] => []
  | (k, v) :: ms => (k, ofJson v) :: ofMembers ms
termination_by structural ms => ms

end

end Tree

/-- The expression that a document holds. What is no tree is shown in the fault. -/
def Expr.ofJson (j : Json) : Except Fault Expr := do
  match ← Tree.ofJson j with
  | some t => t.expr?
  | none => throw (.notExpression j.shown)

/-- The condition that a document holds. What is no tree is shown in the fault. -/
def Condition.ofJson (j : Json) : Except Fault Condition := do
  match ← Tree.ofJson j with
  | some t => t.condition?
  | none => throw (.notCondition j.shown)

/-- Whether a document holds a tree with the root of a condition. -/
def Tree.isConditionJson (j : Json) : Bool :=
  match Tree.ofJson j with
  | .ok (some t) => t.isCondition
  | _ => false

/-- The type of what a document holds; what is no tree counts as text. -/
def ValueType.ofJson (j : Json) : ValueType :=
  match Tree.ofJson j with
  | .ok (some t) => t.type
  | _ => .string

end FlowScript
