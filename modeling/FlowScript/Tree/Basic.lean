import FlowScript.Json.Printer
import FlowScript.Operator

/-!
# Trees

What a workflow computes and decides is handed over and written down as trees. A tree does not say
what may stand where: a comparison may be an operand of a sum, and a literal one side of a join. The
trees that make sense are the expressions (`Expr`) and the conditions (`Condition`).

## Main definitions

* `Tree`: trees of literals, variables, operations, classifiers, comparisons, joins, and questions
  what a variable contains.
* `Tree.toJson`: trees in documents.
* `Tree.shown`: trees in messages.
* `Tree.reads`, `Tree.models`: the variables and the classifiers that occur in a tree.
* `ValueType`, `Tree.type`: the type of what a tree stands for, which follows from its root alone.
-/
namespace FlowScript

/-- A tree. -/
inductive Tree where
  /-- A value that is written down. -/
  | literal (value : Json)
  /-- A variable. -/
  | var (name : String)
  /-- An arithmetic operation. -/
  | binary (op : ArithOp) (left right : Tree)
  /-- The answer of a classifier. -/
  | classify (model : String) (input : Tree)
  /-- A comparison. -/
  | compare (left : Tree) (relation : Relation) (right : Tree)
  /-- Two parts that are joined by a connective. -/
  | join (connective : Connective) (left right : Tree)
  /-- The question whether a variable contains a piece of text. -/
  | contains (input piece : String)
  deriving DecidableEq, Repr, Inhabited

/-- The types of values. -/
inductive ValueType where
  | number
  | boolean
  | string
  | tensor
  deriving DecidableEq, Repr, Inhabited

/-- The name of a type. -/
def ValueType.name : ValueType → String
  | number => "number"
  | boolean => "boolean"
  | string => "string"
  | tensor => "tensor"

/-- The type of a literal; what is no number and no truth value counts as text. -/
def Json.valueType : Json → ValueType
  | number _ => .number
  | bool _ => .boolean
  | _ => .string

namespace Tree

/-- Whether a tree has the root of a condition. -/
def isCondition : Tree → Bool
  | compare _ _ _ => true
  | join _ _ _ => true
  | contains _ _ => true
  | _ => false

/-- The type of what a tree stands for: arithmetic gives numbers, conditions give truth values and
classifiers give tensors; what a variable holds counts as text. -/
def type : Tree → ValueType
  | literal value => value.valueType
  | var _ => .string
  | binary _ _ _ => .number
  | classify _ _ => .tensor
  | compare _ _ _ => .boolean
  | join _ _ _ => .boolean
  | contains _ _ => .boolean

/-- The variables that a tree reads, in order and with repetitions. -/
def reads : Tree → List String
  | literal _ => []
  | var name => [name]
  | binary _ l r => l.reads ++ r.reads
  | classify _ i => i.reads
  | compare l _ r => l.reads ++ r.reads
  | join _ l r => l.reads ++ r.reads
  | contains input _ => [input]

/-- The classifiers that a tree asks, outer ones first, with repetitions. -/
def models : Tree → List String
  | literal _ => []
  | var _ => []
  | binary _ l r => l.models ++ r.models
  | classify m i => m :: i.models
  | compare l _ r => l.models ++ r.models
  | join _ l r => l.models ++ r.models
  | contains _ _ => []

/-! ## Trees in documents -/

/-- Whether a character has a meaning of its own in patterns. -/
def isSpecial (c : Char) : Bool :=
  "()[]\x7b\x7d?*+-|^$\\.&~# \t\n\r\x0b\x0c".toList.contains c

/-- The pattern of the texts that contain a piece of text. -/
def pattern (piece : String) : String :=
  let escaped := piece.toList.flatMap fun c => if isSpecial c then ['\\', c] else [c]
  .join [".*", String.ofList escaped, ".*"]

/-- A tree in documents. A piece of text stands there as the pattern of what contains it. -/
def toJson : Tree → Json
  | literal v => .object [("type", .string "Literal"), ("value", v)]
  | var name => .object [("type", .string "VariableRef"), ("name", .string name)]
  | binary op l r =>
    .object [("type", .string "BinaryOp"), ("op", .string op.name), ("left", l.toJson),
      ("right", r.toJson)]
  | classify m i =>
    .object [("type", .string "Classify"), ("model", .string m), ("input", i.toJson)]
  | compare l r s =>
    .object [("type", .string "Compare"), ("left", l.toJson), ("op", .string r.symbol),
      ("right", s.toJson)]
  | join k l r =>
    .object [("type", .string k.name), ("left", l.toJson), ("right", r.toJson)]
  | contains input piece =>
    .object [("type", .string "RegexContains"), ("input", .string input),
      ("pattern", .string (pattern piece))]

/-! ## Trees in messages -/

/-- The name of a node with its parts, each after its own name. -/
def shownNode (name : String) (parts : List (String × String)) : String :=
  let written := parts.map fun (key, part) => String.join [key, "=", part]
  .join [name, "(", ", ".intercalate written, ")"]

/-- The text of a tree in messages. -/
def shown : Tree → String
  | literal v => shownNode "Literal" [("value", v.shown)]
  | var name => shownNode "VariableRef" [("name", Text.quoted name)]
  | binary op l r =>
    shownNode "BinaryOp" [("op", Text.quoted op.name), ("left", l.shown), ("right", r.shown)]
  | classify m i => shownNode "Classify" [("model", Text.quoted m), ("input", i.shown)]
  | compare l r s =>
    shownNode "Compare" [("left", l.shown), ("op", Text.quoted r.symbol), ("right", s.shown)]
  | join k l r => shownNode k.name [("left", l.shown), ("right", r.shown)]
  | contains input piece =>
    shownNode "RegexContains" [("input", Text.quoted input), ("literal", Text.quoted piece)]

end Tree
end FlowScript
