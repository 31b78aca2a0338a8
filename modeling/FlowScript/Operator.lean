import FlowScript.Fault

/-!
# Operators

Operands are combined by arithmetic operations, compared by relations, and comparisons are joined by
connectives. Every operator has a name or a symbol by which documents hold it.

## Main definitions

* `ArithOp`: the four operations, with their names and symbols.
* `Relation`: the comparisons, with their symbols; `Relation.all` has the longer symbols first.
* `Connective`: how two conditions are joined.
-/
namespace FlowScript

/-- The arithmetic operations. -/
inductive ArithOp where
  | add
  | subtract
  | multiply
  | divide
  deriving DecidableEq, Repr, Inhabited

namespace ArithOp

/-- All operations. -/
def all : List ArithOp := [add, subtract, multiply, divide]

/-- The name of an operation in documents. -/
def name : ArithOp → String
  | add => "add"
  | subtract => "subtract"
  | multiply => "multiply"
  | divide => "divide"

/-- The symbol of an operation. -/
def symbol : ArithOp → Char
  | add => '+'
  | subtract => '-'
  | multiply => '*'
  | divide => '/'

/-- Products bind their operands before sums do. -/
def isProduct : ArithOp → Bool
  | multiply => true
  | divide => true
  | add => false
  | subtract => false

/-- The operation with a name. -/
def named (name : String) : Except Fault ArithOp :=
  match all.find? (·.name == name) with
  | some op => .ok op
  | none => .error (.unknownArithmetic name)

/-- The operation with a symbol. -/
def ofSymbol? (c : Char) : Option ArithOp :=
  all.find? (·.symbol == c)

@[simp] theorem named_name (op : ArithOp) : named op.name = .ok op := by
  cases op <;> rfl

@[simp] theorem ofSymbol?_symbol (op : ArithOp) : ofSymbol? op.symbol = some op := by
  cases op <;> rfl

end ArithOp

/-- How two values are compared; identity does not convert between kinds of values. -/
inductive Relation where
  | atLeast
  | atMost
  | identical
  | notIdentical
  | equal
  | notEqual
  | greater
  | less
  deriving DecidableEq, Repr, Inhabited

namespace Relation

/-- All relations, in the order in which their symbols are tried. -/
def all : List Relation :=
  [atLeast, atMost, identical, notIdentical, equal, notEqual, greater, less]

/-- The symbol of a relation. -/
def symbol : Relation → String
  | atLeast => ">="
  | atMost => "<="
  | identical => "==="
  | notIdentical => "!=="
  | equal => "=="
  | notEqual => "!="
  | greater => ">"
  | less => "<"

/-- The relation with a symbol. -/
def named (symbol : String) : Except Fault Relation :=
  match all.find? (·.symbol == symbol) with
  | some r => .ok r
  | none => .error (.unknownComparison symbol)

@[simp] theorem named_symbol (r : Relation) : named r.symbol = .ok r := by
  cases r <;> rfl

theorem mem_all (r : Relation) : r ∈ all := by
  cases r <;> decide

end Relation

/-- How two conditions are joined. -/
inductive Connective where
  | and
  | or
  deriving DecidableEq, Repr, Inhabited

namespace Connective

/-- The symbol of a connective. -/
def symbol : Connective → String
  | and => "&&"
  | or => "||"

/-- The name of a connective in documents. -/
def name : Connective → String
  | and => "And"
  | or => "Or"

end Connective

end FlowScript
