import FlowScript.Limit
import FlowScript.Text.Quoted
import FlowScript.Text.Utf8

/-!
# Faults

What a caller hands over may be no proper value at all: a tree with an operator that does not
exist, an integer that is too long to be read, a file that is no text. These are faults, and so are
the failures of what is called from outside. They end the operation that meets them, unlike the
problems of command text, which are reported and skipped.
-/
namespace FlowScript

/-- Why an operation cannot be carried out. -/
inductive Fault where
  /-- An integer is written with more digits than are read; the count leaves out the sign. -/
  | tooManyDigits (count : Nat)
  /-- A tree has an arithmetic operator that does not exist. -/
  | unknownArithmetic (op : String)
  /-- A tree has a comparison operator that does not exist. -/
  | unknownComparison (op : String)
  /-- A value, shown as in messages, stands where an expression is needed. -/
  | notExpression (shown : String)
  /-- A value, shown as in messages, stands where a condition is needed. -/
  | notCondition (shown : String)
  /-- A template is expanded that has not been defined. -/
  | noTemplate (name : String)
  /-- What a level of a log is chosen by is no level. -/
  | unknownLevel (choice : String)
  /-- A file is no text. -/
  | notText (fault : Text.Utf8Fault)
  /-- A pattern repeats something more often than can be counted. -/
  | tooManyTurns
  /-- A pattern chooses both the characters of ASCII and all characters. -/
  | bothAlphabets
  /-- What is called from outside fails in a way of its own. -/
  | foreign (kind message : String)
  deriving DecidableEq, Repr, Inhabited

/-- The fault of what is left open: `what` tells what is not described. -/
def Fault.undescribed (what : String) : Fault :=
  .foreign "undescribed" what

/-- The wording of a fault. -/
def Fault.message : Fault → String
  | tooManyDigits count =>
    .join ["Exceeds the limit (", toString maxDigits,
      " digits) for integer string conversion: value has ", toString count,
      " digits; use sys.set_int_max_str_digits() to increase the limit"]
  | unknownArithmetic op => .join ["unknown arithmetic operator: ", Text.quoted op]
  | unknownComparison op => .join ["unknown comparison operator: ", Text.quoted op]
  | notExpression shown => .join ["not an expression: ", shown]
  | notCondition shown => .join ["not a condition: ", shown]
  | noTemplate name => Text.quoted name
  | unknownLevel choice => .join ["Unknown level: ", Text.quoted choice]
  | notText fault => fault.message
  | tooManyTurns => "the repetition number is too large"
  | bothAlphabets => "ASCII and UNICODE flags are incompatible"
  | foreign _ message => message

end FlowScript
