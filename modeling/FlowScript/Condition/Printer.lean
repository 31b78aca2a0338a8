import FlowScript.Condition.Basic
import FlowScript.Expr.Printer

/-!
# Texts of conditions

Every join of conditions is written in parentheses.
-/
namespace FlowScript.Condition

/-- The characters of a condition. -/
def chars : Condition → List Char
  | compare l r s => l.chars ++ ' ' :: r.symbol.toList ++ ' ' :: s.chars
  | join k l r => '(' :: l.chars ++ ' ' :: k.symbol.toList ++ ' ' :: r.chars ++ [')']
  | contains input piece => input.toList ++ " contains ".toList ++ piece.toList

/-- The text of a condition. -/
def text (c : Condition) : String :=
  String.ofList c.chars

end FlowScript.Condition
