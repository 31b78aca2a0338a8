import FlowScript.Expr.Basic

/-!
# Texts of expressions

An operation is written with its operands around its symbol, in parentheses only where they are
needed: around a sum that is an operand of a product, and around a right operand of the same rank.
The input of a classifier is always in parentheses.
-/
namespace FlowScript

namespace Expr

/-- The characters of a literal. Texts are written in quotes, and what is no truth value, number or
text as in messages. -/
def literalChars : Json → List Char
  | .bool b => (if b then "true" else "false").toList
  | .number n => n.text.toList
  | .string s => '\x22' :: s.toList ++ ['\x22']
  | value => value.shown.toList

/-- What stands before the name of a classifier. -/
def question : List Char :=
  ['c', 'l', 'a', 's', 's', 'i', 'f', 'y', ' ']

/-- The characters of a text in parentheses. -/
def parenthesised (cs : List Char) : List Char :=
  '(' :: cs ++ [')']

/-- Whether an expression needs parentheses as the left operand of an operation. -/
def looserThan (op : ArithOp) : Expr → Bool
  | binary inner _ _ => op.isProduct && !inner.isProduct
  | _ => false

/-- Whether an expression needs parentheses as the right operand of an operation. -/
def noTighterThan (op : ArithOp) : Expr → Bool
  | binary inner _ _ => op.isProduct || !inner.isProduct
  | _ => false

/-- The characters of an expression. -/
def chars : Expr → List Char
  | literal v => literalChars v
  | var name => name.toList
  | classify m i => question ++ m.toList ++ ' ' :: parenthesised i.chars
  | binary op l r =>
    (if l.looserThan op then parenthesised l.chars else l.chars) ++
      ' ' :: op.symbol :: ' ' ::
      (if r.noTighterThan op then parenthesised r.chars else r.chars)

/-- The text of an expression. -/
def text (e : Expr) : String :=
  String.ofList e.chars

end Expr
end FlowScript
