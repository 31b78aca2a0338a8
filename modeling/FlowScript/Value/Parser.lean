import FlowScript.Condition.Parser
import FlowScript.Expr.Parser
import FlowScript.Value.Basic

/-!
# Reading values

A value is read from free text. What is quoted is text, whatever it holds; a lone numeral is a
number; text that is arithmetic as a whole is arithmetic; a lone word is a variable; and all other
text stands for itself. A value may also ask a classifier, or be a condition with a connective.
-/
namespace FlowScript

open Text

/-- The expression that a text stands for. -/
def Expr.read (cs : List Char) : Except Fault Expr := do
  let cs := trim cs
  match unquote? cs with
  | some inside => return .ofText (String.ofList inside)
  | none =>
    match ← number? cs with
    | some n => return .ofNumber n
    | none =>
      match ← Expr.parse cs with
      | some e => return e
      | none =>
        if isWordRun cs then return .var (String.ofList cs)
        else return .ofText (String.ofList cs)

namespace Value

/-- A classifier that is asked, and the text of what it is asked about. -/
def question? : Scan (List Char × List Char) :=
  let asked := Scan.gap (Scan.word fun model => Scan.gap (Scan.rest fun input => (model, input)))
  Scan.either (Scan.keyword "predict" asked) (Scan.keyword "classify" asked)

/-- Whether a text holds a character twice in a row. -/
def hasPair (c : Char) : List Char → Bool
  | a :: b :: cs => (a == c && b == c) || hasPair c (b :: cs)
  | _ => false

/-- Whether a text is read as a condition: it holds a connective and is not quoted. -/
def isConditional (cs : List Char) : Bool :=
  (unquote? cs).isNone && (hasPair '&' cs || hasPair '|' cs)

/-- The value that a text stands for. -/
def read (cs : List Char) : Except Fault Value := do
  let cs := trim cs
  match question? cs with
  | some (model, input) => return .expr (.classify (String.ofList model) (← Expr.read input))
  | none =>
    if isConditional cs then return .cond (← Condition.parse cs)
    else return .expr (← Expr.read cs)

end Value
end FlowScript
