import FlowScript.Numeric.Numeral
import FlowScript.Operator
import FlowScript.Text.Word

/-!
# Tokens of expressions

Expression text is cut into numbers, words, operators and parentheses; every other character is
passed over. A number is the longest run of digits, with a fraction if it has one, that no letter,
digit or underscore of ASCII follows; a word is a run of these. The digits of a number may be of
any script.

## Main definitions

* `Token`: the tokens, and `Token.text`, how each is written.
* `Token.cleaned`: expression text without the brackets that are dropped first.
* `Token.scan`: the tokens of a text.
-/
namespace FlowScript

/-- A token of an expression. -/
inductive Token where
  | number (whole : List Char) (fraction : Option (List Char))
  | word (name : List Char)
  | operator (op : ArithOp)
  | leftParen
  | rightParen
  deriving DecidableEq, Repr, Inhabited

namespace Token

/-- The characters of a token. -/
def chars : Token → List Char
  | number whole none => whole
  | number whole (some fraction) => whole ++ '.' :: fraction
  | word name => name
  | operator op => [op.symbol]
  | leftParen => ['(']
  | rightParen => [')']

/-- How a token is written. -/
def text (t : Token) : String :=
  String.ofList t.chars

/-- Whether a token is a number. -/
def isNumber : Token → Bool
  | number _ _ => true
  | _ => false

/-- Whether a text starts with a letter, digit or underscore of ASCII. -/
def startsWord : List Char → Bool
  | [] => false
  | c :: _ => Text.isAsciiWord c

/-- The length of the longest part of a run, from its start, that no ASCII word character follows;
zero if there is none. -/
def cleanCut (after : List Char) : List Char → Nat
  | [] => 0
  | _ :: run =>
    match cleanCut after run with
    | 0 => if startsWord (if run.isEmpty then after else run) then 0 else 1
    | n + 1 => n + 2

/-- The number at the start of a text. -/
def numberAt? (cs : List Char) : Option Token :=
  let run := cs.takeWhile Text.isDigit
  let after := cs.dropWhile Text.isDigit
  let whole := cleanCut after run
  let decimals := match after with
    | '.' :: more =>
      more.take (cleanCut (more.dropWhile Text.isDigit) (more.takeWhile Text.isDigit))
    | _ => []
  if run.isEmpty then none
  else if !decimals.isEmpty then some (number run (some decimals))
  else if whole = 0 then none
  else some (number (run.take whole) none)

/-- The token at the start of a text. -/
def at? (cs : List Char) : Option Token :=
  match numberAt? cs with
  | some t => some t
  | none =>
    match cs with
    | [] => none
    | c :: _ =>
      if Text.isAsciiWord c then some (word (cs.takeWhile Text.isAsciiWord))
      else if c = '(' then some leftParen
      else if c = ')' then some rightParen
      else (ArithOp.ofSymbol? c).map operator

/-- The tokens of a text after some characters that belong to the token before. -/
def scanAfter : Nat → List Char → List Token
  | _, [] => []
  | skipped + 1, _ :: cs => scanAfter skipped cs
  | 0, c :: cs =>
    match at? (c :: cs) with
    | some t => t :: scanAfter (t.chars.length - 1) cs
    | none => scanAfter 0 cs

/-- Brackets that are dropped from expression text. -/
def isDropped (c : Char) : Bool :=
  c == '<' || c == '>' || c == '\x7b' || c == '\x7d'

/-- Expression text without the brackets that are dropped and without blanks at its ends. -/
def cleaned (cs : List Char) : List Char :=
  Text.trim (cs.filter (!isDropped ·))

/-- The tokens of a text. -/
def scan (cs : List Char) : List Token :=
  scanAfter 0 (cleaned cs)

/-- Whether a text, up to one final line feed, is a number as tokens have it. -/
def isNumberText (cs : List Char) : Bool :=
  isDecimal (if cs.getLast? = some '\n' then cs.dropLast else cs)

end Token
end FlowScript
