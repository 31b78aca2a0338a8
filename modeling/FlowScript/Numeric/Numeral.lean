import FlowScript.Fault
import FlowScript.Numeric.Number
import FlowScript.Text.Blank
import FlowScript.Text.Digit

/-!
# Reading numerals

A numeral is an optional sign, digits of any script with an optional point before, among or after
them, and an optional exponent. Without point and exponent it is an integer, which has at most
`maxDigits` digits; otherwise it is the nearest double, however many digits it has.

## Main definitions

* `Numeral`: the parts of a numeral.
* `Numeral.read?`: the parts of a text that is a numeral.
* `Numeral.value`: the number that a numeral denotes.
* `number?`: the number that a text denotes, if it is a numeral between blanks.
-/
namespace FlowScript

/-- The parts of a numeral: digits before the point, digits after it if there is one, and the
exponent with its sign if there is one. -/
structure Numeral where
  negative : Bool
  whole : List Char
  fraction : Option (List Char)
  exponent : Option (Bool × List Char)
  deriving DecidableEq, Repr

/-- The integer that a run of digits writes, if it is not too long. -/
def wholeNumber (digits : List Char) : Except Fault Nat :=
  if maxDigits < digits.length then .error (.tooManyDigits digits.length)
  else .ok (Text.digitsValue digits)

namespace Numeral

/-- An optional sign in front: whether it is a minus sign, and what follows. -/
def sign : List Char → Bool × List Char
  | '-' :: cs => (true, cs)
  | '+' :: cs => (false, cs)
  | cs => (false, cs)

/-- The text's end, or an exponent that reaches to it. -/
def exponent? : List Char → Option (Option (Bool × List Char))
  | [] => some none
  | c :: cs =>
    let (negative, digits) := sign cs
    if (c = 'e' ∨ c = 'E') ∧ Text.isDigitRun digits then some (some (negative, digits)) else none

/-- The parts of a text that is a numeral. -/
def read? (cs : List Char) : Option Numeral :=
  let (negative, cs) := sign cs
  let whole := cs.takeWhile Text.isDigit
  let (fraction, after) := match cs.dropWhile Text.isDigit with
    | '.' :: more => (some (more.takeWhile Text.isDigit), more.dropWhile Text.isDigit)
    | after => (none, after)
  if whole.isEmpty && (fraction.getD []).isEmpty then none
  else (exponent? after).map fun exponent => ⟨negative, whole, fraction, exponent⟩

/-- The double that a numeral with a point or an exponent denotes. -/
def double (n : Numeral) : Double :=
  let fraction := n.fraction.getD []
  let power : Int := match n.exponent with
    | none => 0
    | some (negative, digits) =>
      let size : Int := Text.digitsValue digits
      if negative then -size else size
  Double.ofDecimal n.negative (Text.digitsValue (n.whole ++ fraction)) (power - fraction.length)

/-- The number that a numeral denotes. -/
def value (n : Numeral) : Except Fault Number :=
  match n.fraction, n.exponent with
  | none, none => do
    let size ← wholeNumber n.whole
    return .int (if n.negative then -(size : Int) else size)
  | _, _ => .ok (.double n.double)

end Numeral

/-- Whether a text is digits with an optional fraction. -/
def isDecimal (cs : List Char) : Bool :=
  match cs.dropWhile Text.isDigit with
  | [] => !cs.isEmpty
  | '.' :: fraction => Text.isDigit (cs.headD '.') && Text.isDigitRun fraction
  | _ => false

/-- The number that a text denotes, if it is a numeral between blanks. -/
def number? (cs : List Char) : Except Fault (Option Number) :=
  match Numeral.read? (Text.trim cs) with
  | none => .ok none
  | some n => n.value.map some

end FlowScript
