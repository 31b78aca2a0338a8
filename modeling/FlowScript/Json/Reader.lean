import FlowScript.Fault
import FlowScript.Json.Basic
import FlowScript.Numeric.Numeral

/-!
# Reading documents

A document is read from its text in one pass. What cannot be read is told as a problem and the
place where it was met; places are counted in characters from the start of the text, and in lines
and columns. Beside the usual numbers, `NaN`, `Infinity` and `-Infinity` are read. A key that is
repeated keeps its first place and its last value. Half of a surrogate pair without the other half
is read as the replacement character.

## Main definitions

* `Json.Problem`, `Json.Flaw`: what is wrong with a text, and where.
* `Json.read`: the document that a text writes.
-/
namespace FlowScript.Json

/-- What is wrong with the text of a document. -/
inductive Problem where
  | noValue
  | noName
  | noColon
  | noComma
  | extraText
  | openString
  | controlCharacter
  | badEscape
  | badUnicodeEscape
  | byteOrderMark
  deriving DecidableEq, Repr, Inhabited

/-- The wording of a problem. -/
def Problem.message : Problem → String
  | noValue => "Expecting value"
  | noName => "Expecting property name enclosed in double quotes"
  | noColon => "Expecting \x27:\x27 delimiter"
  | noComma => "Expecting \x27,\x27 delimiter"
  | extraText => "Extra data"
  | openString => "Unterminated string starting at"
  | controlCharacter => "Invalid control character at"
  | badEscape => "Invalid \\escape"
  | badUnicodeEscape => "Invalid \\uXXXX escape"
  | byteOrderMark => "Unexpected UTF-8 BOM (decode using utf-8-sig)"

/-- A problem and its place, as the number of characters before it. -/
structure Flaw where
  problem : Problem
  position : Nat
  deriving DecidableEq, Repr, Inhabited

/-- The wording of a flaw in a text, with the line and the column of its place. -/
def Flaw.message (flaw : Flaw) (text : List Char) : String :=
  let before := text.take flaw.position
  let line := before.count '\n' + 1
  let column := (before.reverse.takeWhile (· ≠ '\n')).length + 1
  .join [flaw.problem.message, ": line ", toString line, " column ", toString column, " (char ",
    toString flaw.position, ")"]

/-- Why reading stops: a problem, with the number of characters from its place to the end of the
text, or a fault. -/
inductive Stop where
  | problem (p : Problem) (left : Nat)
  | fault (f : Fault)
  deriving DecidableEq, Repr, Inhabited

/-- A reader of the start of a text: what it read and what follows. -/
abbrev Reader (α : Type) := List Char → Except Stop (α × List Char)

/-- The blanks between the parts of a document. -/
def isGap (c : Char) : Bool :=
  c == ' ' || c == '\t' || c == '\n' || c == '\r'

/-- The text after blanks. -/
def skipGap (cs : List Char) : List Char :=
  cs.dropWhile isGap

/-! ## Texts -/

/-- The value of a hexadecimal digit. -/
def hexDigit? (c : Char) : Option Nat :=
  let n := c.toNat
  if c.isDigit then some (n - 0x30)
  else if 0x61 ≤ n ∧ n ≤ 0x66 then some (n - 0x57)
  else if 0x41 ≤ n ∧ n ≤ 0x46 then some (n - 0x37)
  else none

/-- The value of four hexadecimal digits. -/
def hexFour? (cs : List Char) : Option Nat :=
  if cs.length = 4 then
    cs.foldlM (fun acc c => (hexDigit? c).map (16 * acc + ·)) 0
  else none

/-- The character with a code point; half of a surrogate pair is the replacement character. -/
def charOf (n : Nat) : Char :=
  if 0xD800 ≤ n ∧ n < 0xE000 then '\uFFFD' else Char.ofNat n

/-- The second half of a surrogate pair, if an escape for it follows. At least one character must
follow the escape for it to be looked at. -/
def secondHalf? (cs : List Char) : Except Stop (Option Nat) :=
  match cs with
  | '\\' :: 'u' :: more =>
    if 4 < more.length then
      match hexFour? (more.take 4) with
      | none => .error (.problem .badUnicodeEscape (more.length + 1))
      | some n => .ok (if 0xDC00 ≤ n ∧ n < 0xE000 then some n else none)
    else .ok none
  | _ => .ok none

/-- The character of an escape by code point, read after its letter. -/
def unicodeEscape : Reader Char := fun cs =>
  let bad := .error (.problem .badUnicodeEscape (cs.length + 1))
  if cs.length ≤ 4 then bad
  else match hexFour? (cs.take 4) with
    | none => bad
    | some n =>
      let more := cs.drop 4
      if 0xD800 ≤ n ∧ n < 0xDC00 then do
        match ← secondHalf? more with
        | some m =>
          return (Char.ofNat (0x10000 + (n - 0xD800) * 0x400 + (m - 0xDC00)), more.drop 6)
        | none => return (charOf n, more)
      else .ok (charOf n, more)

/-- The character of an escape by letter. -/
def letterEscape? : Char → Option Char
  | '\x22' => some '\x22'
  | '\\' => some '\\'
  | '/' => some '/'
  | 'b' => some '\x08'
  | 'f' => some '\x0C'
  | 'n' => some '\n'
  | 'r' => some '\r'
  | 't' => some '\t'
  | _ => none

/-- The rest of a text after its opening quote, behind the characters already read (latest first).
The allowance bounds the number of characters; `start` is what is left from the opening quote. -/
def stringFrom (start : Nat) : Nat → List Char → Reader String
  | 0, _, _ => .error (.problem .openString start)
  | _, _, [] => .error (.problem .openString start)
  | allowance + 1, read, c :: cs =>
    if c = '\x22' then .ok (String.ofList read.reverse, cs)
    else if c = '\\' then
      match cs with
      | [] => .error (.problem .openString start)
      | 'u' :: more => do
        let (d, after) ← unicodeEscape more
        stringFrom start allowance (d :: read) after
      | letter :: more =>
        match letterEscape? letter with
        | some d => stringFrom start allowance (d :: read) more
        | none => .error (.problem .badEscape (cs.length + 1))
    else if c.toNat < 0x20 then .error (.problem .controlCharacter (cs.length + 1))
    else stringFrom start allowance (c :: read) cs

/-- A text, read after its opening quote. -/
def stringAfter : Reader String := fun cs =>
  stringFrom (cs.length + 1) (cs.length + 1) [] cs

/-! ## Numbers -/

/-- The point and the digits after it, if there are any. -/
def fractionAt (cs : List Char) : Option (List Char) × List Char :=
  match cs with
  | '.' :: more =>
    let digits := more.takeWhile Char.isDigit
    if digits.isEmpty then (none, cs) else (some digits, more.dropWhile Char.isDigit)
  | _ => (none, cs)

/-- The exponent, if there is one with digits. -/
def exponentAt (cs : List Char) : Option (Bool × List Char) × List Char :=
  match cs with
  | c :: more =>
    if c = 'e' ∨ c = 'E' then
      let (negative, after) := Numeral.sign more
      let digits := after.takeWhile Char.isDigit
      if digits.isEmpty then (none, cs)
      else (some (negative, digits), after.dropWhile Char.isDigit)
    else (none, cs)
  | [] => (none, cs)

/-- A numeral: digits without leading zeros, a fraction and an exponent. -/
def numeralAt? (cs : List Char) : Option (Numeral × List Char) :=
  let (negative, unsigned) := match cs with
    | '-' :: more => (true, more)
    | _ => (false, cs)
  let whole := match unsigned with
    | '0' :: _ => ['0']
    | _ => unsigned.takeWhile Char.isDigit
  if whole.isEmpty then none
  else
    let (fraction, after) := fractionAt (unsigned.drop whole.length)
    let (exponent, after) := exponentAt after
    some (⟨negative, whole, fraction, exponent⟩, after)

/-- The words that stand for values. -/
def words : List (List Char × Json) :=
  [("null".toList, null), ("true".toList, bool true), ("false".toList, bool false),
   ("NaN".toList, number (.double .nan)),
   ("Infinity".toList, number (.double (.infinite false))),
   ("-Infinity".toList, number (.double (.infinite true)))]

/-- A word or a number. -/
def scalarAt : Reader Json := fun cs =>
  match words.find? (fun w => w.1.isPrefixOf cs) with
  | some (w, j) => .ok (j, cs.drop w.length)
  | none =>
    match numeralAt? cs with
    | none => .error (.problem .noValue cs.length)
    | some (n, after) =>
      match n.value with
      | .ok x => .ok (number x, after)
      | .error f => .error (.fault f)

/-! ## Values -/

/-- The items of an array from the start of one of them, behind those already read (latest first).
The allowance bounds the number of items. -/
def itemsFrom (value : Reader Json) : Nat → List Json → Reader Json
  | 0, _, cs => .error (.problem .noValue cs.length)
  | allowance + 1, read, cs => do
    let (item, after) ← value cs
    match skipGap after with
    | ']' :: rest => return (array (item :: read).reverse, rest)
    | ',' :: rest => itemsFrom value allowance (item :: read) (skipGap rest)
    | rest => .error (.problem .noComma rest.length)

/-- The members of an object from the start of a key, after those already read. The allowance
bounds the number of members. -/
def membersFrom (value : Reader Json) : Nat → Members → Reader Json
  | 0, _, cs => .error (.problem .noName cs.length)
  | allowance + 1, read, cs =>
    match cs with
    | '\x22' :: named => do
      let (key, after) ← stringAfter named
      match skipGap after with
      | ':' :: rest => do
        let (v, after) ← value (skipGap rest)
        let read := setMember key v read
        match skipGap after with
        | '\x7d' :: rest => return (object read, rest)
        | ',' :: rest => membersFrom value allowance read (skipGap rest)
        | rest => .error (.problem .noComma rest.length)
      | rest => .error (.problem .noColon rest.length)
    | _ => .error (.problem .noName cs.length)

/-- A value. The allowance bounds how many arrays and objects lie inside each other. -/
def valueWithin : Nat → Reader Json
  | 0, cs => .error (.problem .noValue cs.length)
  | allowance + 1, cs =>
    match cs with
    | '\x22' :: more => do
      let (s, after) ← stringAfter more
      return (string s, after)
    | '[' :: more =>
      match skipGap more with
      | ']' :: rest => .ok (array [], rest)
      | rest => itemsFrom (valueWithin allowance) (rest.length + 1) [] rest
    | '\x7b' :: more =>
      match skipGap more with
      | '\x7d' :: rest => .ok (object [], rest)
      | rest => membersFrom (valueWithin allowance) (rest.length + 1) [] rest
    | _ => scalarAt cs

/-- A value followed by nothing but blanks. -/
def wholeText (cs : List Char) : Except Stop Json := do
  let (j, after) ← valueWithin (cs.length + 1) (skipGap cs)
  match skipGap after with
  | [] => return j
  | rest => .error (.problem .extraText rest.length)

/-- Why a text is no document. -/
inductive Unread where
  | flaw (f : Flaw)
  | fault (f : Fault)
  deriving DecidableEq, Repr, Inhabited

/-- The document that a text writes. -/
def read (cs : List Char) : Except Unread Json :=
  if cs.head? = some '\uFEFF' then .error (.flaw ⟨.byteOrderMark, 0⟩)
  else match wholeText cs with
    | .ok j => .ok j
    | .error (.problem p left) => .error (.flaw ⟨p, cs.length - left⟩)
    | .error (.fault f) => .error (.fault f)

end FlowScript.Json
