/-!
# Text from bytes

Files are read as UTF-8. Where the bytes are no text, the fault names the first place that cannot
be read: a byte that starts no character, a character cut off by the end of the file, or a
character whose later bytes do not continue it. Overlong forms, surrogates and numbers beyond the
last code point are faults of the first kind or of the last.
-/
namespace FlowScript.Text

/-- Why some bytes cannot be read as text. -/
inductive Utf8Fault where
  /-- A byte at a position starts no character. -/
  | start (byte position : Nat)
  /-- The bytes from one position to the end, exclusive, are the start of a character. -/
  | cut (byte position stop : Nat)
  /-- The bytes from one position to another, exclusive, are not continued as a character. -/
  | broken (byte position stop : Nat)
  deriving DecidableEq, Repr, Inhabited

/-- Whether a byte continues a character. -/
def isContinuation (b : Nat) : Bool :=
  0x80 ≤ b && b < 0xC0

/-- How many bytes a character has that starts with the given byte. -/
def leadLength? (b : Nat) : Option Nat :=
  if b < 0x80 then some 1
  else if b < 0xC2 then none
  else if b < 0xE0 then some 2
  else if b < 0xF0 then some 3
  else if b < 0xF5 then some 4
  else none

/-- Whether the second byte of a character can follow the first. -/
def isSecond (lead b : Nat) : Bool :=
  isContinuation b &&
    (lead != 0xE0 || 0xA0 ≤ b) && (lead != 0xED || b < 0xA0) &&
    (lead != 0xF0 || 0x90 ≤ b) && (lead != 0xF4 || b < 0x90)

/-- How many of the bytes after the first continue the character, at most the given number. -/
def continued (lead wanted : Nat) : List Nat → Nat
  | [] => 0
  | b :: bs =>
    if wanted = 0 ∨ !isSecond lead b then 0
    else 1 + ((bs.take (wanted - 1)).takeWhile isContinuation).length

/-- The code point that a lead byte and the bytes after it write. -/
def codePoint (lead : Nat) (more : List Nat) : Nat :=
  let top := match more.length with
    | 0 => lead
    | 1 => lead % 0x20
    | 2 => lead % 0x10
    | _ => lead % 0x08
  more.foldl (fun acc b => acc * 0x40 + b % 0x40) top

/-- Reads characters from a position on, behind those already read (latest first). The allowance
bounds the number of characters. -/
def decodeFrom : Nat → Nat → List Char → List Nat → Except Utf8Fault (List Char)
  | _, _, read, [] => .ok read.reverse
  | 0, _, read, _ :: _ => .ok read.reverse
  | allowance + 1, position, read, b :: bs =>
    match leadLength? b with
    | none => .error (.start b position)
    | some size =>
      let found := continued b (size - 1) bs
      if found + 1 = size then
        let c := Char.ofNat (codePoint b (bs.take found))
        decodeFrom allowance (position + size) (c :: read) (bs.drop found)
      else if found = bs.length then .error (.cut b position (position + 1 + found))
      else .error (.broken b position (position + 1 + found))

/-- The text that the bytes of a file write. -/
def decodeUtf8 (bytes : List Nat) : Except Utf8Fault (List Char) :=
  decodeFrom bytes.length 0 [] bytes

/-- Where a fault lies: one byte with its value, or several bytes by their positions. -/
def Utf8Fault.place (byte position stop : Nat) : String :=
  if stop = position + 1 then
    .join ["byte 0x", String.ofList (Nat.toDigits 16 byte), " in position ", toString position]
  else
    .join ["bytes in position ", toString position, "-", toString (stop - 1)]

/-- The wording of a fault from where it lies and why. -/
def Utf8Fault.undecodable (place reason : String) : String :=
  .join ["\x27utf-8\x27 codec can\x27t decode ", place, ": ", reason]

/-- The wording of a fault. -/
def Utf8Fault.message : Utf8Fault → String
  | start b p => undecodable (place b p (p + 1)) "invalid start byte"
  | cut b p q => undecodable (place b p q) "unexpected end of data"
  | broken b p q => undecodable (place b p q) "invalid continuation byte"

end FlowScript.Text
