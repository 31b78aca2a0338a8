import FlowScript.Text.Printable

/-!
# Quoted notation in messages

A message shows a text between quotes: single quotes, unless the text holds one and no double
quote. Inside, the delimiter and the backslash are escaped, line breaks and tabs have short
escapes, and unprintable characters are shown by their code points in two, four or eight
hexadecimal digits.

Text that is quoted in the input is read by `unquote?`: either quote delimits it, and it holds
neither its delimiter nor a line feed. There are no escapes there.
-/
namespace FlowScript.Text

/-- A number in hexadecimal, with at least the given number of digits. -/
def hex (width n : Nat) : List Char :=
  let digits := Nat.toDigits 16 n
  List.replicate (width - digits.length) '0' ++ digits

/-- One character inside a quotation with the given delimiter. -/
def quotedChar (quote c : Char) : List Char :=
  let n := c.toNat
  if c = quote ∨ c = '\\' then ['\\', c]
  else if c = '\n' then ['\\', 'n']
  else if c = '\r' then ['\\', 'r']
  else if c = '\t' then ['\\', 't']
  else if isPrintable c then [c]
  else if n ≤ 0xFF then '\\' :: 'x' :: hex 2 n
  else if n ≤ 0xFFFF then '\\' :: 'u' :: hex 4 n
  else '\\' :: 'U' :: hex 8 n

/-- The delimiter that a message chooses for a text. -/
def delimiter (cs : List Char) : Char :=
  if cs.contains '\x27' && !cs.contains '\x22' then '\x22' else '\x27'

/-- A text between quotes, as messages show it. -/
def quoted (s : String) : String :=
  let cs := s.toList
  let quote := delimiter cs
  String.ofList (quote :: cs.flatMap (quotedChar quote) ++ [quote])

/-- The inside of a quoted text. -/
def unquote? : List Char → Option (List Char)
  | [] => none
  | quote :: cs =>
    if quote = '\x27' ∨ quote = '\x22' then
      match cs.reverse with
      | [] => none
      | last :: inside =>
        if last = quote ∧ !inside.contains quote ∧ !inside.contains '\n' then some inside.reverse
        else none
    else none

end FlowScript.Text
