/-!
# Keywords

Keywords are written in any case. Beside the two ASCII cases of a letter, the dotted and dotless
`i`, the long `s` and the Kelvin sign stand for the ASCII letters that they fold to.
-/
namespace FlowScript.Text

/-- The lower-case ASCII letter that a character stands for in a keyword; other characters stand
for themselves. -/
def fold (c : Char) : Char :=
  let n := c.toNat
  if 0x41 ≤ n && n ≤ 0x5A then Char.ofNat (n + 0x20)
  else if n == 0x130 || n == 0x131 then 'i'
  else if n == 0x17F then 's'
  else if n == 0x212A then 'k'
  else c

/-- What follows a word at the start of a text, in any case. The word is in lower case. -/
def afterWord? : List Char → List Char → Option (List Char)
  | [], cs => some cs
  | _ :: _, [] => none
  | w :: ws, c :: cs => if fold c = w then afterWord? ws cs else none

/-- An ASCII letter or an underscore, or a character that folds to a letter: the start of a plain
identifier. -/
def isPlainStart (c : Char) : Bool :=
  (fold c).isLower || c == '_'

/-- A character of a plain identifier: its start, or an ASCII digit. -/
def isPlainWord (c : Char) : Bool :=
  isPlainStart c || c.isDigit

end FlowScript.Text
