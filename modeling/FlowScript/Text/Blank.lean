/-!
# Blanks and lines

Blanks separate words and are dropped at both ends of a text. They are the ASCII blanks, the four
ASCII separators, and the blanks and line separators of other scripts; the zero-width blank is not
one of them. Command text is cut into lines at any line break and lines of blanks are dropped.

## Main definitions

* `isBlank`: the characters that separate words.
* `trim`, `trimmed`: a text without the blanks at its ends.
* `commandLines`: the trimmed lines of a text that hold more than blanks.
-/
namespace FlowScript.Text

/-- The characters that separate words. -/
def isBlank (c : Char) : Bool :=
  let n := c.toNat
  (0x09 ≤ n && n ≤ 0x0D) || (0x1C ≤ n && n ≤ 0x20) || n == 0x85 || n == 0xA0 || n == 0x1680 ||
    (0x2000 ≤ n && n ≤ 0x200A) || n == 0x2028 || n == 0x2029 || n == 0x202F || n == 0x205F ||
    n == 0x3000

/-- The text without the blanks at its start. -/
def trimStart (cs : List Char) : List Char :=
  cs.dropWhile isBlank

/-- The text without the blanks at its end. -/
def trimEnd (cs : List Char) : List Char :=
  (cs.reverse.dropWhile isBlank).reverse

/-- The text without the blanks at its ends. -/
def trim (cs : List Char) : List Char :=
  trimEnd (trimStart cs)

/-- The string without the blanks at its ends. -/
def trimmed (s : String) : String :=
  String.ofList (trim s.toList)

/-- The characters that end a line. -/
def isLineBreak (c : Char) : Bool :=
  let n := c.toNat
  (0x0A ≤ n && n ≤ 0x0D) || (0x1C ≤ n && n ≤ 0x1E) || n == 0x85 || n == 0x2028 || n == 0x2029

/-- The pieces of a text between line breaks. -/
def pieces : List Char → List (List Char)
  | [] => [[]]
  | c :: cs =>
    if isLineBreak c then [] :: pieces cs
    else match pieces cs with
      | [] => [[c]]
      | p :: ps => (c :: p) :: ps

/-- The trimmed lines of a text that hold more than blanks, in order. -/
def commandLines (s : String) : List String :=
  (((pieces s.toList).map trim).filter (!·.isEmpty)).map String.ofList

end FlowScript.Text
