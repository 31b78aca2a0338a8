import FlowScript.Json.Basic
import FlowScript.Text.Quoted

/-!
# Texts of documents

A document has two texts. The canonical text is what is recorded: keys in order of code points, no
blanks, and only the escapes that the format demands. The shown text is what messages hold: members
in their own order, with the words `None`, `True` and `False` and quoted texts. A document that is a
text itself may also stand inside other text without quotes.

## Main definitions

* `Json.canonical`: the canonical text.
* `Json.shown`: the text in messages.
* `Json.plain`: the text inside other text.
-/
namespace FlowScript.Json

/-- One character inside a text of the canonical form. -/
def escaped (c : Char) : List Char :=
  if c = '\x22' then ['\\', '\x22']
  else if c = '\\' then ['\\', '\\']
  else if c = '\n' then ['\\', 'n']
  else if c = '\r' then ['\\', 'r']
  else if c = '\t' then ['\\', 't']
  else if c = '\x08' then ['\\', 'b']
  else if c = '\x0C' then ['\\', 'f']
  else if c.toNat < 0x20 then '\\' :: 'u' :: Text.hex 4 c.toNat
  else [c]

/-- A text in the canonical form. -/
def stringChars (s : String) : List Char :=
  '\x22' :: s.toList.flatMap escaped ++ ['\x22']

/-- A number in the canonical form. -/
def numberChars : Number → List Char
  | .int n => (toString n).toList
  | .double x => (x.textWith "Infinity" "NaN").toList

mutual

/-- A document in compact form, with members in their own order. -/
def compactChars : Json → List Char
  | null => "null".toList
  | bool b => (if b then "true" else "false").toList
  | number n => numberChars n
  | string s => stringChars s
  | array xs => '[' :: compactItems xs ++ [']']
  | object ms => '\x7b' :: compactMembers ms ++ ['\x7d']
termination_by structural j => j

/-- The documents of an array, separated by commas. -/
def compactItems : List Json → List Char
  | [] => []
  | x :: xs => compactChars x ++ (if xs.isEmpty then [] else ',' :: compactItems xs)
termination_by structural xs => xs

/-- The members of an object, separated by commas. -/
def compactMembers : Members → List Char
  | [] => []
  | (k, v) :: ms =>
    stringChars k ++ ':' :: compactChars v ++ (if ms.isEmpty then [] else ',' :: compactMembers ms)
termination_by structural ms => ms

end

/-- The canonical text of a document. -/
def canonical (j : Json) : String :=
  String.ofList (compactChars j.sorted)

mutual

/-- The text of a document in messages. -/
def shown : Json → String
  | null => "None"
  | bool b => if b then "True" else "False"
  | number n => n.text
  | string s => Text.quoted s
  | array xs => .join ["[", ", ".intercalate (shownItems xs), "]"]
  | object ms => .join ["\x7b", ", ".intercalate (shownMembers ms), "\x7d"]
termination_by structural j => j

/-- The texts of the documents of an array. -/
def shownItems : List Json → List String
  | [] => []
  | x :: xs => shown x :: shownItems xs
termination_by structural xs => xs

/-- The texts of the members of an object. -/
def shownMembers : Members → List String
  | [] => []
  | (k, v) :: ms => .join [Text.quoted k, ": ", shown v] :: shownMembers ms
termination_by structural ms => ms

end

/-- The text of a document inside other text: a text stands for itself, all else is as in
messages. -/
def plain : Json → String
  | string s => s
  | j => j.shown

end FlowScript.Json
