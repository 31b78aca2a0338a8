import FlowScript.Text.Keyword
import FlowScript.Text.Blank
import FlowScript.Text.Word

/-!
# Recognisers of whole texts

A recogniser reads a text to its end and answers only if the text has its form. The forms of
commands and phrases are put together from keywords, gaps of blanks, words and free text, each
followed by the recogniser of what comes next. Where a form can be read in several ways, the first
reading in a fixed order counts: free text in the middle of a line is as short as possible, and the
blanks before it are as many as possible.

## Main definitions

* `Scan`: recognisers with an answer.
* `Scan.keyword`, `Scan.gap`, `Scan.some1`, `Scan.rest`: parts that can be read in one way only.
* `Scan.slack`, `Scan.shortest`: the two parts that are read anew when what follows fails.
-/
namespace FlowScript.Text

/-- A recogniser of whole texts, with an answer for the texts that have its form. -/
abbrev Scan (α : Type) := List Char → Option α

namespace Scan

variable {α : Type}

/-- The end of the text. -/
def done (a : α) : Scan α := fun cs =>
  if cs.isEmpty then some a else none

/-- The first of two recognisers that answers. -/
def either (first second : Scan α) : Scan α := fun cs =>
  first cs <|> second cs

/-- A lower-case word, written in any case. -/
def keyword (word : String) (next : Scan α) : Scan α := fun cs =>
  (afterWord? word.toList cs).bind next

/-- One or more blanks, and all that there are. -/
def gap (next : Scan α) : Scan α
  | [] => none
  | c :: cs => if isBlank c then next (trimStart cs) else none

/-- One or more blanks, as many as let the rest of the form be read. -/
def slack (next : Scan α) : Scan α
  | [] => none
  | c :: cs => if isBlank c then slack next cs <|> next cs else none

/-- A nonempty run of characters of a class, and all that there are. -/
def some1 (p : Char → Bool) (next : List Char → Scan α) : Scan α := fun cs =>
  let run := cs.takeWhile p
  if run.isEmpty then none else next run (cs.dropWhile p)

/-- The nonempty rest of the text, without line feeds. -/
def rest (next : List Char → α) : Scan α := fun cs =>
  if cs.isEmpty || cs.contains '\n' then none else some (next cs)

/-- A recogniser with its answer changed. -/
def map {β : Type} (f : β → α) (next : Scan β) : Scan α := fun cs =>
  (next cs).map f

/-- One or more characters other than line feeds after those already read (latest first), as few
as let the rest of the form be read; the answer holds the characters and the answer of the rest. -/
def shortestAfter (next : Scan α) (read : List Char) : Scan (List Char × α)
  | [] => none
  | c :: cs =>
    if c = '\n' then none
    else match next cs with
      | some a => some ((c :: read).reverse, a)
      | none => shortestAfter next (c :: read) cs

/-- One or more characters other than line feeds, as few as let the rest of the form be read; the
answer holds the characters and the answer of the rest. -/
def shortest (next : Scan α) : Scan (List Char × α) :=
  shortestAfter next []

/-- A run of word characters. -/
def word (next : List Char → Scan α) : Scan α :=
  some1 isWord next

/-- A run of characters other than blanks. -/
def solid (next : List Char → Scan α) : Scan α :=
  some1 (!isBlank ·) next

end Scan
end FlowScript.Text
