import FlowScript.Condition.Comparative

/-!
# Reading conditions

Every text is a condition. A text that asks what a variable contains is a clause as a whole;
otherwise it is cut at its first connective, and what follows is cut again, so that connectives of
both kinds group to the right. A clause without connectives is a comparison by symbol, a comparison
in words, or else the name of a variable that must be true. Text without content, and text with too
many connectives, never holds.

## Main definitions

* `Condition.containment?`: the parts of a clause that asks what a variable contains.
* `Condition.split?`: the first connective of a text, and the texts on its two sides.
* `Condition.comparison?`: the parts of a comparison by symbol.
* `Condition.clause`, `Condition.parse`: the condition that a clause or a text writes.
-/
namespace FlowScript.Condition

open Text

/-- Whether a text does not start with a word character. -/
def endsWord : List Char → Bool
  | [] => true
  | c :: _ => !isWord c

/-- Whether a text starts with a blank. -/
def startsBlank : List Char → Bool
  | [] => false
  | c :: _ => isBlank c

/-- What follows `contains` at a place in a text, after blanks: one line, or nothing. Blanks may
stand before the word, and it is a word of its own; `before` is the text in front (latest first). -/
def pieceAt? (before cs : List Char) : Option (List Char) :=
  if startsBlank cs || endsWord before then
    match afterWord? "contains".toList (trimStart cs) with
    | some after =>
      let piece := trimStart after
      if endsWord after && !piece.contains '\n' then some piece else none
    | none => none
  else none

/-- The parts of a text around the first `contains`, behind what has been read (latest first). -/
def containmentAfter (read : List Char) : List Char → Option (List Char × List Char)
  | [] => (pieceAt? read []).map fun piece => (read.reverse, piece)
  | c :: cs =>
    ((pieceAt? read (c :: cs)).map fun piece => (read.reverse, piece)) <|>
      if c = '\n' then none else containmentAfter (c :: read) cs

/-- The parts of a text around `contains`: what is asked, and for which piece of text. -/
def containment? (cs : List Char) : Option (List Char × List Char) :=
  containmentAfter [] cs

/-- A connective at a place in a text, after blanks, and the one line that follows it. -/
def connectiveAt? : Scan (Connective × List Char) := fun cs =>
  let found := match trimStart cs with
    | '|' :: '|' :: after => some (Connective.or, trimStart after)
    | '&' :: '&' :: after => some (Connective.and, trimStart after)
    | _ => none
  found.filter fun (_, right) => !right.isEmpty && !right.contains '\n'

/-- The texts before and after the first connective of a text, which must have something on either
side. -/
def joined? : Scan (List Char × Connective × List Char) :=
  Scan.shortest connectiveAt?

/-- The first connective of a text that is no single clause, with the texts on its two sides. -/
def split? (cs : List Char) : Option (List Char × Connective × List Char) :=
  if cs.isEmpty || (containment? cs).isSome then none
  else (joined? cs).map fun (left, k, right) => (trim left, k, trim right)

/-- The parts of a comparison by symbol: a name, a relation, and an operand without blanks. A
longer symbol is tried before a shorter one. -/
def comparison? (cs : List Char) : Option (List Char × Relation × List Char) :=
  let name := cs.takeWhile isWord
  let after := trimStart (cs.dropWhile isWord)
  if name.isEmpty then none
  else Relation.all.findSome? fun r =>
    if r.symbol.toList.isPrefixOf after then
      let operand := trimStart (after.drop r.symbol.length)
      if operand.isEmpty || operand.any isBlank then none else some (name, r, operand)
    else none

/-- A text without quotes. -/
def withoutQuotes (cs : List Char) : List Char :=
  cs.filter fun c => c != '\x27' && c != '\x22'

/-- The condition that a text without further connectives writes. -/
def clause (cs : List Char) : Except Fault Condition :=
  if cs.isEmpty then .ok never
  else match containment? cs with
    | some (left, right) =>
      let input := trim left
      let piece := withoutQuotes (trim right)
      if input.isEmpty || piece.isEmpty then .ok never
      else .ok (contains (String.ofList input) (String.ofList piece))
    | none =>
      match comparison? cs with
      | some (name, r, right) => do
        let right ← operand right
        return compare (.var (String.ofList name)) r right
      | none => do
        match ← comparative cs with
        | some c => return c
        | none => return holds (String.ofList cs)

/-- Whether a character is dropped from conditions. -/
def isDropped (c : Char) : Bool :=
  c == '\x7b' || c == '\x7d'

/-- Condition text without the braces that are dropped and without blanks at its ends. -/
def cleaned (cs : List Char) : List Char :=
  trim (cs.filter (!isDropped ·))

/-- The clauses of a text before its last one, each with the connective after it, and the last
clause; undefined if there are more connectives than allowed. -/
def chain? : Nat → List Char → Option (List (List Char × Connective) × List Char)
  | allowance, cs =>
    match split? cs with
    | none => some ([], cs)
    | some (left, k, right) =>
      match allowance with
      | 0 => none
      | allowance + 1 =>
        (chain? allowance right).map fun (parts, last) => ((left, k) :: parts, last)

/-- The condition that a text writes. -/
def parse (cs : List Char) : Except Fault Condition :=
  match chain? maxNesting (cleaned cs) with
  | none => .ok never
  | some (parts, last) => do
    let last ← clause last
    parts.foldrM (fun (left, k) right => return join k (← clause (cleaned left)) right) last

end FlowScript.Condition
