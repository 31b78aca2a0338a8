import FlowScript.Condition.Basic
import FlowScript.Numeric.Numeral
import FlowScript.Text.Quoted
import FlowScript.Text.Scan

/-!
# Comparisons in words

A comparison may be written in words, as in `score is at least 90`: a name, a phrase for a relation
and one operand, with blanks between them. The phrases are tried in a fixed order, and before most
of them `is` or `are` may stand.

## Main definitions

* `Condition.operand`: the right-hand side of a comparison.
* `Comparative`, `Comparative.all`: the phrases of each relation.
* `Condition.comparative`: the comparison that a text makes in words.
-/
namespace FlowScript

open Text

/-- The right-hand side of a comparison: a number, a truth value, a quoted text, or else a
variable. -/
def Condition.operand (cs : List Char) : Except Fault Expr := do
  let cs := trim cs
  match ← number? cs with
  | some n => return .ofNumber n
  | none =>
    match Expr.truth? cs with
    | some b => return .ofBool b
    | none =>
      match unquote? cs with
      | some inside => return .ofText (String.ofList inside)
      | none => return .var (String.ofList cs)

/-- Phrases for a relation, each as a list of words, and whether `is` or `are` may stand before
them. -/
structure Comparative where
  relation : Relation
  phrases : List (List String)
  linked : Bool
  deriving Repr

namespace Comparative

/-- The phrases of all relations, in the order in which they are tried. -/
def all : List Comparative :=
  [⟨.atLeast, [["at", "least"], ["no", "less", "than"]], true⟩,
   ⟨.atMost, [["at", "most"], ["no", "more", "than"]], true⟩,
   ⟨.greater, [["greater", "than"], ["more", "than"]], true⟩,
   ⟨.less, [["less", "than"], ["fewer", "than"]], true⟩,
   ⟨.notEqual, [["not", "equal", "to"], ["is", "not"], ["are", "not"]], true⟩,
   ⟨.equal, [["equals"], ["equal"], ["equal", "to"]], true⟩,
   ⟨.equal, [["is"], ["are"]], false⟩]

/-- Whether a text stands between two quotes of one kind and holds no further one. -/
def isQuotation (cs : List Char) : Bool :=
  match cs with
  | [] => false
  | quote :: inside =>
    (quote == '\x27' || quote == '\x22') && inside.getLast? == some quote &&
      !inside.dropLast.contains quote

/-- Whether a text is an identifier of ASCII letters, digits and underscores. -/
def isPlainName (cs : List Char) : Bool :=
  isPlainStart (cs.headD '0') && cs.all isPlainWord

/-- The operand of a comparison in words, to the end of the text. -/
def value : Scan (List Char) := fun cs =>
  if isDecimal cs || isQuotation cs || isPlainName cs then some cs else none

/-- Words with blanks between and after them. -/
def words {α : Type} (next : Scan α) : List String → Scan α
  | [] => next
  | w :: ws => Scan.keyword w (Scan.gap (words next ws))

/-- One of some phrases and the operand after it. -/
def phrased (phrases : List (List String)) : Scan (List Char) := fun cs =>
  phrases.findSome? fun phrase => words value phrase cs

/-- A name, a phrase of the relation and an operand. -/
def read? (c : Comparative) : Scan (List Char × List Char) := fun cs =>
  if isPlainStart (cs.headD '0') then
    Scan.some1 isPlainWord (fun name => Scan.gap fun after =>
      let plain := phrased c.phrases
      let linked : Scan (List Char) :=
        Scan.either (Scan.keyword "is" (Scan.gap plain))
          (Scan.either (Scan.keyword "are" (Scan.gap plain)) plain)
      ((if c.linked then linked else plain) after).map fun operand => (name, operand)) cs
  else none

/-- The parts of the first comparison that a text makes: a relation, a name and an operand. -/
def parts? (cs : List Char) : Option (Relation × List Char × List Char) :=
  all.findSome? fun c => (c.read? cs).map fun parts => (c.relation, parts)

end Comparative

/-- The comparison that a text makes in words. -/
def Condition.comparative (cs : List Char) : Except Fault (Option Condition) :=
  (Comparative.parts? (trim cs)).mapM fun (relation, name, operand) => do
    let right ← Condition.operand operand
    return .compare (.var (String.ofList name)) relation right

end FlowScript
