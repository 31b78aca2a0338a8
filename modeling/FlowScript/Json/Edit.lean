import FlowScript.Json.Basic

/-!
# Edits of documents

An edit changes one part of a document, which a path leads to. Setting the part of an object adds a
missing key, and setting the part after the last one of an array adds an item; deleting an item
moves the later ones forward. An edit whose path leads nowhere changes nothing.

## Main definitions

* `Segment`: one step from a document into a part.
* `Edit`, `Json.edit`: edits, and a document with an edit made.
-/
namespace FlowScript

/-- A step from a document into one of its parts. -/
inductive Segment where
  | key (name : String)
  | index (i : Nat)
  deriving DecidableEq, Repr, Inhabited

/-- An edit of a document. -/
inductive Edit where
  | set (path : List Segment) (value : Json)
  | delete (path : List Segment)
  deriving Repr, Inhabited

namespace Json

/-- A document with the part that a step leads to set to a value. -/
def setPart (j : Json) (step : Segment) (value : Json) : Json :=
  match j, step with
  | object ms, .key name => object (setMember name value ms)
  | array xs, .index i => array (if i = xs.length then xs ++ [value] else xs.set i value)
  | j, _ => j

/-- A document without the part that a step leads to. -/
def deletePart (j : Json) (step : Segment) : Json :=
  match j, step with
  | object ms, .key name => object (eraseMember name ms)
  | array xs, .index i => array (xs.eraseIdx i)
  | j, _ => j

/-- The part that a step leads to. -/
def part? (j : Json) (step : Segment) : Option Json :=
  match j, step with
  | object ms, .key name => lookup? name ms
  | array xs, .index i => xs[i]?
  | _, _ => none

/-- A document with the part that a path leads to changed. -/
def modifyAt (change : Json → Json) : List Segment → Json → Json
  | [], j => change j
  | step :: steps, j =>
    match j.part? step with
    | some part => j.setPart step (modifyAt change steps part)
    | none => j

/-- A document with an edit made. -/
def edit (j : Json) : Edit → Json
  | .set path value =>
    match path.getLast? with
    | none => value
    | some step => j.modifyAt (·.setPart step value) path.dropLast
  | .delete path =>
    match path.getLast? with
    | none => j
    | some step => j.modifyAt (·.deletePart step) path.dropLast

end Json
end FlowScript
