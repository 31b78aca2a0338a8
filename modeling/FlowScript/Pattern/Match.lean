import FlowScript.Pattern.Basic

/-!
# Texts with patterns

A pattern is read from a place in a text, and then a goal has to be reached from the place behind
it. Where a pattern can be read in several ways they are tried in a fixed order, and the first one
that lets the goal be reached counts. Repetitions end with one turn that reads nothing.

## Main definitions

* `Place`: a place in a text, with the places that groups have remembered.
* `Pattern.run`: the outcome of a goal after a pattern.
* `Pattern.occursIn`: whether some part of a text has a pattern.
-/
namespace FlowScript

open Text

/-- A place in a text. -/
structure Place where
  /-- The characters before the place, the nearest first. -/
  before : List Char
  /-- The characters after the place. -/
  rest : List Char
  /-- How many characters are before the place. -/
  position : Nat
  /-- Where groups start and stop: a group's start under twice its number, its end under the next
  number. -/
  marks : List (Nat × Nat)
  deriving DecidableEq, Repr, Inhabited

namespace Place

/-- The start of a text. -/
def start (cs : List Char) : Place :=
  ⟨[], cs, 0, []⟩

/-- The place after the next character. -/
def next (p : Place) : Place :=
  match p.rest with
  | [] => p
  | c :: cs => { p with before := c :: p.before, rest := cs, position := p.position + 1 }

/-- The place some characters before. -/
def back? (p : Place) : Nat → Option Place
  | 0 => some p
  | n + 1 =>
    match p.before with
    | [] => none
    | c :: cs => back? { p with before := cs, rest := c :: p.rest, position := p.position - 1 } n

/-- Remembers the position under a number. -/
def mark (p : Place) (n : Nat) : Place :=
  { p with marks := (n, p.position) :: p.marks.filter (·.1 != n) }

/-- The position that is remembered under a number. -/
def marked? (p : Place) (n : Nat) : Option Nat :=
  (p.marks.find? (·.1 == n)).map (·.2)

/-- The text of a group, if the group has been read and has not been started behind its end. -/
def captured? (p : Place) (number : Nat) : Option (List Char) :=
  match p.marked? (2 * number), p.marked? (2 * number + 1) with
  | some i, some j =>
    if i ≤ j then some (((p.before.reverse ++ p.rest).drop i).take (j - i)) else none
  | _, _ => none

/-- The place behind a text that follows, with a rule on the case of letters. -/
def follow? (rule : CaseRule) (p : Place) : List Char → Option Place
  | [] => some p
  | c :: cs =>
    match p.rest with
    | [] => none
    | d :: _ => if rule.lower c.toNat = rule.lower d.toNat then follow? rule p.next cs else none

/-- Whether the character before a place is in a set. -/
def follows (set : CharSet) (p : Place) : Bool :=
  p.before.head?.any (set.has .exact)

/-- Whether the character after a place is in a set. -/
def precedes (set : CharSet) (p : Place) : Bool :=
  p.rest.head?.any (set.has .exact)

/-- Whether a place is an edge. -/
def isAt (p : Place) : Edge → Bool
  | .start => p.before.isEmpty
  | .lineStart => p.before.isEmpty || p.before.head? == some '\n'
  | .stop => p.rest.isEmpty || p.rest == ['\n']
  | .textStop => p.rest.isEmpty
  | .lineStop => p.rest.isEmpty || p.rest.head? == some '\n'
  | .border set => p.follows set != p.precedes set
  | .noBorder set => !(p.before.isEmpty && p.rest.isEmpty) && p.follows set == p.precedes set

end Place

namespace Pattern

/-- What is to be reached from a place: a later place, if it can be reached. -/
abbrev Goal := Place → Option Place

/-- A step a number of times before a goal. -/
def iterate (step : Goal → Goal) : Nat → Goal → Goal
  | 0, goal => goal
  | n + 1, goal => fun p => step (iterate step n goal) p

/-- A step more times before a goal, up to a bound if there is one: first as many times as possible
or, if it is to be few, first without. The last turn may read nothing; `last` is where the turn
before started. The allowance bounds the number of turns. -/
def iterateMore (step : Goal → Goal) (few : Bool) :
    Nat → Option Nat → Option Nat → Goal → Goal
  | 0, _, _, goal => goal
  | allowance + 1, bound, last, goal => fun p =>
    if bound = some 0 ∨ last = some p.position then goal p
    else
      let turn := step (iterateMore step few allowance (bound.map (· - 1)) (some p.position) goal)
      if few then goal p <|> turn p else turn p <|> goal p

/-- The place after a step a number of times, each in its first way only. -/
def repeatOnce (step : Goal → Goal) : Nat → Place → Option Place
  | 0, p => some p
  | n + 1, p => (step some p).bind (repeatOnce step n)

/-- The place after as many steps as possible, each in its first way only. -/
def exhaust (step : Goal → Goal) : Nat → Option Nat → Option Nat → Place → Place
  | 0, _, _, p => p
  | allowance + 1, bound, last, p =>
    if bound = some 0 ∨ last = some p.position then p
    else match step some p with
      | some after => exhaust step allowance (bound.map (· - 1)) (some p.position) after
      | none => p

/-- A step between two numbers of times before a goal. -/
def repeated (step : Goal → Goal) (preference : Preference) (low : Nat) (high : Option Nat)
    (goal : Goal) : Goal :=
  let bound := high.map (· - low)
  match preference with
  | .all => fun p =>
    (repeatOnce step low p).bind fun p => goal (exhaust step (p.rest.length + 2) bound none p)
  | preference =>
    iterate step low fun p =>
      iterateMore step (preference == .few) (p.rest.length + 2) bound none goal p

/-- The goal, after a look from another place that must be reached or must not. What groups
remember in a look that succeeds stays. -/
def look (wanted : Bool) (found : Option Place) (goal : Goal) : Goal := fun p =>
  match found with
  | some after => if wanted then goal { p with marks := after.marks } else none
  | none => if wanted then none else goal p

/-- The outcome of a goal after a pattern. -/
def run : Pattern → Goal → Goal
  | empty, goal => goal
  | char rule set, goal => fun p =>
    match p.rest with
    | [] => none
    | c :: _ => if set.has rule c then goal p.next else none
  | edge e, goal => fun p => if p.isAt e then goal p else none
  | seq a b, goal => a.run (b.run goal)
  | alt a b, goal => fun p => a.run goal p <|> b.run goal p
  | times preference a low high, goal => repeated a.run preference low high goal
  | group number a, goal => fun p =>
    a.run (fun after => goal (after.mark (2 * number + 1))) (p.mark (2 * number))
  | again rule number, goal => fun p =>
    ((p.captured? number).bind (p.follow? rule)).bind goal
  | once a, goal => fun p => (a.run some p).bind goal
  | ahead wanted a, goal => fun p => look wanted (a.run some p) goal p
  | behind wanted size a, goal => fun p => look wanted ((p.back? size).bind (a.run some)) goal p
  | given number yes no, goal => fun p =>
    if (p.captured? number).isSome then yes.run goal p else no.run goal p

/-- Whether a pattern can be read from a place, or from one of those after it. The characters after
the place are given again, for the recursion. -/
def foundFrom (a : Pattern) (p : Place) : List Char → Bool
  | [] => (a.run some p).isSome
  | _ :: cs => (a.run some p).isSome || foundFrom a p.next cs

/-- Whether some part of a text has a pattern. -/
def occursIn (a : Pattern) (s : String) : Bool :=
  foundFrom a (.start s.toList) s.toList

end Pattern
end FlowScript
