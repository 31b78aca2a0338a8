import FlowScript.Fault
import FlowScript.Pattern.Basic

/-!
# The text of a pattern while it is read

A backslash and the character after it are read together, as one symbol; everywhere else a symbol is
one character. While a pattern is read it is known which groups have been opened and closed, how
they are named, and how many there were when a look behind was entered, because what lies inside a
look behind may not ask for the groups that are opened there.

## Main definitions

* `Symbol`, `symbols`: the symbols of a text.
* `Source`, `Reading`: what is left to read and what is known, and readers.
* `Refusal`: why a text is not read.
* `Flags`: the flags that are set where a part of a pattern is read.
-/
namespace FlowScript.Pattern

open Text

/-- A character of the text of a pattern, with or without a backslash in front of it, or a backslash
that ends the text. -/
inductive Symbol where
  | plain (c : Char)
  | escaped (c : Char)
  | lone
  deriving DecidableEq, Repr, Inhabited

/-- The symbols of a text. -/
def symbols : List Char → List Symbol
  | [] => []
  | ['\\'] => [.lone]
  | '\\' :: c :: cs => .escaped c :: symbols cs
  | c :: cs => .plain c :: symbols cs

/-- What is left of the text of a pattern, and what is known about its groups. -/
structure Source where
  rest : List Symbol
  /-- The spans of the groups in the order in which they were opened; open groups have none. -/
  groups : List (Option Span) := []
  /-- The numbers of the groups with names. -/
  names : List (String × Nat) := []
  /-- How many groups there were where the outermost look behind was entered. -/
  behind : Option Nat := none
  /-- The numbers of groups that are asked for before it is known whether they exist. -/
  asked : List Nat := []
  /-- Whether the whole is refused in the end: some look behind has no fixed width, or something is
  repeated where nothing can be. -/
  unfit : Bool := false
  deriving Repr, Inhabited

/-- Why a text is not read as a pattern. -/
inductive Refusal where
  /-- It is written as no pattern. -/
  | malformed
  /-- Reading it meets a fault. -/
  | fault (f : Fault)
  deriving DecidableEq, Repr, Inhabited

/-- Readers of the text of a pattern. -/
abbrev Reading := StateT Source (Except Refusal)

namespace Reading

/-- What follows cannot belong to a pattern. -/
def refuse {α : Type} : Reading α :=
  throw .malformed

/-- The next symbol, which stays. -/
def peek : Reading (Option Symbol) := do
  return (← get).rest.head?

/-- The next symbol. A backslash that ends the text is met as soon as it is the next one. -/
def take : Reading (Option Symbol) := do
  let s ← get
  if s.rest.tail.head? = some .lone then refuse
  set { s with rest := s.rest.tail }
  return s.rest.head?

/-- Passes over a character if it is next. -/
def accept (c : Char) : Reading Bool := do
  if (← peek) = some (.plain c) then
    let _ ← take
    return true
  else return false

/-- Passes over a character, which must be next. -/
def expect (c : Char) : Reading Unit := do
  if ← accept c then return () else refuse

/-- The next characters of a class, at most a number of them. -/
def takeUpTo (p : Char → Bool) : Nat → Reading (List Char)
  | 0 => return []
  | n + 1 => do
    match ← peek with
    | some (.plain c) =>
      if p c then
        let _ ← take
        return c :: (← takeUpTo p n)
      else return []
    | _ => return []

/-- All next characters of a class. -/
def takeAll (p : Char → Bool) : Reading (List Char) := do
  takeUpTo p (← get).rest.length

/-- The characters before a character, which is passed over; there is at least one of them, and none
of them has a backslash. -/
def takeName (last : Char) : Reading String := do
  let cs ← takeAll (· != last)
  expect last
  if cs.isEmpty then refuse else return String.ofList cs

/-- How many symbols are left. -/
def left : Reading Nat := do
  return (← get).rest.length

/-! ## Groups -/

/-- Whether a group may be asked for where it is: it is closed and, inside a look behind, it was
opened before. -/
def isClosed (s : Source) (number : Nat) : Bool :=
  0 < number && (s.groups[number - 1]?.bind id).isSome

/-- A group that may be asked for. -/
def closedGroup (number : Nat) : Reading Unit := do
  let s ← get
  if isClosed s number && s.behind.all (number ≤ ·) then return () else refuse

/-- Opens a group, which may have a name that no other group has. -/
def openGroup (name : Option String) : Reading Nat := do
  let s ← get
  let number := s.groups.length + 1
  match name with
  | none => set { s with groups := s.groups ++ [none] }
  | some name =>
    if s.names.any (·.1 == name) then refuse
    else set { s with groups := s.groups ++ [none], names := s.names ++ [(name, number)] }
  return number

/-- The span of a group, if it is closed. -/
def groupSpan (s : Source) (number : Nat) : Span :=
  (s.groups[number - 1]?.bind id).getD (.exactly 0)

/-- How many characters a pattern reads. -/
def spanOf (p : Pattern) : Reading Span := do
  return p.span (groupSpan (← get))

/-- Closes a group. -/
def closeGroup (number : Nat) (p : Pattern) : Reading Unit := do
  let span ← spanOf p
  modify fun s => { s with groups := s.groups.set (number - 1) (some span) }

/-- The number of the group with a name. -/
def named (name : String) : Reading Nat := do
  match (← get).names.find? (·.1 == name) with
  | some (_, number) => return number
  | none => refuse

end Reading

/-- Whether a text can name a group. -/
def isGroupName (name : String) : Bool :=
  match name.toList with
  | [] => false
  | c :: cs => isWord c && !isDigit c && cs.all isWord

/-! ## Flags -/

/-- The flags that are set where a part of a pattern is read. -/
structure Flags where
  /-- The case of letters does not matter. -/
  ignoreCase : Bool := false
  /-- Lines have edges of their own. -/
  multiline : Bool := false
  /-- A point stands for line feeds too. -/
  dotAll : Bool := false
  /-- Blanks and comments are passed over. -/
  verbose : Bool := false
  /-- Digits, words and blanks are those of ASCII. -/
  ascii : Bool := false
  /-- Nothing can be repeated. -/
  fixed : Bool := false
  deriving DecidableEq, Repr, Inhabited

namespace Flags

/-- The letters of flags. -/
def letters : List Char := ['i', 'm', 's', 'x', 'a', 'u', 't']

/-- The letters of the flags that choose between ASCII and all characters. -/
def kinds : List Char := ['a', 'u']

/-- The rule on the case of letters. -/
def rule (f : Flags) : CaseRule :=
  if !f.ignoreCase then .exact else if f.ascii then .ascii else .full

/-- The flags with some switched on and some switched off. -/
def change (f : Flags) (on off : List Char) : Flags :=
  let now (c : Char) (was : Bool) := (was || on.contains c) && !off.contains c
  { ignoreCase := now 'i' f.ignoreCase
    multiline := now 'm' f.multiline
    dotAll := now 's' f.dotAll
    verbose := now 'x' f.verbose
    ascii := now 'a' (f.ascii && !on.contains 'u')
    fixed := now 't' f.fixed }

/-- Digits. -/
def digits (f : Flags) : CharSet :=
  if f.ascii then .asciiDigit else .digit

/-- Word characters. -/
def words (f : Flags) : CharSet :=
  if f.ascii then .asciiWord else .word

/-- Blanks. -/
def blanks (f : Flags) : CharSet :=
  if f.ascii then .asciiBlank else .blank

end Flags
end FlowScript.Pattern
