import FlowScript.Text.Blank
import FlowScript.Text.Case
import FlowScript.Text.Digit
import FlowScript.Text.Word

/-!
# Patterns of texts

A schema may ask that some part of a text has a pattern. Patterns are made of sets of characters,
places in a text such as its end, sequences, alternatives and repetitions. Groups remember what they
were read as, so that it can be asked for again, and a pattern may ask what stands before or after a
place without reading it.

## Main definitions

* `CharSet`, `Edge`, `Pattern`: sets of characters, places, and patterns.
* `CharSet.has`: whether a character belongs to a set, with a rule on the case of letters.
* `Pattern.span`: how many characters a pattern reads.
-/
namespace FlowScript

open Text

/-- A set of characters. -/
inductive CharSet where
  /-- The code points of an interval, both ends included. -/
  | between (first last : Nat)
  | digit
  | word
  | blank
  | none
  | either (a b : CharSet)
  | outside (a : CharSet)
  deriving DecidableEq, Repr, Inhabited

namespace CharSet

/-- The set of one code point. -/
def code (n : Nat) : CharSet :=
  between n n

/-- The set of one character. -/
def one (c : Char) : CharSet :=
  code c.toNat

/-- The characters of an interval, both ends included. -/
def range (first last : Char) : CharSet :=
  between first.toNat last.toNat

/-- Whether a set has one of some code points that stand for a character. -/
def covers (variants : List Nat) (c : Char) : CharSet → Bool
  | between first last => variants.any fun n => first ≤ n && n ≤ last
  | digit => isDigit c
  | word => isWord c
  | blank => isBlank c
  | none => false
  | either a b => a.covers variants c || b.covers variants c
  | outside a => !a.covers variants c

/-- Whether a character belongs to a set, with a rule on the case of letters. -/
def has (rule : CaseRule) (c : Char) (set : CharSet) : Bool :=
  set.covers (rule.variants c.toNat) (Char.ofNat (rule.lower c.toNat))

/-- The digits of ASCII. -/
def asciiDigit : CharSet := range '0' '9'

/-- The letters of ASCII. -/
def asciiLetter : CharSet := either (range 'a' 'z') (range 'A' 'Z')

/-- The letters, digits and the underscore of ASCII. -/
def asciiWord : CharSet := either asciiLetter (either asciiDigit (one '_'))

/-- The blanks of ASCII. -/
def asciiBlank : CharSet := either (one ' ') (between 0x09 0x0D)

/-- Any character but a line feed. -/
def inLine : CharSet := outside (one '\n')

/-- Any character. -/
def any : CharSet := outside none

end CharSet

/-- A place in a text. -/
inductive Edge where
  /-- The start of the text. -/
  | start
  /-- The start of a line. -/
  | lineStart
  /-- The end of the text, or the place before a line feed that ends it. -/
  | stop
  /-- The end of the text. -/
  | textStop
  /-- The end of a line. -/
  | lineStop
  /-- The start or the end of a run of characters of a set. -/
  | border (set : CharSet)
  /-- Any place in a text with characters that is no such start or end. -/
  | noBorder (set : CharSet)
  deriving DecidableEq, Repr, Inhabited

/-- What a repetition prefers: as many times as possible, as few as possible, or as many as possible
without ever taking any of them back. -/
inductive Preference where
  | many
  | few
  | all
  deriving DecidableEq, Repr, Inhabited

/-- A pattern of texts. -/
inductive Pattern where
  /-- Nothing. -/
  | empty
  /-- One character of a set, with a rule on the case of letters. -/
  | char (rule : CaseRule) (set : CharSet)
  /-- A place. -/
  | edge (e : Edge)
  /-- One pattern after the other. -/
  | seq (first second : Pattern)
  /-- One pattern or the other. -/
  | alt (first second : Pattern)
  /-- A pattern a number of times, between two bounds if there is an upper one. -/
  | times (preference : Preference) (p : Pattern) (low : Nat) (high : Option Nat)
  /-- A pattern whose text is remembered under a number. -/
  | group (number : Nat) (p : Pattern)
  /-- The text that is remembered under a number. -/
  | again (rule : CaseRule) (number : Nat)
  /-- A pattern that is read in its first way only. -/
  | once (p : Pattern)
  /-- A pattern that follows, or does not follow, and is not read. -/
  | ahead (wanted : Bool) (p : Pattern)
  /-- A pattern of some characters that stands, or does not stand, before the place. -/
  | behind (wanted : Bool) (size : Nat) (p : Pattern)
  /-- One pattern if there is a text under a number, and the other one if there is not. -/
  | given (number : Nat) (yes no : Pattern)
  deriving DecidableEq, Repr, Inhabited

/-- How many characters are read: at least some, and at most some unless there is no bound. -/
structure Span where
  low : Nat
  high : Option Nat
  deriving DecidableEq, Repr, Inhabited

namespace Span

/-- A number of characters. -/
def exactly (n : Nat) : Span := ⟨n, some n⟩

/-- Two spans one after the other. -/
def add (a b : Span) : Span :=
  ⟨a.low + b.low, match a.high, b.high with
    | some m, some n => some (m + n)
    | _, _ => none⟩

/-- One span or another. -/
def either (a b : Span) : Span :=
  ⟨min a.low b.low, match a.high, b.high with
    | some m, some n => some (max m n)
    | _, _ => none⟩

/-- A span a number of times. -/
def times (a : Span) (low : Nat) (high : Option Nat) : Span :=
  ⟨a.low * low, match a.high, high with
    | some 0, _ => some 0
    | some m, some n => some (m * n)
    | none, some 0 => some 0
    | _, _ => none⟩

/-- The only size of a span, if it has only one. -/
def size? (a : Span) : Option Nat :=
  if a.high = some a.low then some a.low else none

end Span

namespace Pattern

/-- One character of a set. -/
def one (set : CharSet) : Pattern :=
  char .exact set

/-- A pattern at least once. -/
def many1 (p : Pattern) : Pattern :=
  times .many p 1 none

/-- The patterns of a list, one after the other. -/
def sequence (ps : List Pattern) : Pattern :=
  ps.foldr seq empty

/-- How many characters a pattern reads, given the spans of the groups. -/
def span (groups : Nat → Span) : Pattern → Span
  | empty => .exactly 0
  | char _ _ => .exactly 1
  | edge _ => .exactly 0
  | seq p q => (p.span groups).add (q.span groups)
  | alt p q => (p.span groups).either (q.span groups)
  | times _ p low high => (p.span groups).times low high
  | group _ p => p.span groups
  | again _ number => groups number
  | once p => p.span groups
  | ahead _ _ => .exactly 0
  | behind _ _ _ => .exactly 0
  | given _ yes no => (yes.span groups).either (no.span groups)

end Pattern
end FlowScript
