import FlowScript.Json.Reader
import FlowScript.Pattern.Source
import FlowScript.Text.CharName

/-!
# Reading patterns

The text of a pattern is read in the usual notation: `.` for any character but a line feed, `^` and
`$` for the ends, brackets for sets of characters, parentheses for groups, `|`, and `*`, `+`, `?`
and braces for repetition, with `?` or `+` behind them. A parenthesis and a question mark open what
is no plain group: groups with names, looks, conditions, comments and flags. A backslash names sets,
places, characters by their codes or names and earlier groups, or takes the next character as it is.

## Main definitions

* `Pattern.escape`, `Pattern.bracket`: what a backslash or a bracket opens.
* `Pattern.atom`, `Pattern.quantified`: one item of a sequence, and its repetition.
* `Pattern.ofString`: the pattern that a text denotes, or why it denotes none.
-/
namespace FlowScript.Pattern

open Reading

/-! ## Escapes -/

/-- The number that some digits write in a base. -/
def numberIn (base : Nat) (cs : List Char) : Nat :=
  cs.foldl (fun acc c => base * acc + (Json.hexDigit? c).getD 0) 0

/-- Whether a character is a digit of base eight. -/
def isOctal (c : Char) : Bool :=
  '0' ≤ c && c ≤ '7'

/-- A code point of a number of hexadecimal digits. -/
def hexCode (count : Nat) : Reading Nat := do
  let cs ← takeUpTo (fun c => (Json.hexDigit? c).isSome) count
  let n := numberIn 16 cs
  if cs.length = count ∧ n ≤ 0x10FFFF then return n else refuse

/-- The code point of a character by its name in braces. Which names there are beside the known ones
is not described. -/
def nameCode : Reading Nat := do
  expect '\x7b'
  let name ← takeName '\x7d'
  match Text.charNamed? name with
  | some n => return n
  | none => throw (.fault (.undescribed name))

/-- The code points of the control characters with letters. -/
def control? (c : Char) : Option Nat :=
  match c with
  | 'a' => some 0x07
  | 'f' => some 0x0C
  | 'n' => some 0x0A
  | 'r' => some 0x0D
  | 't' => some 0x09
  | 'v' => some 0x0B
  | _ => none

/-- The set that a letter after a backslash names. -/
def escapedSet? (f : Flags) (c : Char) : Option CharSet :=
  match c with
  | 'd' => some f.digits
  | 'D' => some (.outside f.digits)
  | 'w' => some f.words
  | 'W' => some (.outside f.words)
  | 's' => some f.blanks
  | 'S' => some (.outside f.blanks)
  | _ => none

/-- The place that a letter after a backslash names. -/
def escapedEdge? (f : Flags) (c : Char) : Option Edge :=
  match c with
  | 'A' => some .start
  | 'Z' => some .textStop
  | 'b' => some (.border f.words)
  | 'B' => some (.noBorder f.words)
  | _ => none

/-- The code point that a character after a backslash, which is no digit, names or stands for. -/
def escapedCode (c : Char) : Reading Nat :=
  match control? c with
  | some n => return n
  | none =>
    match c with
    | 'x' => hexCode 2
    | 'u' => hexCode 4
    | 'U' => hexCode 8
    | 'N' => nameCode
    | c => if c.isAlphanum then refuse else return c.toNat

/-- The code point of up to three digits of base eight, the first of which has been read. -/
def octalCode (first : Char) : Reading Nat := do
  let n := numberIn 8 (first :: (← takeUpTo isOctal 2))
  if n ≤ 0xFF then return n else refuse

/-- The digits of the number of a group, or of a code point in base eight, after the first one.
Three digits of base eight are a code point. -/
def numberOrCode (first : Char) : Reading (Nat ⊕ Nat) := do
  match ← takeUpTo Char.isDigit 1 with
  | [] => return .inl (numberIn 10 [first])
  | second :: _ =>
    if isOctal first && isOctal second then
      match ← takeUpTo isOctal 1 with
      | [] => return .inl (numberIn 10 [first, second])
      | third :: _ =>
        let n := numberIn 8 [first, second, third]
        if n ≤ 0xFF then return .inr n else refuse
    else return .inl (numberIn 10 [first, second])

/-- One code point. -/
def literal (f : Flags) (n : Nat) : Pattern :=
  char f.rule (.code n)

/-- What a character after a backslash means, and whether it can be repeated. -/
def escape (f : Flags) (c : Char) : Reading (Pattern × Bool) := do
  match escapedEdge? f c, escapedSet? f c with
  | some e, _ => return (edge e, false)
  | none, some s => return (one s, true)
  | none, none =>
    if c = '0' then return (literal f (← octalCode c), true)
    else if c.isDigit then
      match ← numberOrCode c with
      | .inl number =>
        closedGroup number
        return (again f.rule number, true)
      | .inr n => return (literal f n, true)
    else return (literal f (← escapedCode c), true)

/-! ## Sets -/

/-- What a symbol inside brackets stands for: a code point, or a set. -/
def bracketItem (f : Flags) : Symbol → Reading (Nat ⊕ CharSet)
  | .lone => refuse
  | .plain c => return .inl c.toNat
  | .escaped c =>
    match escapedSet? f c with
    | some s => return .inr s
    | none =>
      if c = 'b' then return .inl 0x08
      else if isOctal c then return .inl (← octalCode c)
      else return .inl (← escapedCode c)

/-- What a symbol inside brackets stands for, as a set. -/
def itemSet : Nat ⊕ CharSet → CharSet
  | .inl n => .code n
  | .inr s => s

/-- The rest of a set in brackets, after what has been read of it, if anything. A closing bracket
that stands first belongs to the set, and a hyphen that stands last does too. The allowance bounds
the number of symbols. -/
def bracketFrom (f : Flags) : Nat → Option CharSet → Reading CharSet
  | 0, _ => refuse
  | allowance + 1, read => do
    let join (s : CharSet) := (read.map (CharSet.either · s)).getD s
    match ← take, read with
    | none, _ => refuse
    | some (.plain ']'), some set => return set
    | some symbol, _ =>
      let item ← bracketItem f symbol
      if ← accept '-' then
        match ← take with
        | none => refuse
        | some (.plain ']') => return .either (join (itemSet item)) (.one '-')
        | some symbol =>
          match item, ← bracketItem f symbol with
          | .inl first, .inl last =>
            if first ≤ last then bracketFrom f allowance (some (join (.between first last)))
            else refuse
          | _, _ => refuse
      else bracketFrom f allowance (some (join (itemSet item)))

/-- A set in brackets, after the opening one. -/
def bracket (f : Flags) : Reading Pattern := do
  let negated ← accept '^'
  let set ← bracketFrom f ((← left) + 1) none
  return char f.rule (if negated then .outside set else set)

/-! ## Repetition -/

/-- The number of repetitions that is too large. -/
def tooMany : Nat := 4294967295

/-- The number of repetitions that some digits ask for. -/
def turns (digits : List Char) : Reading Nat := do
  if maxDigits < digits.length then throw (.fault (.tooManyDigits digits.length))
  let n := numberIn 10 digits
  if tooMany ≤ n then throw (.fault .tooManyTurns)
  return n

/-- The bounds in braces, after the opening one; what is no bounds is not read. -/
def bounds : Reading (Option (Nat × Option Nat)) := do
  let start ← get
  let low ← takeAll Char.isDigit
  let comma ← accept ','
  let high ← if comma then takeAll Char.isDigit else pure low
  if (← accept '\x7d') && (comma || !low.isEmpty) then
    let least ← turns low
    if high.isEmpty then return some (least, none)
    let bound ← turns high
    if least ≤ bound then return some (least, some bound) else refuse
  else
    set start
    return none

/-- The bounds of the repetition that follows, if one does. -/
def quantifier : Reading (Option (Nat × Option Nat)) := do
  if ← accept '*' then return some (0, none)
  else if ← accept '+' then return some (1, none)
  else if ← accept '?' then return some (0, some 1)
  else
    let start ← get
    if ← accept '\x7b' then
      match ← bounds with
      | some bounds => return some bounds
      | none =>
        set start
        return none
    else return none

/-- What a repetition prefers, from the sign behind it. -/
def preference : Reading Preference := do
  if ← accept '?' then return .few
  else if ← accept '+' then return .all
  else return .many

/-! ## Flags -/

/-- Letters of flags. -/
def flagLetters : Reading (List Char) :=
  takeAll Flags.letters.contains

/-- Whether some letters do not choose twice between ASCII and all characters. -/
def choosesOnce (on : List Char) : Bool :=
  !(Flags.kinds.all on.contains)

/-- Letters of flags for the whole pattern, after the parenthesis and the question mark. -/
def wholeFlags : Reading (List Char) := do
  let on ← flagLetters
  expect ')'
  if on.isEmpty || !choosesOnce on then refuse else return on

/-- Flags for one group, after the parenthesis and the question mark. -/
def groupFlags (f : Flags) : Reading Flags := do
  let on ← flagLetters
  let off ← if ← accept '-' then do
      let off ← flagLetters
      if off.isEmpty then refuse else pure off
    else if on.isEmpty then refuse else pure []
  expect ':'
  if !choosesOnce on || on.contains 't' || off.any (fun c => c == 't' || Flags.kinds.contains c) ||
      on.any off.contains then refuse
  else return f.change on off

/-! ## Blanks and comments -/

/-- Passes over what follows, up to a character and including it. -/
def skipPast (last : Char) : Nat → Reading Unit
  | 0 => return ()
  | allowance + 1 => do
    match ← take with
    | none => return ()
    | some symbol => if symbol = .plain last then return () else skipPast last allowance

/-- Whether a character is a blank between the parts of a pattern. -/
def isSpacing (c : Char) : Bool :=
  " \t\n\r\x0b\x0c".toList.contains c

/-- Passes over one blank or one comment to the end of a line, if the flags allow it and one
follows. -/
def skipSpacing (f : Flags) : Reading Bool := do
  match ← peek with
  | some (.plain c) =>
    if f.verbose && (isSpacing c || c == '#') then
      let _ ← take
      if c = '#' then skipPast '\n' (← left)
      return true
    else return false
  | _ => return false

/-- Passes over a comment in parentheses, after the sign that opens it. -/
def skipComment : Reading Unit := do
  if (← get).rest.contains (.plain ')') then skipPast ')' (← left) else refuse

/-! ## Groups -/

/-- How the parts of a group are read: as alternatives, or as one sequence. -/
structure Inside where
  alternatives : Flags → Reading Pattern
  sequence : Flags → Reading Pattern

/-- A group that is remembered, after its parenthesis and its name. -/
def remembered (inside : Inside) (f : Flags) (name : Option String) : Reading Pattern := do
  let number ← openGroup name
  let p ← inside.alternatives f
  expect ')'
  closeGroup number p
  return group number p

/-- A group that is not remembered. -/
def unremembered (inside : Inside) (f : Flags) : Reading Pattern := do
  let p ← inside.alternatives f
  expect ')'
  return p

/-- A look behind, after the sign that opens it. -/
def lookBehind (inside : Inside) (f : Flags) (wanted : Bool) : Reading Pattern := do
  let outer := (← get).behind
  modify fun s => { s with behind := some (outer.getD s.groups.length) }
  let p ← inside.alternatives f
  modify fun s => { s with behind := outer }
  expect ')'
  match (← spanOf p).size?.filter (· < tooMany) with
  | some size => return behind wanted size p
  | none =>
    modify fun s => { s with unfit := true }
    return behind wanted 0 p

/-- The group that a condition asks for: a name, or a number that may belong to a later group. -/
def condition : Reading Nat := do
  let name ← takeName ')'
  let number ← if isGroupName name then named name
    else do
      let cs := Text.trim name.toList
      let digits := if cs.head? = some '+' then cs.tail else cs
      let number := Text.digitsValue digits
      if !Text.isDigitRun digits || number = 0 then refuse
      modify fun s => { s with asked := number :: s.asked }
      pure number
  if (← get).behind.isSome then closedGroup number
  return number

/-- A choice by a group, after the signs that open it. -/
def choice (inside : Inside) (f : Flags) : Reading Pattern := do
  let number ← condition
  let yes ← inside.sequence f
  let no ← if ← accept '|' then inside.sequence f else pure empty
  expect ')'
  return given number yes no

/-- A group or an earlier group by its name, after the letter that opens it. -/
def byName (inside : Inside) (f : Flags) : Reading Pattern := do
  if ← accept '<' then
    let name ← takeName '>'
    if isGroupName name then remembered inside f (some name) else refuse
  else
    expect '='
    let name ← takeName ')'
    if !isGroupName name then refuse
    let number ← named name
    closedGroup number
    return again f.rule number

/-- What a parenthesis and a question mark open; nothing if it is a comment. -/
def extension (inside : Inside) (f : Flags) : Reading (Option Pattern) := do
  if ← accept '#' then
    skipComment
    return none
  else if ← accept ':' then return some (← unremembered inside f)
  else if ← accept '>' then return some (once (← unremembered inside f))
  else if ← accept '=' then return some (ahead true (← unremembered inside f))
  else if ← accept '!' then return some (ahead false (← unremembered inside f))
  else if ← accept '<' then
    if ← accept '=' then return some (← lookBehind inside f true)
    else
      expect '!'
      return some (← lookBehind inside f false)
  else if ← accept '(' then return some (← choice inside f)
  else if ← accept 'P' then return some (← byName inside f)
  else return some (← unremembered inside (← groupFlags f))

/-- What a parenthesis opens; nothing if it is a comment. -/
def parenthesis (inside : Inside) (f : Flags) : Reading (Option Pattern) := do
  if ← accept '?' then extension inside f
  else return some (← remembered inside f none)

/-! ## Sequences and alternatives -/

/-- One item of a sequence, and whether it can be repeated; nothing if it is a comment. -/
def atom (inside : Inside) (f : Flags) : Symbol → Reading (Option (Pattern × Bool))
  | .lone => refuse
  | .escaped c => some <$> escape f c
  | .plain '(' => do return (← parenthesis inside f).map fun p => (p, true)
  | .plain '[' => do return some (← bracket f, true)
  | .plain '.' => return some (one (if f.dotAll then .any else .inLine), true)
  | .plain '^' => return some (edge (if f.multiline then .lineStart else .start), false)
  | .plain '$' => return some (edge (if f.multiline then .lineStop else .stop), false)
  | .plain c => if "*+?".toList.contains c then refuse else return some (literal f c.toNat, true)

/-- A sequence that has been read in part: what comes before its last item, the last item, and
whether that can be repeated. -/
structure Items where
  before : Pattern := empty
  last : Pattern := empty
  repeatable : Bool := false

namespace Items

/-- The sequence. -/
def pattern (items : Items) : Pattern :=
  seq items.before items.last

/-- The sequence with one more item. -/
def push (items : Items) (p : Pattern) (repeatable : Bool) : Items :=
  ⟨items.pattern, p, repeatable⟩

end Items

/-- The last item with a repetition, which it must allow. -/
def quantified (f : Flags) (items : Items) (bounds : Nat × Option Nat) : Reading Items := do
  if !items.repeatable then refuse
  if f.fixed then modify fun s => { s with unfit := true }
  return { items with
    last := times (← preference) items.last bounds.1 bounds.2, repeatable := false }

/-- The rest of a sequence, to the end of the text or to a bar or a closing parenthesis. The
allowance bounds the number of its parts. -/
def itemsFrom (inside : Inside) (f : Flags) : Nat → Items → Reading Pattern
  | 0, _ => refuse
  | allowance + 1, items => do
    match ← peek with
    | none => return items.pattern
    | some symbol =>
      if symbol = .plain '|' ∨ symbol = .plain ')' then return items.pattern
      else if ← skipSpacing f then itemsFrom inside f allowance items
      else
        match ← quantifier with
        | some bounds => itemsFrom inside f allowance (← quantified f items bounds)
        | none =>
          let _ ← take
          match ← atom inside f symbol with
          | some (p, repeatable) => itemsFrom inside f allowance (items.push p repeatable)
          | none => itemsFrom inside f allowance items

/-- The rest of some alternatives, after the first ones. The allowance bounds their number. -/
def alternativesFrom (sequence : Reading Pattern) : Nat → Pattern → Reading Pattern
  | 0, _ => refuse
  | allowance + 1, p => do
    if ← accept '|' then alternativesFrom sequence allowance (alt p (← sequence))
    else return p

/-- Alternatives with bars between them. -/
def alternatives (sequence : Reading Pattern) : Reading Pattern := do
  let first ← sequence
  alternativesFrom sequence ((← left) + 1) first

/-- A sequence. The allowance bounds how many groups lie inside each other. -/
def sequenceWithin : Nat → Flags → Reading Pattern
  | 0, _ => refuse
  | allowance + 1, f => do
    let sequence := sequenceWithin allowance
    itemsFrom ⟨fun f => alternatives (sequence f), sequence⟩ f ((← left) + 1) {}

/-- The flags for the whole pattern, which stand at its start among blanks and comments, and their
letters. The allowance bounds the number of parts. -/
def leadingFlags : Nat → Flags → List Char → Reading (Flags × List Char)
  | 0, f, chosen => return (f, chosen)
  | allowance + 1, f, chosen => do
    if ← skipSpacing f then leadingFlags allowance f chosen
    else
      let start ← get
      if (← accept '(') && (← accept '?') then
        if ← accept '#' then
          skipComment
          leadingFlags allowance f chosen
        else
          match wholeFlags.run (← get) with
          | .ok (on, source) =>
            set source
            leadingFlags allowance (f.change on []) (chosen ++ on)
          | .error _ =>
            set start
            return (f, chosen)
      else
        set start
        return (f, chosen)

/-- The pattern of a whole text. Flags that exclude each other are met before anything is said about
what is left of the text, about groups that do not exist and about what is refused in the end. -/
def wholePattern : Reading Pattern := do
  if (← peek) = some .lone then refuse
  let size ← left
  let (f, chosen) ← leadingFlags (size + 1) {} []
  let p ← alternatives (sequenceWithin (size + 1) f)
  if !choosesOnce chosen then throw (.fault .bothAlphabets)
  let s ← get
  if s.rest.isEmpty && s.asked.all (· ≤ s.groups.length) && !s.unfit then return p else refuse

/-- The pattern that a text denotes. -/
def ofString (text : String) : Except Refusal Pattern :=
  (wholePattern.run { rest := symbols text.toList }).map (·.1)

end FlowScript.Pattern
