import FlowScript.Fault
import FlowScript.Json.Edit
import FlowScript.Json.Printer
import FlowScript.Pattern.Match

/-!
# Schemas

A schema says which documents are well formed. It is a tree of rules, each of which looks at one
aspect of a document and lets documents pass to which the aspect does not apply: a rule on members
lets everything pass that is no object. Rules may refer to named schemas, also to those they belong
to.

## Main definitions

* `Kind`: the kinds of documents.
* `Schema`, `Schema.Root`: rules, and a rule together with the schemas that it refers to.
* `Violation`: where a document breaks a rule, and how.
* `Schema.Root.violations`: all violations of a document.
* `Schema.Root.enforce`: the refusal of documents with violations.
* `Report`, `Validator`: what is found wrong in documents, by rules or by anything else.
-/
namespace FlowScript

/-- The kinds of documents. -/
inductive Kind where
  | null
  | boolean
  | integer
  | number
  | string
  | array
  | object
  deriving DecidableEq, Repr, Inhabited

namespace Kind

/-- All kinds. -/
def all : List Kind := [null, boolean, integer, number, string, array, object]

/-- The name of a kind. -/
def name : Kind → String
  | null => "null"
  | boolean => "boolean"
  | integer => "integer"
  | number => "number"
  | string => "string"
  | array => "array"
  | object => "object"

/-- The kind with a name. -/
def named? (name : String) : Option Kind :=
  all.find? (·.name == name)

/-- Whether a document is of a kind. A number that denotes an integer is one. -/
def admits : Kind → Json → Bool
  | null, .null => true
  | boolean, .bool _ => true
  | integer, .number n => n.isWhole
  | number, .number _ => true
  | string, .string _ => true
  | array, .array _ => true
  | object, .object _ => true
  | _, _ => false

end Kind

/-- A rule about documents. -/
inductive Schema where
  /-- All rules of a list. -/
  | all (rules : List Schema)
  /-- No document passes. -/
  | nothing
  /-- The document is of one of some kinds. -/
  | type (kinds : List Kind)
  /-- The document is one of some documents. -/
  | oneOf (values : List Json)
  /-- The document is a given one. -/
  | const (value : Json)
  /-- A text has a pattern somewhere. -/
  | pattern (source : String) (p : Pattern)
  /-- A text has at least a number of characters. -/
  | minLength (n : Nat)
  /-- An array has at least a number of items. -/
  | minItems (n : Nat)
  /-- A number is at least another one. -/
  | minimum (bound : Number)
  /-- An object has some members. -/
  | required (keys : List String)
  /-- A member of an object, if present, passes a rule. -/
  | property (key : String) (rule : Schema)
  /-- All members of an object except those with some keys pass a rule. -/
  | others (known : List String) (rule : Schema)
  /-- All items of an array pass a rule. -/
  | items (rule : Schema)
  /-- The document passes one of some rules. -/
  | anyOf (options : List Schema)
  /-- If the document passes one rule, it passes another one. -/
  | when (condition consequence : Schema)
  /-- The document passes the rule with a name. -/
  | ref (name : String)
  deriving Repr, Inhabited

/-- How a document breaks a rule. -/
inductive Reason where
  | wrongKind (value : Json) (kinds : List Kind)
  | notListed (value : Json) (values : List Json)
  | notEqual (expected : Json)
  | mismatch (value : Json) (source : String)
  | tooShort (value : Json) (bound : Nat)
  | tooSmall (value : Json) (bound : Number)
  | missing (key : String)
  | noOption (value : Json)
  | forbidden (value : Json)
  | unexpectedMembers (keys : List String)
  | unexpectedItems (values : List Json)
  deriving Repr, Inhabited

/-- The wording of how a document breaks a rule. -/
def Reason.message : Reason → String
  | wrongKind value kinds =>
    .join [value.shown, " is not of type ",
      ", ".intercalate (kinds.map fun k => Text.quoted k.name)]
  | notListed value values => .join [value.shown, " is not one of ", (Json.array values).shown]
  | notEqual expected => .join [expected.shown, " was expected"]
  | mismatch value source => .join [value.shown, " does not match ", Text.quoted source]
  | tooShort value bound =>
    .join [value.shown, if bound = 1 then " should be non-empty" else " is too short"]
  | tooSmall value bound => .join [value.shown, " is less than the minimum of ", bound.text]
  | missing key => .join [Text.quoted key, " is a required property"]
  | noOption value => .join [value.shown, " is not valid under any of the given schemas"]
  | forbidden value => .join ["False schema does not allow ", value.shown]
  | unexpectedMembers keys =>
    .join ["Additional properties are not allowed (", ", ".intercalate (keys.map Text.quoted),
      if keys.length = 1 then " was" else " were", " unexpected)"]
  | unexpectedItems values =>
    .join ["Expected at most 0 items but found ", toString values.length, " extra: ",
      match values with
      | [value] => value.shown
      | values => (Json.array values).shown]

/-- What is found wrong in a document: the text of its place, and how it is worded. -/
structure Report where
  place : String
  wording : String
  deriving DecidableEq, Repr, Inhabited

namespace Report

/-- Whether a report is not listed behind another one: reports are in the order of their places and,
at one place, of their wordings. -/
def le (r r' : Report) : Bool :=
  r.place < r'.place || (r.place == r'.place && r.wording ≤ r'.wording)

/-- What a report says. -/
def message (r : Report) : String :=
  .join ["Validation error: ", r.place, ": ", r.wording]

/-- What some reports say, in their order. -/
def listed (rs : List Report) : List String :=
  (rs.mergeSort le).map message

end Report

/-- What finds out all that is wrong in a document, unless it meets a fault. -/
abbrev Validator := Json → Except Fault (List Report)

/-- Where a document breaks a rule, from the outside in, and how. -/
structure Violation where
  path : List Segment
  reason : Reason
  deriving Repr, Inhabited

namespace Violation

/-- A violation of a part as one of the whole. -/
def under (s : Segment) (v : Violation) : Violation :=
  { v with path := s :: v.path }

/-- Whether a key is written plainly in a path: an ASCII letter and then ASCII letters, digits and
underscores, up to one final line feed. -/
def isPlainKey (key : String) : Bool :=
  let cs := key.toList
  let line := if cs.getLast? = some '\n' then cs.dropLast else cs
  match line with
  | [] => false
  | c :: cs => c.isAlpha && cs.all Text.isAsciiWord

/-- The text of one step of a path. -/
def segmentText : Segment → String
  | .index i => "[" ++ toString i ++ "]"
  | .key name =>
    if isPlainKey name then "." ++ name
    else
      let escaped := name.toList.flatMap fun c => if c = '\\' ∨ c = '\x27' then ['\\', c] else [c]
      "[\x27" ++ String.ofList escaped ++ "\x27]"

/-- The text of a path. -/
def pathText (path : List Segment) : String :=
  .join ("$" :: path.map segmentText)

/-- A violation as a report. -/
def report (v : Violation) : Report :=
  ⟨pathText v.path, v.reason.message⟩

/-- The wording of a violation. -/
def message (v : Violation) : String :=
  v.report.message

end Violation

namespace Schema

/-- The rule that all documents pass. -/
def anything : Schema :=
  all []

mutual

/-- The violations of a rule in a document, given those of the rules with names. -/
def check (named : String → Json → List Violation) : Schema → Json → List Violation
  | all rules, j => checkAll named rules j
  | nothing, j => [⟨[], .forbidden j⟩]
  | type kinds, j => if kinds.any (·.admits j) then [] else [⟨[], .wrongKind j kinds⟩]
  | oneOf values, j => if values.any j.same then [] else [⟨[], .notListed j values⟩]
  | const value, j => if j.same value then [] else [⟨[], .notEqual value⟩]
  | pattern source p, .string s => if p.occursIn s then [] else [⟨[], .mismatch (.string s) source⟩]
  | pattern _ _, _ => []
  | minLength n, .string s => if n ≤ s.length then [] else [⟨[], .tooShort (.string s) n⟩]
  | minLength _, _ => []
  | minItems n, .array xs => if n ≤ xs.length then [] else [⟨[], .tooShort (.array xs) n⟩]
  | minItems _, _ => []
  | minimum bound, .number x =>
    if x.less bound then [⟨[], .tooSmall (.number x) bound⟩] else []
  | minimum _, _ => []
  | required keys, .object ms =>
    (keys.filter fun k => (Json.lookup? k ms).isNone).map fun k => ⟨[], .missing k⟩
  | required _, _ => []
  | property key rule, .object ms =>
    match Json.lookup? key ms with
    | some v => (check named rule v).map (.under (.key key))
    | none => []
  | property _ _, _ => []
  | others known rule, .object ms =>
    let rest := ms.filter fun m => !known.contains m.1
    match rule with
    | nothing =>
      if rest.isEmpty then []
      else [⟨[], .unexpectedMembers ((Json.sortMembers rest).map (·.1))⟩]
    | rule => rest.flatMap fun m => (check named rule m.2).map (.under (.key m.1))
  | others _ _, _ => []
  | items rule, .array xs =>
    match rule with
    | nothing => if xs.isEmpty then [] else [⟨[], .unexpectedItems xs⟩]
    | rule => xs.zipIdx.flatMap fun (x, i) => (check named rule x).map (.under (.index i))
  | items _, _ => []
  | anyOf options, j => if passesAny named options j then [] else [⟨[], .noOption j⟩]
  | when condition consequence, j =>
    if (check named condition j).isEmpty then check named consequence j else []
  | ref name, j => named name j
termination_by structural s => s

/-- The violations of some rules in a document. -/
def checkAll (named : String → Json → List Violation) : List Schema → Json → List Violation
  | [], _ => []
  | s :: ss, j => check named s j ++ checkAll named ss j
termination_by structural ss => ss

/-- Whether a document passes one of some rules. -/
def passesAny (named : String → Json → List Violation) : List Schema → Json → Bool
  | [], _ => false
  | s :: ss, j => (check named s j).isEmpty || passesAny named ss j
termination_by structural ss => ss

end

/-- A rule together with the schemas that it refers to by name. -/
structure Root where
  rule : Schema
  named : List (String × Schema)
  deriving Repr, Inhabited

namespace Root

/-- The violations of a rule in a document, with names followed a number of times. A name that
belongs to no schema lets every document pass. -/
def checkWithin (named : List (String × Schema)) : Nat → Schema → Json → List Violation
  | 0, _, _ => []
  | allowance + 1, rule, j =>
    rule.check (fun name part =>
      match named.find? (·.1 == name) with
      | some (_, rule) => checkWithin named allowance rule part
      | none => []) j

/-- How often names can be followed in a document before a name is followed into itself. -/
def allowance (r : Root) (j : Json) : Nat :=
  (j.depth + 1) * (r.named.length + 1) + 1

/-- The violations of a document, as they are met. -/
def found (r : Root) (j : Json) : List Violation :=
  checkWithin r.named (r.allowance j) r.rule j

/-- All violations of a document, in the order of their paths and, at one place, of their
wordings. -/
def violations (r : Root) (j : Json) : List Violation :=
  (r.found j).mergeSort fun v w => v.report.le w.report

/-- The wordings of all violations of a document. -/
def errors (r : Root) (j : Json) : List String :=
  (r.violations j).map Violation.message

/-- Lets a document without violations pass, and refuses any other one with the wordings of all its
violations. -/
def enforce (r : Root) (j : Json) : Except (List String) Unit :=
  match r.errors j with
  | [] => .ok ()
  | errors => .error errors

/-- The validator that reports the violations of documents; it meets no fault. -/
def validate (r : Root) : Validator := fun j =>
  .ok ((r.found j).map Violation.report)

end Root
end Schema

/-- The wording of the refusal of a document with some violations. -/
def refusalMessage (errors : List String) : String :=
  .join ["Workflow validation failed:\n- ", "\n- ".intercalate errors]

end FlowScript
