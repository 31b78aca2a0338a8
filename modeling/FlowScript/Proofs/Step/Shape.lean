import FlowScript.Name
import FlowScript.Proofs.Expr.WellFormed
import FlowScript.Proofs.Name

/-!
# Well-formed documents of steps

Which documents are steps is said here member by member, and by recursion where expressions,
conditions and steps lie inside each other. Nothing is said about members that are not named, and an
object may have any number of them.

## Main definitions

* `Json.Has`, `Json.May`: what is said of a member that must, or may, be there.
* `Json.IsExpression`, `Json.IsCondition`: what steps compute.
* `Json.stepFields?`: the members that a type of steps requires.
* `Json.IsStep`: the documents of steps.
-/
namespace FlowScript.Json

/-- There is a member with a key, and it has a property. -/
def Has (ms : Members) (key : String) (p : Json → Prop) : Prop :=
  ∃ v, lookup? key ms = some v ∧ p v

/-- A member with a key has a property, if it is there. -/
def May (ms : Members) (key : String) (p : Json → Prop) : Prop :=
  ∀ v, lookup? key ms = some v → p v

theorem has_iff {ms : Members} {key : String} {p : Json → Prop} :
    Has ms key p ↔ (lookup? key ms).isSome ∧ May ms key p := by
  cases h : lookup? key ms <;> simp [Has, May, h]

/-! ## Simple forms -/

/-- A text. -/
def IsText (j : Json) : Prop :=
  ∃ s, j = string s

/-- A text that is not empty. -/
def IsSomeText (j : Json) : Prop :=
  ∃ s, j = string s ∧ s ≠ ""

/-- One of some texts. -/
def IsOneOf (ss : List String) (j : Json) : Prop :=
  ∃ s ∈ ss, j = string s

/-- The name of a variable. -/
def IsVariable (j : Json) : Prop :=
  ∃ s, j = string s ∧ isIdentifier s

/-- A whole number that is not negative. -/
def IsCount (j : Json) : Prop :=
  ∃ n, j = number n ∧ n.isWhole ∧ n.less (.int 0) = false

/-- An array. -/
def IsArray (j : Json) : Prop :=
  ∃ xs, j = array xs

/-- An object. -/
def IsObject (j : Json) : Prop :=
  ∃ ms, j = object ms

/-- An array of texts. -/
def IsTexts (j : Json) : Prop :=
  ∃ xs, j = array xs ∧ ∀ x ∈ xs, IsText x

/-- An array of texts that is not empty. -/
def IsSomeTexts (j : Json) : Prop :=
  ∃ xs, j = array xs ∧ xs ≠ [] ∧ ∀ x ∈ xs, IsText x

/-! ## Expressions and conditions -/

/-- The documents of expressions. -/
inductive IsExpression : Json → Prop
  | literal {ms : Members} (type : lookup? "type" ms = some (string "Literal"))
      (value : Has ms "value" (·.isLiteral)) : IsExpression (object ms)
  | var {ms : Members} (type : lookup? "type" ms = some (string "VariableRef"))
      (name : Has ms "name" IsSomeText) : IsExpression (object ms)
  | binary {ms : Members} {left right : Json} (type : lookup? "type" ms = some (string "BinaryOp"))
      (op : Has ms "op" (IsOneOf ["add", "subtract", "multiply", "divide"]))
      (hasLeft : lookup? "left" ms = some left) (hasRight : lookup? "right" ms = some right)
      (isLeft : IsExpression left) (isRight : IsExpression right) : IsExpression (object ms)
  | classify {ms : Members} {input : Json} (type : lookup? "type" ms = some (string "Classify"))
      (model : Has ms "model" IsText) (hasInput : lookup? "input" ms = some input)
      (isInput : IsExpression input) : IsExpression (object ms)

/-- The documents of conditions. -/
inductive IsCondition : Json → Prop
  | compare {ms : Members} (type : lookup? "type" ms = some (string "Compare"))
      (op : Has ms "op" (IsOneOf [">=", "<=", "===", "!==", "==", "!=", ">", "<"]))
      (left : Has ms "left" IsExpression) (right : Has ms "right" IsExpression) :
      IsCondition (object ms)
  | join {ms : Members} {left right : Json} (type : Has ms "type" (IsOneOf ["And", "Or"]))
      (hasLeft : lookup? "left" ms = some left) (hasRight : lookup? "right" ms = some right)
      (isLeft : IsCondition left) (isRight : IsCondition right) : IsCondition (object ms)
  | contains {ms : Members} (type : lookup? "type" ms = some (string "RegexContains"))
      (input : Has ms "input" IsText) (pattern : Has ms "pattern" IsText) :
      IsCondition (object ms)

/-! ## Steps -/

/-- Who may run a step. -/
def IsAccess (j : Json) : Prop :=
  ∃ ms, j = object ms ∧ Has ms "roles" IsSomeTexts ∧ Has ms "permissions" IsSomeTexts

/-- How long a step waits. -/
def IsDuration (j : Json) : Prop :=
  ∃ ms, j = object ms ∧ Has ms "unit" (· = string "seconds") ∧ Has ms "value" IsCount

/-- What a step shows. -/
def IsComponent (j : Json) : Prop :=
  ∃ ms, j = object ms ∧ Has ms "type" IsText ∧ May ms "props" IsObject ∧
    May ms "children" IsArray ∧ May ms "hooks" IsArray

/-- A state with its first value. -/
def IsState (j : Json) : Prop :=
  ∃ ms, j = object ms ∧ Has ms "name" IsText ∧ Has ms "initial" IsExpression

/-- The properties of what a selector selects. -/
def IsStyles (j : Json) : Prop :=
  ∃ ms, j = object ms ∧ Has ms "properties" IsTexts ∧ May ms "selector" IsText ∧
    May ms "framework" IsText

/-- What happens, and what is run then. -/
def IsEvent (j : Json) : Prop :=
  ∃ ms, j = object ms ∧ Has ms "type" IsText ∧ Has ms "handler" IsText

/-- The members that steps of a type require, for the types that there are. -/
def stepFields? : String → Option (List String)
  | "set" => some ["target", "value"]
  | "if" => some ["condition", "then"]
  | "while" => some ["condition", "body"]
  | "wait" => some ["duration"]
  | "return" => some ["value"]
  | "break" => some []
  | "call" => some ["target", "endpoint"]
  | "ai_classify" => some ["model", "input", "target"]
  | "ui_render" => some ["component", "target"]
  | "ui_state" => some ["state"]
  | "css_style" => some ["styles"]
  | "ui_event" => some ["event"]
  | _ => none

/-- The members with steps inside. -/
def branchKeys : List String :=
  ["then", "else", "body"]

/-- The members that every step has. -/
structure IsDescribed (ms : Members) : Prop where
  id : Has ms "id" fun v => ∃ s, v = string s ∧ IsStepName s
  phrase : Has ms "nl_phrase" IsText
  examples : Has ms "nl_examples" IsSomeTexts
  access : Has ms "access_control" IsAccess

/-- Every member that steps of some type have is of its form, whatever the type of the step. -/
structure HasForms (ms : Members) : Prop where
  target : May ms "target" IsVariable
  value : May ms "value" fun v => IsExpression v ∨ IsCondition v
  condition : May ms "condition" IsCondition
  duration : May ms "duration" IsDuration
  endpoint : May ms "endpoint" IsSomeText
  model : May ms "model" IsSomeText
  input : May ms "input" IsExpression
  component : May ms "component" IsComponent
  state : May ms "state" IsState
  styles : May ms "styles" IsStyles
  event : May ms "event" IsEvent

/-- The documents of steps. -/
inductive IsStep : Json → Prop
  | intro {ms : Members} {type : String} {fields : List String} (described : IsDescribed ms)
      (hasType : lookup? "type" ms = some (string type)) (known : stepFields? type = some fields)
      (required : ∀ key ∈ fields, (lookup? key ms).isSome) (forms : HasForms ms)
      (arrays : ∀ key ∈ branchKeys, May ms key IsArray)
      (inside : ∀ key ∈ branchKeys, ∀ xs, lookup? key ms = some (array xs) → ∀ x ∈ xs, IsStep x) :
      IsStep (object ms)

end FlowScript.Json
