import FlowScript.Step.Basic
import FlowScript.Tree.Reader

/-!
# Reading steps

Steps are also given in documents of their own. A step says only what differs from the rest: its
phrase, its examples and who may run it may all be missing.

The trees of a given step may be of the wrong kind. A step without a phrase has to be described, and
so the fault shows as soon as the step is made, after those of the steps inside it. A step with a
phrase is made in any case, and the fault shows only when all steps are looked at, each before the
steps inside it. Reading has therefore two stages: it makes the steps, and what it has made is
either steps or the first fault that shows later.

## Main definitions

* `Made`: what has been made in the first stage.
* `Action.ofJson`: the action that a document gives.
* `Step.ofJson`, `Step.ofJsons`: the step and the steps that documents give.
-/
namespace FlowScript

/-- What has been made, or the first fault that shows when it is looked at. -/
abbrev Made (α : Type) := Except Fault α

namespace Json

/-- The text of a member; a member that is no text counts as empty. -/
def textOrEmpty (j : Json) (key : String) : String :=
  (j.textOf? key).getD ""

/-- The texts in a document that is an array. -/
def texts : Json → List String
  | array xs => xs.filterMap fun x => match x with
    | string s => some s
    | _ => none
  | _ => []

/-- The texts in a member that is an array. -/
def textsOf (j : Json) (key : String) : List String :=
  ((j.member? key).map texts).getD []

end Json

/-! ## What a step says about itself -/

/-- Who may run a given step. A step that names only roles or only permissions has the usual ones
of the other kind. -/
def Access.ofJson (j : Json) (otherwise : Access) : Access :=
  match j.member? "roles", j.member? "permissions" with
  | none, none => otherwise
  | roles, permissions =>
    .of ((roles.map Json.texts).getD defaultRoles)
      ((permissions.map Json.texts).getD executePermissions)

/-- The descriptive part of a given step, from a description of what it does. -/
def Step.Info.ofJson (j : Json) (description : String) (otherwise : Access) : Step.Info :=
  .of (j.textOrEmpty "id") description (j.textOrEmpty "nl_phrase") (j.textsOf "nl_examples")
    (.ofJson j otherwise)

/-! ## What a step does -/

/-- The tree in a member. What is no tree is shown in the fault. -/
def Tree.ofMember (missing : String → Fault) (j : Json) (key : String) : Except Fault Tree := do
  let node := (j.member? key).getD .null
  match ← Tree.ofJson node with
  | some t => return t
  | none => throw (missing node.shown)

/-- Something that the description of a given step needs. Its fault shows at once if the step has
no phrase. -/
def Made.described {α : Type} (j : Json) (a : Except Fault α) : Except Fault (Made α) :=
  if (j.textOrEmpty "nl_phrase").isEmpty then a.map .ok else .ok a

/-- The action that a document gives. -/
def Action.ofJson (j : Json) : Except Fault (Made Action) :=
  let text := j.textOrEmpty
  match text "type" with
  | "set" => do
    let t ← Tree.ofMember .notExpression j "value"
    let value ← Made.described j t.value?
    return value.map (.set (text "target"))
  | "wait" => .ok (.ok (.wait ((j.member? "seconds").getD .null)))
  | "return" => do
    let t ← Tree.ofMember .notExpression j "value"
    let value ← Made.described j t.value?
    return value.map .ret
  | "break" => .ok (.ok .leave)
  | "call" => .ok (.ok (.call (text "target") (text "endpoint")))
  | "ai_classify" => do
    let t ← Tree.ofMember .notExpression j "input"
    discard (Made.described j t.expr?)
    return .ok (.analyze (text "model") t (text "target"))
  | "ui_render" =>
    let props := match j.member? "props" with
      | some (.object ms) => ms
      | _ => Action.defaultProps
    .ok (.ok (.render (text "component") (text "target") props))
  | "ui_state" => do
    let t ← Tree.ofMember .notExpression j "initial"
    discard (Made.described j t.expr?)
    return .ok (.state (text "name") t)
  | "css_style" =>
    .ok (.ok (.style (text "selector") (j.textsOf "properties")
      ((j.textOf? "framework").getD Action.defaultFramework)))
  | "ui_event" => .ok (.ok (.listen (text "event") (text "handler")))
  | _ => .ok (.ok .plain)

/-! ## Steps -/

namespace Step

/-- What has been made of the steps in a member; without such a member there are no steps. -/
def part (key : String) (parts : List (String × Except Fault (Made (List Step)))) :
    Except Fault (Made (List Step)) :=
  match parts.find? (·.1 == key) with
  | some (_, part) => part
  | none => .ok (.ok [])

/-- The step that a document gives, from what has been made of the steps inside it. -/
def node (j : Json) (parts : List (String × Except Fault (Made (List Step)))) :
    Except Fault (Made Step) :=
  match j.textOf? "type" with
  | some "if" => do
    let t ← Tree.ofMember .notCondition j "condition"
    let yes ← part "then" parts
    let no ← part "else" parts
    let condition ← Made.described j t.condition?
    return do
      let c ← condition
      return branch (.ofJson j (describeBranch c) .execute) c (← yes) (← no)
  | some "while" => do
    let t ← Tree.ofMember .notCondition j "condition"
    let body ← part "body" parts
    let condition ← Made.described j t.condition?
    return do
      let c ← condition
      return loop (.ofJson j (describeLoop c) .execute) c (← body)
  | _ => do
    let action ← Action.ofJson j
    return action.map fun a => act (.ofJson j a.describe a.access) a

mutual

/-- The step that a document gives. -/
def ofJson : Json → Except Fault (Made Step)
  | .object ms => node (.object ms) (ofMembers ms)
  | j => node j []
termination_by structural j => j

/-- The steps that documents give, made in order. -/
def ofJsons : List Json → Except Fault (Made (List Step))
  | [] => .ok (.ok [])
  | j :: js => do
    let s ← ofJson j
    let ss ← ofJsons js
    return do
      return (← s) :: (← ss)
termination_by structural js => js

/-- What is made of the members of a document that are arrays. -/
def ofMembers : Json.Members → List (String × Except Fault (Made (List Step)))
  | [] => []
  | (k, .array js) :: ms => (k, ofJsons js) :: ofMembers ms
  | _ :: ms => ofMembers ms
termination_by structural ms => ms

end

end Step
end FlowScript
