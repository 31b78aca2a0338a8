import FlowScript.Name
import FlowScript.Value.Basic

/-!
# Steps

A workflow is a list of steps. A step is a single action, a branch with two lists of steps, or a
loop with one. Every step has a name, a phrase in words, examples of such phrases, and a
description of who may run it. A step without a phrase is described by what it does, and a step
without examples has its phrase as its example.

## Main definitions

* `Access`: who may run a step.
* `Action`, `Step`: actions and steps.
* `Step.Info.of`: the descriptive part of a step, filled in from what the step does.
* `Step.toJson`: steps in documents.
-/
namespace FlowScript

/-- Inserts a name into a list in order of code points, unless it is there. -/
def insertName (name : String) : List String → List String
  | [] => [name]
  | n :: ns =>
    if name = n then n :: ns else if name < n then name :: n :: ns else n :: insertName name ns

/-- Names in order of code points, each once. -/
def nameSet (names : List String) : List String :=
  names.foldr insertName []

/-- Who may run a step: roles and permissions, in order of code points, each once. -/
structure Access where
  roles : List String
  permissions : List String
  deriving DecidableEq, Repr, Inhabited

namespace Access

/-- Access for some roles with some permissions. -/
def of (roles permissions : List String) : Access :=
  ⟨nameSet roles, nameSet permissions⟩

/-- The roles of every step that says nothing else. -/
def defaultRoles : List String := ["admin", "user"]

/-- The permissions to run workflows. -/
def executePermissions : List String := ["execute_workflow"]

/-- Access to steps that act. -/
def execute : Access := of defaultRoles executePermissions

/-- Access to steps that show something. -/
def view : Access := of defaultRoles ["view_ui"]

/-- Access in documents. -/
def toJson (a : Access) : Json :=
  .object [("roles", .ofStrings a.roles), ("permissions", .ofStrings a.permissions)]

end Access

/-- What a single step does. -/
inductive Action where
  /-- Assigns a value to a variable. -/
  | set (target : String) (value : Value)
  /-- Pauses for some seconds. -/
  | wait (seconds : Json)
  /-- Ends the workflow with a value. -/
  | ret (value : Value)
  /-- Leaves a loop. -/
  | leave
  /-- Stores the answer of an endpoint in a variable. -/
  | call (target endpoint : String)
  /-- Stores the answer of a classifier in a variable. -/
  | analyze (model : String) (input : Tree) (target : String)
  /-- Shows a component. -/
  | render (component target : String) (props : Json.Members)
  /-- Declares a state with its first value. -/
  | state (name : String) (initial : Tree)
  /-- Gives properties to what a selector selects. -/
  | style (selector : String) (properties : List String) (framework : String)
  /-- Runs a handler when something happens. -/
  | listen (event handler : String)
  /-- Does nothing in particular. -/
  | plain
  deriving Repr, Inhabited

namespace Action

/-- The type of an action in documents. -/
def type : Action → String
  | set _ _ => "set"
  | wait _ => "wait"
  | ret _ => "return"
  | leave => "break"
  | call _ _ => "call"
  | analyze _ _ _ => "ai_classify"
  | render _ _ _ => "ui_render"
  | state _ _ => "ui_state"
  | style _ _ _ => "css_style"
  | listen _ _ => "ui_event"
  | plain => ""

/-- What an action does, in words. -/
def describe : Action → String
  | set target value => .join ["set ", target, " to ", value.text]
  | wait seconds => .join ["wait ", seconds.plain, " seconds"]
  | ret value => .join ["return ", value.text]
  | leave => "break"
  | call target endpoint => .join ["call ", endpoint, " store in ", target]
  | analyze model input _ => .join ["analyze ", input.text, " with ", model]
  | render component target _ => .join ["render ", component, " as ", target]
  | state name initial => .join ["state ", name, " as ", initial.text]
  | style selector properties _ =>
    .join ["style ", selector, " with ", ", ".intercalate properties]
  | listen event handler => .join ["on ", event, " execute ", handler]
  | plain => ""

/-- Who may run an action, unless its step says otherwise. -/
def access : Action → Access
  | render _ _ _ => .view
  | state _ _ => .view
  | style _ _ _ => .view
  | listen _ _ => .view
  | _ => .execute

/-- The members of an action in documents. -/
def members : Action → Json.Members
  | set target value => [("target", .string target), ("value", value.toJson)]
  | wait seconds =>
    [("duration", .object [("unit", .string "seconds"), ("value", seconds)])]
  | ret value => [("value", value.toJson)]
  | leave => []
  | call target endpoint => [("target", .string target), ("endpoint", .string endpoint)]
  | analyze model input target =>
    [("model", .string model), ("input", input.toJson), ("target", .string target)]
  | render component target props =>
    [("component", .object [("type", .string component), ("props", .object props),
        ("children", .array []), ("hooks", .array [])]),
      ("target", .string target)]
  | state name initial =>
    [("state", .object [("name", .string name), ("initial", initial.toJson)])]
  | style selector properties framework =>
    [("styles", .object [("selector", .string selector), ("properties", .ofStrings properties),
        ("framework", .string framework)])]
  | listen event handler =>
    [("event", .object [("type", .string event), ("handler", .string handler)])]
  | plain => []

/-- The properties of a component that says nothing else. -/
def defaultProps : Json.Members := [("className", .string "bg-gray-100 p-4")]

/-- The framework of a style that says nothing else. -/
def defaultFramework : String := "tailwind"

end Action

/-- The descriptive part of a step. -/
structure Step.Info where
  id : String
  phrase : String
  examples : List String
  access : Access
  deriving DecidableEq, Repr, Inhabited

/-- A step of a workflow. -/
inductive Step where
  | act (info : Step.Info) (action : Action)
  | branch (info : Step.Info) (condition : Condition) (yes no : List Step)
  | loop (info : Step.Info) (condition : Condition) (body : List Step)
  deriving Repr, Inhabited

namespace Step

/-- The descriptive part of a step: a missing phrase is the description of the step, and missing
examples are its phrase. -/
def Info.of (id description phrase : String) (examples : List String) (access : Access) : Info :=
  let phrase := if phrase.isEmpty then description else phrase
  ⟨id, phrase, if examples.isEmpty then [phrase] else examples, access⟩

/-- A single action as a step that says nothing but a phrase. -/
def single (id : String) (action : Action) (phrase : String) : Step :=
  act (.of id action.describe phrase [] action.access) action

/-- What a branch does, in words. -/
def describeBranch (condition : Condition) : String :=
  .join ["if ", condition.text]

/-- What a loop does, in words. -/
def describeLoop (condition : Condition) : String :=
  .join ["while ", condition.text]

/-- The descriptive part of a step. -/
def info : Step → Info
  | act i _ => i
  | branch i _ _ _ => i
  | loop i _ _ => i

/-- The name of a step. -/
def id (s : Step) : String :=
  s.info.id

/-- The type of a step in documents. -/
def type : Step → String
  | act _ a => a.type
  | branch _ _ _ _ => "if"
  | loop _ _ _ => "while"

/-- The members that all steps have after those of their own. -/
def Info.members (i : Info) : Json.Members :=
  [("nl_phrase", .string i.phrase), ("nl_examples", .ofStrings i.examples),
    ("access_control", i.access.toJson)]

/-- A step in documents, from its own members. -/
def document (info : Info) (type : String) (own : Json.Members) : Json :=
  .object (("id", .string info.id) :: ("type", .string type) :: own ++ info.members)

mutual

/-- A step in documents. -/
def toJson : Step → Json
  | act i a => document i a.type a.members
  | branch i c yes no =>
    document i "if" [("condition", c.toJson), ("then", .array (toJsons yes)),
      ("else", .array (toJsons no))]
  | loop i c body =>
    document i "while" [("condition", c.toJson), ("body", .array (toJsons body))]
termination_by structural s => s

/-- Steps in documents. -/
def toJsons : List Step → List Json
  | [] => []
  | s :: ss => toJson s :: toJsons ss
termination_by structural ss => ss

end

end Step
end FlowScript
