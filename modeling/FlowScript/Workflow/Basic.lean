import FlowScript.Json.Printer
import FlowScript.Session.Line
import FlowScript.Text.Blank
import FlowScript.Workflow.Signature

/-!
# Workflows

A workflow is what command text amounts to: its steps, and the signature derived from them. Its
document describes it in full, together with the options it was compiled with.

## Main definitions

* `Workflow`, `Workflow.assemble`: workflows, and the workflow of a text in a session.
* `Options`: what the caller says about a workflow.
* `Workflow.toJson`: the document of a workflow.
* `Workflow.records`: what is recorded about each step.
-/
namespace FlowScript

/-- A workflow: the name of its function, its steps, the types of its inputs, outputs and
variables, the classifiers it asks, and the line it began with. -/
structure Workflow where
  function : String
  steps : List Step
  inputs : Registry String
  outputs : Registry String
  types : Registry String
  models : List String
  prompt : String
  deriving Repr, Inhabited

/-- What the caller says about a workflow. -/
structure Options where
  author : String := "stepweave"
  version : String := "1.0.0"
  description : String := "Workflow compiled from line-oriented commands"
  tags : List String := ["workflow", "generated"]
  language : String := "en"
  intent : String := "automation"
  sentiment : String := "neutral"
  maxRunsPerMinute : Int := 60
  maxConcurrentRuns : Int := 10
  priority : String := "medium"
  timeout : Int := 300
  deriving DecidableEq, Repr, Inhabited

/-- The version of the documents' form. -/
def schemaVersion : String := "2.0.0"

/-- The time at which a document is written, from the time of a clock: without fractions of a
second, in universal time. -/
def timeStamp (clock : String) : String :=
  String.ofList (clock.toList.takeWhile (· ≠ '.')) ++ "Z"

namespace Workflow

/-- The types of some variables; a variable without type is text. -/
def typed (types : Registry String) (names : List String) : Registry String :=
  .ofList (names.map fun name => (name, (types.find? name).getD ValueType.string.name))

/-- The steps of some lines, carried out in order. -/
def stepsOf : List String → Compile (List Step)
  | [] => return []
  | line :: lines => do
    let steps ← Compile.line line
    return steps ++ (← stepsOf lines)

/-- The workflow of a text. -/
def assemble (function text : String) : Compile Workflow := do
  let lines := Text.commandLines text
  let steps ← stepsOf lines
  let types := (← get).types
  return {
    function
    steps
    inputs := typed types (Step.allReads steps)
    outputs := typed types (Step.allWrites steps)
    types
    models := Step.allModels steps
    prompt := lines.headD "" }

/-! ## Documents -/

/-- An object with a member for each name. -/
def byName (names : List String) (value : String → Json) : Json :=
  .object ((distinct names).map fun name => (name, value name))

/-- An object with a member for each typed variable. -/
def byVariable (r : Registry String) (value : String → String → Json) : Json :=
  .object (r.entries.map fun (name, type) => (name, value name type))

/-- What the caller says about a workflow, in its document. -/
def metadata (o : Options) (stamp : String) : Json :=
  .object [
    ("schema_version", .string schemaVersion),
    ("version", .string o.version),
    ("author", .string o.author),
    ("description", .string o.description),
    ("created", .string stamp),
    ("updated", .string stamp),
    ("tags", .ofStrings o.tags),
    ("language", .string o.language)]

/-- The signature of a workflow, in its document. -/
def signature (w : Workflow) (o : Options) : Json :=
  .object [
    ("inputs", byVariable w.inputs fun name type =>
      .object [("type", .string type), ("required", .bool true),
        ("description", .string (.join ["Input ", name]))]),
    ("context", .object []),
    ("outputs", byVariable w.outputs fun name type =>
      .object [("type", .string type), ("description", .string (.join ["Output ", name]))]),
    ("nl_context", .object [
      ("prompts", .array [
        .object [("language", .string o.language), ("text", .string w.prompt)]]),
      ("entities", byVariable w.types fun _ type => .string type),
      ("intent", .string o.intent),
      ("sentiment", .string o.sentiment)])]

/-- How a workflow may be run, in its document. -/
def executionPolicy (o : Options) : Json :=
  .object [
    ("max_runs_per_minute", .ofInt o.maxRunsPerMinute),
    ("max_concurrent_runs", .ofInt o.maxConcurrentRuns),
    ("priority", .string o.priority),
    ("timeout", .ofInt o.timeout)]

/-- The entry of a classifier, in a document. -/
def modelEntry (name : String) : Json :=
  .object [("name", .string name), ("version", .string "1.0.0"), ("type", .string "classifier"),
    ("source", .string "local"), ("capabilities", .ofStrings ["classification"])]

/-- The one test of a workflow: all inputs and outputs are left open. -/
def smokeTest (w : Workflow) : Json :=
  .object [("name", .string "SmokeTest"), ("type", .string "unit"),
    ("inputs", byName w.inputs.names fun _ => .null),
    ("expected", byName w.outputs.names fun _ => .null)]

/-- The document of a workflow, written at a time. -/
def toJson (w : Workflow) (o : Options) (stamp : String) : Json :=
  .object [
    ("function", .string w.function),
    ("metadata", metadata o stamp),
    ("schema", signature w o),
    ("steps", .array (Step.toJsons w.steps)),
    ("access_policy", Access.execute.toJson),
    ("execution_policy", executionPolicy o),
    ("model_registry", byName w.models modelEntry),
    ("tests", .array [smokeTest w])]

/-! ## Records -/

/-- What is recorded about a step. -/
structure Record where
  operation : String
  input : String
  output : String
  step : String
  depth : Nat
  workflow : String
  deriving DecidableEq, Repr, Inhabited

/-- The record of a step at a depth. -/
def record (function : String) (visit : Step × Nat) : Record :=
  { operation := visit.1.type
    input := visit.1.info.phrase
    output := visit.1.toJson.canonical
    step := visit.1.id
    depth := visit.2
    workflow := function }

/-- The records of all steps, in the order of a walk. -/
def records (w : Workflow) : List Record :=
  (Step.walkAll 0 w.steps).map (record w.function)

end Workflow
end FlowScript
