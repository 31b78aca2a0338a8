import FlowScript.Schema.Store
import FlowScript.Workflow.Basic
import FlowScript.Workflow.Diagram

/-!
# Compiling command text

Command text is compiled into a workflow whose document must pass a schema. Problems of single
lines do not prevent this; text without content, a schema that cannot be had and whatever the
validator reports do. What the outcome holds follows from its form: only an accepted workflow has a
diagram and is recorded.

## Main definitions

* `Outcome`: the four ways in which compiling ends.
* `compile`: the outcome of a text, with what happened.
-/
namespace FlowScript

/-- How compiling ends. -/
inductive Outcome where
  /-- There is no text. -/
  | empty
  /-- There is no schema to check the document with. -/
  | unchecked (document : Json) (diagnostics : List Diagnostic) (error : LoadError)
  /-- The document violates the schema. -/
  | refused (document : Json) (diagnostics : List Diagnostic) (errors : List String)
  /-- The document passes the schema. -/
  | accepted (workflow : Workflow) (document : Json) (diagnostics : List Diagnostic)
  deriving Repr, Inhabited

namespace Outcome

/-- What is said about text without content. -/
def emptyMessage : String := "Input must be a non-empty string"

/-- The accepted workflow. -/
def workflow? : Outcome → Option Workflow
  | accepted w _ _ => some w
  | _ => none

/-- The document, if there was any text. -/
def document? : Outcome → Option Json
  | empty => none
  | unchecked j _ _ => some j
  | refused j _ _ => some j
  | accepted _ j _ => some j

/-- The diagnostics in words: those of the lines, and then why no workflow was accepted. -/
def messages : Outcome → List String
  | empty => [emptyMessage]
  | unchecked _ ds e => ds.map Diagnostic.message ++ [e.message]
  | refused _ ds errors => ds.map Diagnostic.message ++ errors
  | accepted _ _ ds => ds.map Diagnostic.message

/-- The diagram of the accepted workflow. -/
def diagram? (o : Outcome) : Option String :=
  o.workflow?.map fun w => Diagram.render w.steps

/-- The records of the accepted workflow. -/
def records (o : Outcome) : List Workflow.Record :=
  (o.workflow?.map Workflow.records).getD []

end Outcome

/-- The outcome for a workflow that has been assembled, and what happened. -/
def judge (w : Workflow) (document : Json) (diagnostics : List Diagnostic)
    (schema : Except Unloaded Validator) : Except Fault (Outcome × Event) :=
  match schema with
  | .error (.fault f) => .error f
  | .error (.error e) => .ok (.unchecked document diagnostics e, .schemaUnavailable e.message)
  | .ok validate =>
    match validate document with
    | .error f => .error f
    | .ok reports =>
      match Report.listed reports with
      | [] =>
        .ok (.accepted w document diagnostics,
          .compiled w.function w.steps.length w.inputs.entries.length w.outputs.entries.length
            diagnostics.length)
      | errors => .ok (.refused document diagnostics errors, .refused w.function errors.length)

/-- The outcome of compiling a text, and what happened. The workflow is named by a function name,
and its document is written at a time. -/
def compile (text : Option String) (function stamp : String) (options : Options)
    (schema : Except Unloaded Validator) : Except Fault (Outcome × List Event) :=
  match text with
  | none => .ok (.empty, [])
  | some text =>
    if (Text.trimmed text).isEmpty then .ok (.empty, [])
    else match Workflow.assemble function text {} with
      | .error f _ => .error f
      | .ok w session => do
        let (outcome, event) ← judge w (w.toJson options stamp) session.diagnostics schema
        return (outcome, session.journal ++ [event])

end FlowScript
