import FlowScript.Event
import FlowScript.Registry
import FlowScript.Step.Walk

/-!
# Sessions

Lines of command text are carried out one after another in a session, which holds what the lines
share: the number of the next step, the types of the variables written so far, the templates
defined so far, the events so far, and how deep the current command lies inside others.

## Main definitions

* `Session`: the shared state.
* `Compile`: computations in a session that may meet a fault; what they did before a fault stays.
* `Compile.nextId`, `Compile.report`, `Compile.expand`: the operations of a session.
-/
namespace FlowScript

/-- What lines of command text share. -/
structure Session where
  /-- The number of the next step. -/
  counter : Int := 1
  /-- The types of variables; the last one counts. -/
  types : Registry String := .empty
  /-- The steps of the templates. -/
  templates : Registry (List Step) := .empty
  /-- What has happened, in order. -/
  journal : List Event := []
  /-- How many commands lie around the current one. -/
  nesting : Int := 0
  deriving Repr, Inhabited

/-- The diagnostics so far, in order. -/
def Session.diagnostics (s : Session) : List Diagnostic :=
  s.journal.filterMap Event.diagnostic?

/-- Computations in a session. -/
abbrev Compile := EStateM Fault Session

namespace Compile

/-- Ends with a fault, or goes on with a value. -/
def lift {α : Type} : Except Fault α → Compile α
  | .ok a => pure a
  | .error f => throw f

/-- The name of the next step. -/
def nextId : Compile String :=
  modifyGet fun s => (stepId s.counter, { s with counter := s.counter + 1 })

/-- Tells an event. -/
def tell (e : Event) : Compile Unit :=
  modify fun s => { s with journal := s.journal ++ [e] }

/-- Reports a diagnostic. -/
def report (d : Diagnostic) : Compile Unit :=
  tell (.reported d)

/-- Reports a diagnostic in place of steps. -/
def reject (d : Diagnostic) : Compile (List Step) := do
  report d
  return []

/-- Records the type of a variable. -/
def recordType (name type : String) : Compile Unit :=
  modify fun s => { s with types := s.types.insert name type }

/-- Defines a template. -/
def define (name : String) (steps : List Step) : Compile Unit :=
  modify fun s => { s with templates := s.templates.insert name steps }

/-- A copy of some steps under new names. -/
def copy (steps : List Step) : Compile (List Step) :=
  modifyGet fun s =>
    let (steps, counter) := Step.renumberAll s.counter steps
    (steps, { s with counter })

/-- A copy of the steps of a template, which must have been defined. -/
def expand (name : String) : Compile (List Step) := do
  match (← get).templates.find? name with
  | some steps => copy steps
  | none => throw (.noTemplate name)

/-- Carries out a computation one level deeper. The level is restored also after a fault. -/
def nested {α : Type} (c : Compile α) : Compile α := fun s =>
  match c { s with nesting := s.nesting + 1 } with
  | .ok a s => .ok a { s with nesting := s.nesting - 1 }
  | .error f s => .error f { s with nesting := s.nesting - 1 }

end Compile
end FlowScript
