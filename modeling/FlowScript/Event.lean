import FlowScript.Diagnostic
import FlowScript.Text.Quoted

/-!
# Events

What happens while command text is compiled is told as a sequence of events. Each has a level, the
part of the program it comes from, and a wording.

## Main definitions

* `Event`: what can happen.
* `Event.level`, `Event.source`, `Event.message`: how an event is told.
-/
namespace FlowScript

/-- The levels of events, the least urgent first. -/
inductive Level where
  | debug
  | info
  | warning
  | error
  | critical
  deriving DecidableEq, Repr, Inhabited

namespace Level

/-- The number of a level; more urgent levels have larger ones. -/
def number : Level → Nat
  | debug => 10
  | info => 20
  | warning => 30
  | error => 40
  | critical => 50

/-- The name of a level. -/
def name : Level → String
  | debug => "DEBUG"
  | info => "INFO"
  | warning => "WARNING"
  | error => "ERROR"
  | critical => "CRITICAL"

end Level

/-- What happens while command text is compiled. -/
inductive Event where
  /-- A line is read as the command of a verb. -/
  | dispatched (line verb : String)
  /-- A line is reported. -/
  | reported (diagnostic : Diagnostic)
  /-- The schema cannot be had. -/
  | schemaUnavailable (reason : String)
  /-- The document of a workflow has violations. -/
  | refused (workflow : String) (violations : Nat)
  /-- A workflow is complete: the numbers of its top-level steps, inputs, outputs and
  diagnostics. -/
  | compiled (workflow : String) (steps inputs outputs diagnostics : Nat)
  deriving DecidableEq, Repr, Inhabited

namespace Event

/-- The level of an event. -/
def level : Event → Level
  | dispatched _ _ => .debug
  | reported _ => .info
  | schemaUnavailable _ => .warning
  | refused _ _ => .warning
  | compiled _ _ _ _ _ => .debug

/-- The part of the program that an event comes from. -/
def source : Event → String
  | dispatched _ _ => "stepweave.commands"
  | reported _ => "stepweave.context"
  | schemaUnavailable _ => "stepweave.compiler"
  | refused _ _ => "stepweave.compiler"
  | compiled _ _ _ _ _ => "stepweave.compiler"

/-- The wording of an event. -/
def message : Event → String
  | dispatched line verb => .join ["dispatch ", Text.quoted line, " -> ", verb]
  | reported d => .join ["diagnostic: ", d.message]
  | schemaUnavailable reason => .join ["schema unavailable: ", reason]
  | refused workflow n =>
    .join ["workflow ", workflow, " failed validation with ", toString n, " error(s)"]
  | compiled workflow steps inputs outputs diagnostics =>
    .join ["compiled ", workflow, ": ", toString steps, " top-level steps, ", toString inputs,
      " inputs, ", toString outputs, " outputs, ", toString diagnostics, " diagnostics"]

/-- The diagnostic that an event reports. -/
def diagnostic? : Event → Option Diagnostic
  | reported d => some d
  | _ => none

end Event
end FlowScript
