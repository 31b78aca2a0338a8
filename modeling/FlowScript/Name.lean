import FlowScript.Fault
import FlowScript.Text.Digit
import FlowScript.Text.Word

/-!
# Names

Variables are named by words. Steps are named by their numbers, the counter of a loop by the loop's
step, and a workflow by a seed.
-/
namespace FlowScript

/-- Whether a text, up to one final line feed, is a word. -/
def isIdentifier (s : String) : Bool :=
  let cs := s.toList
  Text.isWordRun (if cs.getLast? = some '\n' then cs.dropLast else cs)

/-- The name of the step with a number. -/
def stepId (n : Int) : String :=
  .join ["step", toString n]

/-- The number of the step with a name, up to one final line feed; undefined for other names. -/
def stepNumber? (name : String) : Except Fault (Option Nat) :=
  let cs := name.toList
  let line := if cs.getLast? = some '\n' then cs.dropLast else cs
  match "step".toList.isPrefixOf line, line.drop 4 with
  | true, digits =>
    if !digits.isEmpty && digits.all Char.isDigit then
      if maxDigits < digits.length then .error (.tooManyDigits digits.length)
      else .ok (some (Text.digitsValue digits))
    else .ok none
  | false, _ => .ok none

/-- The name of the counter of a loop, from the name of the loop's step. -/
def loopCounter (id : String) : String :=
  .join ["_loop_counter_", id]

/-- The name of the workflow with a seed. -/
def workflowName (seed : String) : String :=
  .join ["workflow_", seed]

end FlowScript
