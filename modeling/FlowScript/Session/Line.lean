import FlowScript.Command
import FlowScript.Session.Basic
import FlowScript.Value.Parser

/-!
# Carrying out commands

A line yields the steps of its command, or is reported. Commands inside a command are lines of
their own, one level deeper, and share the session: their steps are numbered when they are reached,
before the command around them unless it is a counted loop, which is numbered first.

## Main definitions

* `Compile.build`: the steps of one command, given how the lines inside it are carried out.
* `Compile.lineWithin`, `Compile.line`: the steps of a line.
-/
namespace FlowScript.Compile

open Text

/-- How lines inside a command are carried out. -/
abbrev Inner := String → Compile (List Step)

/-- A loop that counts up to a number: the counter is set to zero before it and increased at the
end of its body. -/
def countLoop (inner : Inner) (line body times : String) : Compile (List Step) := do
  match ← lift (number? times.toList) with
  | some (.int n) =>
    if (trim body.toList).isEmpty then reject (.badRepeat line)
    else
      let id ← nextId
      let counter := loopCounter id
      recordType counter ValueType.number.name
      let start := Step.single (← nextId) (.set counter (.expr (.ofInt 0))) ""
      let steps ← inner body
      let next := Step.single (← nextId)
        (.set counter (.expr (.binary .add (.var counter) (.ofInt 1)))) ""
      let condition := Condition.compare (.var counter) .less (.ofInt n)
      let info := Step.Info.of id (Step.describeLoop condition) line [] .execute
      return [start, .loop info condition (steps ++ [next])]
  | _ => reject (.badRepeat line)

/-- A branch; the lines inside are carried out first. -/
def branchOf (inner : Inner) (line condition yes : String) (no : Option String) :
    Compile (List Step) := do
  let condition ← lift (Condition.parse condition.toList)
  let yes ← inner yes
  let no ← match no with
    | some no => inner no
    | none => pure []
  let info := Step.Info.of (← nextId) (Step.describeBranch condition) line [] .execute
  return [.branch info condition yes no]

/-- The steps of a template that is called. -/
def invoke (name : String) : Compile (List Step) := do
  match (← get).templates.find? name with
  | none => reject (.unknownTemplate name)
  | some steps =>
    if steps.isEmpty then reject (.emptyTemplate name) else copy steps

/-- The parts of a text between commas, without blanks at their ends, that are not empty. -/
def commaParts (cs : List Char) : List String :=
  (((cs.splitOn ',').map trim).filter (!·.isEmpty)).map String.ofList

/-- The steps of a command. -/
def build (inner : Inner) (line : String) : Command → Compile (List Step)
  | .define name body => do
    let steps ← inner body
    define name steps
    return []
  | .fetch endpoint target => do
    recordType target ValueType.string.name
    return [.single (← nextId) (.call target endpoint)
      (.join ["call ", endpoint, " store in ", target])]
  | .invoke name => invoke name
  | .count body times => countLoop inner line body times
  | .branch condition yes no => branchOf inner line condition yes no
  | .wait seconds => do
    match ← lift (number? seconds.toList) with
    | some (.int n) =>
      if n < 0 then reject (.badWait seconds) else return [.single (← nextId) (.wait (.ofInt n)) ""]
    | _ => reject (.badWait seconds)
  | .set target raw =>
    if isIdentifier target then do
      let value ← lift (Value.read raw.toList)
      recordType target value.type.name
      return [.single (← nextId) (.set target value) (.join ["set ", target, " to ", trimmed raw])]
    else reject (.badVariable target)
  | .leave => return [.single (← nextId) .leave ""]
  | .ret raw =>
    if (trimmed raw).isEmpty then reject .missingValue
    else do
      let id ← nextId
      let value ← lift (Value.read raw.toList)
      return [.single id (.ret value) (.join ["return ", trimmed raw])]
  | .analyze raw model => do
    let target := String.join ["result_", model]
    recordType target ValueType.tensor.name
    let id ← nextId
    let input ← lift (Expr.read raw.toList)
    return [.single id (.analyze model input.tree target)
      (.join ["analyze ", raw, " with ", model])]
  | .render component target =>
    return [.single (← nextId) (.render component target Action.defaultProps) ""]
  | .state name raw => do
    let id ← nextId
    let initial ← lift (Expr.read raw.toList)
    return [.single id (.state name initial.tree) (.join ["state ", name, " as ", trimmed raw])]
  | .style selector raw =>
    return [.single (← nextId) (.style selector (commaParts raw.toList) Action.defaultFramework)
      (.join ["style ", selector, " with ", trimmed raw])]
  | .listen event handler => return [.single (← nextId) (.listen event handler) ""]

/-- The steps of a line, read by some rules. The allowance bounds how many more commands may lie
inside each other. -/
def lineWithin (rules : List Rule) : Nat → Inner
  | 0, text => reject (.tooDeep (trimmed text))
  | allowance + 1, text => do
    let line := trimmed text
    match Command.read? rules line with
    | none => reject (.unrecognized line)
    | some (verb, command) =>
      tell (.dispatched line verb)
      nested (build (lineWithin rules allowance) line command)

/-- How many more commands may lie inside each other at a level. -/
def allowance (nesting : Int) : Nat :=
  (maxNesting - nesting).toNat

/-- The steps of a line. -/
def line (text : String) : Compile (List Step) := do
  lineWithin Command.rules (allowance (← get).nesting) text

end FlowScript.Compile
