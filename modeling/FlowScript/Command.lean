import FlowScript.Text.Digit
import FlowScript.Text.Scan

/-!
# Commands

A line of command text is one command. Its verb stands first, in any case, and keywords separate
its parts; the parts themselves are read when the command is carried out.

## Main definitions

* `Command`: the commands, with the texts of their parts.
* `Rule`: the form of a command, with its verb.
* `Command.rules`: the forms of all commands, in the order in which they are tried.
* `Command.read?`: the command that a line is, with its verb.
-/
namespace FlowScript

open Text

/-- A command, with the texts of its parts. -/
inductive Command where
  /-- Defines a template by a command. -/
  | define (name body : String)
  /-- Stores the answer of an endpoint in a variable. -/
  | fetch (endpoint target : String)
  /-- Inserts the steps of a template. -/
  | invoke (name : String)
  /-- Carries out a command a number of times. -/
  | count (body times : String)
  /-- Carries out one command or another. -/
  | branch (condition yes : String) (no : Option String)
  /-- Pauses for some seconds. -/
  | wait (seconds : String)
  /-- Assigns a value to a variable. -/
  | set (target value : String)
  /-- Leaves a loop. -/
  | leave
  /-- Ends the workflow with a value. -/
  | ret (value : String)
  /-- Stores the answer of a classifier. -/
  | analyze (input model : String)
  /-- Shows a component. -/
  | render (component target : String)
  /-- Declares a state with its first value. -/
  | state (name initial : String)
  /-- Gives properties to what a selector selects. -/
  | style (selector properties : String)
  /-- Runs a handler when something happens. -/
  | listen (event handler : String)
  deriving DecidableEq, Repr, Inhabited

/-- The form of a command, with its verb. -/
structure Rule where
  verb : String
  read : Scan Command

namespace Command

open Scan

/-- A keyword between blanks. -/
def between {α : Type} (word : String) (next : Scan α) : Scan α :=
  gap (keyword word (gap next))

/-- A command of two parts. -/
def pair (make : String → String → Command) (a b : List Char) : Command :=
  make (String.ofList a) (String.ofList b)

/-- `macro NAME BODY` -/
def defineForm : Scan Command :=
  keyword "macro" (gap (word fun name => gap (rest (pair define name))))

/-- `call ENDPOINT store in TARGET` -/
def fetchForm : Scan Command :=
  keyword "call" (gap (solid fun endpoint =>
    gap (keyword "store" (between "in" (word fun target => done (pair fetch endpoint target))))))

/-- `call NAME` -/
def invokeForm : Scan Command :=
  keyword "call" (gap (word fun name => done (invoke (String.ofList name))))

/-- `BODY COUNT times` after the verb and at least one blank. -/
def countedBody : Scan Command :=
  slack (map (fun (body, times) => pair count body times) (shortest
    (gap (some1 isDigit fun times => gap (keyword "times" (done times))))))

/-- `repeat BODY COUNT times`, also with `loop` -/
def repeatForm : Scan Command :=
  either (keyword "repeat" countedBody) (keyword "loop" countedBody)

/-- `for COUNT times BODY` -/
def forForm : Scan Command :=
  keyword "for" (gap (some1 isDigit fun times =>
    between "times" (rest fun body => pair count body times)))

/-- The end of a branch without alternative, or ` else COMMAND`. -/
def alternative : Scan (Option String) :=
  either (between "else" (rest fun no => some (String.ofList no))) (done none)

/-- `if CONDITION then COMMAND`, with `else COMMAND` or without -/
def branchForm : Scan Command :=
  keyword "if" (slack (map
    (fun (condition, yes, no) => branch (String.ofList condition) (String.ofList yes) no)
    (shortest (gap (keyword "then" (slack (shortest alternative)))))))

/-- `wait SECONDS seconds`, also with `second` -/
def waitForm : Scan Command :=
  keyword "wait" (gap (solid fun seconds =>
    let command := wait (String.ofList seconds)
    gap (keyword "second" (either (keyword "s" (done command)) (done command)))))

/-- `set TARGET to VALUE`, also with `assign` -/
def setForm : Scan Command :=
  let parts := gap (solid fun target => between "to" (rest fun value => pair set target value))
  either (keyword "set" parts) (keyword "assign" parts)

/-- `break` -/
def leaveForm : Scan Command :=
  keyword "break" (done leave)

/-- `return VALUE`, also without value -/
def retForm : Scan Command :=
  keyword "return"
    (either (done (ret "")) (gap (rest fun value => ret (String.ofList value))))

/-- `analyze INPUT with MODEL` -/
def analyzeForm : Scan Command :=
  keyword "analyze" (slack (map (fun (input, model) => pair analyze input model)
    (shortest (between "with" (word done)))))

/-- `render COMPONENT as TARGET` -/
def renderForm : Scan Command :=
  keyword "render" (gap (word fun component =>
    between "as" (word fun target => done (pair render component target))))

/-- `state NAME as VALUE` -/
def stateForm : Scan Command :=
  keyword "state" (gap (word fun name =>
    between "as" (rest fun initial => pair state name initial)))

/-- `style SELECTOR with PROPERTIES` -/
def styleForm : Scan Command :=
  keyword "style" (gap (solid fun selector =>
    between "with" (rest fun properties => pair style selector properties)))

/-- `on EVENT execute HANDLER` -/
def listenForm : Scan Command :=
  keyword "on" (gap (word fun event =>
    between "execute" (word fun handler => done (pair listen event handler))))

/-- The forms of all commands, in the order in which they are tried. -/
def rules : List Rule :=
  [⟨"macro", defineForm⟩, ⟨"call", fetchForm⟩, ⟨"call", invokeForm⟩, ⟨"repeat", repeatForm⟩,
   ⟨"for", forForm⟩, ⟨"if", branchForm⟩, ⟨"wait", waitForm⟩, ⟨"set", setForm⟩,
   ⟨"break", leaveForm⟩, ⟨"return", retForm⟩, ⟨"analyze", analyzeForm⟩, ⟨"render", renderForm⟩,
   ⟨"state", stateForm⟩, ⟨"style", styleForm⟩, ⟨"on", listenForm⟩]

/-- The command that a line is by one of some rules, with its verb. The first rule counts whose
form the line has. -/
def read? (rules : List Rule) (line : String) : Option (String × Command) :=
  rules.findSome? fun rule => (rule.read line.toList).map fun command => (rule.verb, command)

end Command
end FlowScript
