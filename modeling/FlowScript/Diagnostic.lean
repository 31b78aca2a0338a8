/-!
# Diagnostics

A line of command text that cannot be carried out is reported and yields no steps; the lines around
it are not affected.
-/
namespace FlowScript

/-- What is wrong with a line of command text. -/
inductive Diagnostic where
  /-- A template is called that has not been defined. -/
  | unknownTemplate (name : String)
  /-- A template is called whose definition yielded no steps. -/
  | emptyTemplate (name : String)
  /-- A counted loop has no body. -/
  | badRepeat (line : String)
  /-- A pause is no natural number of seconds. -/
  | badWait (duration : String)
  /-- The target of an assignment is no name. -/
  | badVariable (name : String)
  /-- There is nothing to return. -/
  | missingValue
  /-- Too many commands lie inside each other. -/
  | tooDeep (line : String)
  /-- The line is no command. -/
  | unrecognized (line : String)
  /-- Something that the caller reports. -/
  | note (message : String)
  deriving DecidableEq, Repr, Inhabited

/-- The wording of a diagnostic. -/
def Diagnostic.message : Diagnostic → String
  | unknownTemplate name => .join ["Unknown macro: ", name]
  | emptyTemplate name => .join ["Macro ", name, " has no steps"]
  | badRepeat line => .join ["Invalid repeat command: ", line]
  | badWait duration => .join ["Invalid wait duration: ", duration]
  | badVariable name => .join ["Invalid variable name: ", name]
  | missingValue => "Return statement requires a value"
  | tooDeep line => .join ["Command nested too deeply: ", line]
  | unrecognized line => .join ["Unrecognized command: ", line]
  | note message => message

end FlowScript
