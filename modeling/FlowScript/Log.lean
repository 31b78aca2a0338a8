import FlowScript.Event
import FlowScript.Fault
import FlowScript.Text.Blank

/-!
# Logs

Events are written to a log from a level on. The level is chosen by name or by number, by the
caller or by the environment; unknown names choose warnings. A logger has one handler, which a new
configuration replaces. Level zero leaves the choice to the surroundings, which choose warnings.
-/
namespace FlowScript

/-- How a level is chosen. -/
inductive LevelChoice where
  | name (s : String)
  | number (n : Int)
  deriving DecidableEq, Repr, Inhabited

/-- A logger: its level, and how many handlers it has. -/
structure Logger where
  level : Int := 0
  handlers : Nat := 0
  deriving DecidableEq, Repr, Inhabited

namespace Logger

/-- The name of the logger. -/
def name : String := "stepweave"

/-- The numbers of the levels, by name. -/
def levels : List (String × Int) :=
  [("NOTSET", 0), ("DEBUG", 10), ("INFO", 20), ("WARNING", 30), ("WARN", 30), ("ERROR", 40),
   ("CRITICAL", 50), ("FATAL", 50)]

/-- The upper case of a character, for those whose upper case is in ASCII. -/
def upper (c : Char) : Char :=
  if c = '\u0131' then 'I' else if c = '\u017F' then 'S' else c.toUpper

/-- The form of lines that has a name among the names of the levels, and that name. -/
def basicFormat : String × String :=
  ("BASIC_FORMAT", "%(levelname)s:%(name)s:%(message)s")

/-- The number of the level with a name, in any case and between blanks. A form of lines is no
level. -/
def levelOf (name : String) : Except Fault Int :=
  let key := String.ofList ((Text.trim name.toList).map upper)
  match levels.find? (·.1 == key) with
  | some (_, n) => .ok n
  | none =>
    if key = basicFormat.1 then .error (.unknownLevel basicFormat.2)
    else .ok Level.warning.number

/-- The level that is chosen, by the environment unless by the caller. -/
def resolve (choice : Option LevelChoice) (environment : Option String) : Except Fault Int :=
  match choice with
  | some (.number n) => .ok n
  | some (.name s) => levelOf s
  | none => levelOf (environment.getD Level.warning.name)

/-- The logger after a configuration, whatever it was before. -/
def configure (_ : Logger) (choice : Option LevelChoice) (environment : Option String) :
    Except Fault Logger :=
  (resolve choice environment).map fun level => ⟨level, 1⟩

/-- The level from which on events are written. -/
def threshold (l : Logger) : Int :=
  if l.level = 0 then Level.warning.number else l.level

/-- A line of a log. -/
def line (e : Event) : String :=
  .join [e.level.name, " ", e.source, " ", e.message]

/-- The lines that events give in a log. -/
def lines (l : Logger) (events : List Event) : List String :=
  (events.filter fun e => l.threshold ≤ (e.level.number : Int)).map line

end Logger
end FlowScript
