import FlowScript.Registry
import FlowScript.Step.Walk

/-!
# Signatures

The signature of some steps is what they read, what they assign and which classifiers they ask, at
any depth. Names are listed in the order of their first occurrence on a walk over the steps.

## Main definitions

* `Step.reads`, `Step.writes`, `Step.models`: the names of one step, without the steps inside it.
* `Step.allReads`, `Step.allWrites`, `Step.allModels`: the names of some steps and the steps inside
  them, each once.
-/
namespace FlowScript

namespace Action

/-- The variables that an action reads. -/
def reads : Action → List String
  | set _ value => value.reads
  | ret value => value.reads
  | analyze _ input _ => input.reads
  | state _ initial => initial.reads
  | _ => []

/-- The variable that an action assigns to. -/
def writes : Action → List String
  | set target _ => [target]
  | _ => []

/-- The classifiers that an action asks. -/
def models : Action → List String
  | set _ value => value.models
  | ret value => value.models
  | analyze model _ _ => [model]
  | _ => []

end Action

namespace Step

/-- The variables that a step reads itself. -/
def reads : Step → List String
  | act _ a => a.reads
  | branch _ c _ _ => c.reads
  | loop _ c _ => c.reads

/-- The variables that a step assigns to itself. -/
def writes : Step → List String
  | act _ a => a.writes
  | _ => []

/-- The classifiers that a step asks itself. -/
def models : Step → List String
  | act _ a => a.models
  | _ => []

/-- The names that a function gives for steps and the steps inside them, each once. -/
def allNames (names : Step → List String) (steps : List Step) : List String :=
  distinct ((walkAll 0 steps).flatMap fun visit => names visit.1)

/-- The variables that are read anywhere. -/
def allReads : List Step → List String :=
  allNames reads

/-- The variables that are assigned to anywhere. -/
def allWrites : List Step → List String :=
  allNames writes

/-- The classifiers that are asked anywhere. -/
def allModels : List Step → List String :=
  allNames models

end Step
end FlowScript
