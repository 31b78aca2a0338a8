import FlowScript.Step.Basic

/-!
# Walks over steps

A walk visits every step once, a step before the steps inside it, the branch taken before the other
one. Steps are numbered in the same order when they are copied, so that a copy differs from its
template in the names of its steps alone.

## Main definitions

* `Step.walk`, `Step.walkAll`: the steps inside a step or a list, with their depths.
* `Step.renumber`, `Step.renumberAll`: a copy whose steps are named from a number on.
-/
namespace FlowScript.Step

mutual

/-- A step and the steps inside it, with their depths. -/
def walk (depth : Nat) : Step → List (Step × Nat)
  | act i a => [(act i a, depth)]
  | branch i c yes no =>
    (branch i c yes no, depth) :: (walkAll (depth + 1) yes ++ walkAll (depth + 1) no)
  | loop i c body => (loop i c body, depth) :: walkAll (depth + 1) body
termination_by structural s => s

/-- The steps of a list and the steps inside them, with their depths. -/
def walkAll (depth : Nat) : List Step → List (Step × Nat)
  | [] => []
  | s :: ss => walk depth s ++ walkAll depth ss
termination_by structural ss => ss

end

mutual

/-- A copy of a step whose steps are named from a number on, and the next free number. -/
def renumber (next : Int) : Step → Step × Int
  | act i a => (act { i with id := stepId next } a, next + 1)
  | branch i c yes no =>
    let (yes, after) := renumberAll (next + 1) yes
    let (no, after) := renumberAll after no
    (branch { i with id := stepId next } c yes no, after)
  | loop i c body =>
    let (body, after) := renumberAll (next + 1) body
    (loop { i with id := stepId next } c body, after)
termination_by structural s => s

/-- A copy of some steps whose steps are named from a number on, and the next free number. -/
def renumberAll (next : Int) : List Step → List Step × Int
  | [] => ([], next)
  | s :: ss =>
    let (s, after) := renumber next s
    let (ss, after) := renumberAll after ss
    (s :: ss, after)
termination_by structural ss => ss

end

end FlowScript.Step
