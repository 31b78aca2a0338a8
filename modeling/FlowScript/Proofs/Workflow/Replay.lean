import FlowScript.Proofs.Session.Replay
import FlowScript.Proofs.Workflow.Verdict

/-!
# Phrases of a workflow

Every action of a workflow has a phrase that makes it again on its own: the actions of the lines of
a text, their copies out of templates, and what counts the turns of a loop.

## Main statements

* `Workflow.replay_of_assemble`: the phrase of every action is carried out as that action.
-/
namespace FlowScript

open Workflow

/-- **The phrases of a workflow stand for its actions.** A fresh session makes of the phrase of any
action, at any depth, exactly this action, under the name of a first step, and reports nothing. -/
theorem Workflow.replay_of_assemble {function text : String} {w : Workflow} {t : Session}
    (h : Workflow.assemble function text {} = .ok w t) {i : Step.Info} {a : Action} {d : Nat}
    (hm : (Step.act i a, d) ∈ Step.walkAll 0 w.steps) :
    ∃ u, Compile.line i.phrase {} = .ok [.act { i with id := stepId 1 } a] u ∧
      u.diagnostics = [] :=
  (each_of_assemble Step.inherent_replays h).of_mem_walkAll 0 w.steps i a d hm

/-- The phrase of a line with other blanks and another case. -/
theorem replay_of_analysis :
    ∃ w t i a, Workflow.assemble "f" "ANALYZE   the  input With\tmodel" {} = .ok w t ∧
      (Step.act i a, 0) ∈ Step.walkAll 0 w.steps ∧
      i.phrase = "analyze the  input with model" ∧
      ∃ u, Compile.line i.phrase {} = .ok [.act { i with id := stepId 1 } a] u ∧
        u.diagnostics = [] := by
  obtain ⟨i, a, t, hl, hp⟩ : ∃ i a t,
      Compile.line "ANALYZE   the  input With\tmodel" {} = .ok [.act i a] t ∧
      i.phrase = "analyze the  input with model" := ⟨_, _, _, rfl, rfl⟩
  have ht : Text.commandLines "ANALYZE   the  input With\tmodel" =
      ["ANALYZE   the  input With\tmodel"] := by decide
  obtain ⟨w, ha, hw⟩ : ∃ w, Workflow.assemble "f" "ANALYZE   the  input With\tmodel" {} = .ok w t ∧
      w.steps = [.act i a] := assemble_of_line ht hl
  have hm : (Step.act i a, 0) ∈ Step.walkAll 0 w.steps := by
    simp [hw, Step.walkAll, Step.walk]
  exact ⟨w, t, i, a, ha, hm, hp, Workflow.replay_of_assemble ha hm⟩

end FlowScript
