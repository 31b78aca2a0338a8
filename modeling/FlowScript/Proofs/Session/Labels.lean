import FlowScript.Proofs.Command.Verb
import FlowScript.Proofs.Command.Written
import FlowScript.Proofs.Session.Answers
import FlowScript.Proofs.Value.OneLine
import FlowScript.Workflow.Diagram

/-!
# Labels of one line

The label of a step shows the names, the values or the condition that its command has been read
from. A command takes no line feed into any of them, whatever its text holds, and so labels have
one line.

## Main statements

* `Diagram.oneLine_of_performs`: the labels of the actions of commands have one line.
* `Diagram.oneLine_of_answered`: so have the labels of all steps that a session answers with.
-/
namespace FlowScript

open Text Scan

namespace Command

variable {line verb : String}

/-- Only one form has the verb of branches. -/
theorem branchForm_of_read? {condition yes : String} {no : Option String}
    (h : read? rules line = some (verb, .branch condition yes no)) :
    branchForm line.toList = some (.branch condition yes no) := by
  obtain ⟨rule, hr, hv, hc⟩ := exists_rule_of_read? h
  have hverb : rule.verb = "if" := by
    rw [hv]
    simpa [verbs] using (spelled_of_read? h).1
  have hall : ∀ rule ∈ rules, rule.verb = "if" → rule.read = branchForm := by
    simp [rules]
  rw [← hall rule hr hverb]
  exact hc

/-- The condition of a branch has one line. -/
theorem oneLine_of_branch {condition yes : String} {no : Option String}
    (h : read? rules line = some (verb, .branch condition yes no)) : '\n' ∉ condition.toList := by
  obtain ⟨_, -, h⟩ := keyword_suffix (branchForm_of_read? h)
  obtain ⟨_, -, h⟩ := slack_suffix h
  obtain ⟨⟨part, more⟩, hs, he⟩ := map_eq_some.1 h
  obtain ⟨_, -, -, hl, -⟩ := shortest_minimal hs
  simp only [branch.injEq] at he
  rw [← he.1, String.toList_ofList]
  exact hl

end Command

namespace Diagram

/-- **The labels of the actions of commands have one line.** -/
theorem oneLine_of_performs {line verb phrase : String} {c : Command} {a : Action}
    {types types' : Registry String} (hread : Command.read? Command.rules line = some (verb, c))
    (h : c.Performs types a phrase types') (id : String) :
    '\n' ∉ (actionLabel id a).toList := by
  have hl := Command.legible_of_read? hread
  have hword {s : String} (h : isWordRun s.toList) : '\n' ∉ s.toList :=
    (IsSolid.of_isWordRun h).isFree.oneLine
  cases h with
  | fetch endpoint target =>
    simp [actionLabel, hl.1.isFree.oneLine, hword hl.2]
  | @wait seconds n hn h0 =>
    have hs := (Number.int n).oneLine_text
    simpa [actionLabel, Json.ofInt, Json.plain, Json.shown] using hs
  | @set target raw value hi hv =>
    have hvalue := Value.oneLine_of_read hl.2.oneLine hv
    simp [actionLabel, hl.1.isFree.oneLine, hvalue]
  | leave => simp [actionLabel]
  | @ret raw value hr hv =>
    have hne : trim raw.toList ≠ [] := by simpa [trimmed] using hr
    have hvalue := Value.oneLine_of_read (hl hne).oneLine hv
    simp [actionLabel, hvalue]
  | analyze h => simp [actionLabel, hword hl.2]
  | render component target => simp [actionLabel, hword hl.1, hword hl.2]
  | state h => simp [actionLabel, hword hl.1]
  | style selector raw => simp [actionLabel, hl.1.isFree.oneLine]
  | listen event handler => simp [actionLabel, hword hl.1, hword hl.2]

/-- **Labels of one line are inherent**: also the assignments and the condition that a counted loop
brings with it show only its counter and numbers. -/
theorem inherent_oneLine : Step.Inherent (fun _ a => ∀ id, '\n' ∉ (actionLabel id a).toList)
    fun c => '\n' ∉ c.text.toList where
  renamed _ _ _ h := h
  act _ hread h := oneLine_of_performs hread h
  first n id hn := by
    have hc := (isCounter_loopCounter hn).isSolid.isFree.oneLine
    have hv : '\n' ∉ (Value.expr (.ofInt 0)).text.toList := by decide
    intro id
    simp [actionLabel, hc, hv]
  next n id hn := by
    have hc := (isCounter_loopCounter hn).isSolid.isFree.oneLine
    have hv : '\n' ∉ (Expr.binary .add (.var (loopCounter (stepId n))) (.ofInt 1)).chars :=
      Expr.oneLine_binary hc (Expr.oneLine_ofNumber _)
    intro id
    simp [actionLabel, Value.text, Expr.text, hc, hv]
  below n times hn := by
    have hc := (isCounter_loopCounter hn).isSolid.isFree.oneLine
    rw [Condition.text, String.toList_ofList]
    exact Condition.oneLine_compare .less hc (Expr.oneLine_ofNumber _)
  condition hread hc := Condition.oneLine_of_parse (Command.oneLine_of_branch hread) hc

/-- **The labels of all steps that a session answers with have one line**, those of the steps inside
them included. -/
theorem oneLine_of_answered {rs : List Request} {ss : List Step}
    (h : ss ⊆ (performAll rs {}).1.flatten) :
    ∀ visit ∈ Step.walkAll 0 ss, '\n' ∉ (label visit.1).toList := by
  have hss := eachAll_of_answered inherent_oneLine h
  intro visit hm
  have hv := Step.EachAll.each_of_mem_walkAll 0 ss hss visit hm
  obtain ⟨s, d⟩ := visit
  cases s with
  | act i a => exact hv i.id
  | branch i c yes no => simpa [label] using hv.1
  | loop i c body => simpa [label] using hv.1

end Diagram
end FlowScript
