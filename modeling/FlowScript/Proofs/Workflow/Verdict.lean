import FlowScript.Proofs.Schema.Verdict

/-!
# Which texts are accepted

A text is accepted if it yields a step and the options of its caller pass the schema; what the text
says in its steps is never refused.

## Main statements

* `compile_of_assemble`, `compile_of_rules`: the outcome for a text that can be assembled, with any
  validator and with a schema of rules.
* `verdict_of_assemble`: the errors of a text, whatever it holds.
-/
namespace FlowScript

open Packaged

variable {text function stamp seed : String} {o : Options} {w : Workflow} {t : Session}

/-- The outcome for a workflow whose document has some errors. -/
def Outcome.judged (w : Workflow) (document : Json) (ds : List Diagnostic) : List String → Outcome
  | [] => .accepted w document ds
  | errors => .refused document ds errors

/-- The outcome for a text that can be assembled is a matter of what is reported about its
document. -/
theorem compile_of_assemble {validate : Validator} {reports : List Report}
    (hb : (Text.trimmed text).isEmpty = false)
    (ha : Workflow.assemble function text {} = .ok w t)
    (hv : validate (w.toJson o stamp) = .ok reports) :
    ∃ events, compile (some text) function stamp o (.ok validate) =
      .ok (.judged w (w.toJson o stamp) t.diagnostics (Report.listed reports), events) := by
  simp only [compile_eq_judge hb ha, judge, hv]
  cases Report.listed reports with
  | nil => exact ⟨_, rfl⟩
  | cons e es => exact ⟨_, rfl⟩

/-- The outcome for a text that can be assembled and a schema of rules is a matter of the errors of
its document. -/
theorem compile_of_rules (r : Schema.Root) (hb : (Text.trimmed text).isEmpty = false)
    (ha : Workflow.assemble function text {} = .ok w t) :
    ∃ events, compile (some text) function stamp o (.ok r.validate) =
      .ok (.judged w (w.toJson o stamp) t.diagnostics (r.errors (w.toJson o stamp)), events) := by
  rw [r.errors_eq_listed]
  exact compile_of_assemble hb ha rfl

theorem Workflow.function_of_assemble (ha : Workflow.assemble function text {} = .ok w t) :
    w.function = function := by
  obtain ⟨steps, -, rfl⟩ := Workflow.assemble_eq_ok.1 ha
  rfl

/-- Text without content has no steps. -/
theorem steps_of_blank (hb : (Text.trimmed text).isEmpty)
    (ha : Workflow.assemble function text {} = .ok w t) : w.steps = [] := by
  obtain ⟨steps, hs, rfl⟩ := Workflow.assemble_eq_ok.1 ha
  rw [Text.commandLines_of_blank hb] at hs
  exact (Workflow.stepsOf_nil_eq_ok.1 hs).1

/-- **The verdict on a text.** The errors of its document are those that come from the options
alone, in the metadata, the policy and the tone, and after them the lack of steps if there are none.
With the default options, a text is accepted if and only if it yields a step. -/
theorem verdict_of_assemble (hs : IsSeed seed)
    (ha : Workflow.assemble (workflowName seed) text {} = .ok w t) :
    (∀ o stamp, root.errors (w.toJson o stamp) = optionErrors o ++ stepErrors w.steps) ∧
    (∀ o stamp, ∀ v ∈ root.violations (w.toJson o stamp),
      v ∈ optionViolations o ∧ IsOptionPath v.path ∨ v = noSteps ∧ w.steps = []) ∧
    ((Text.trimmed text).isEmpty = false → ∀ o stamp, ∃ events,
      compile (some text) (workflowName seed) stamp o (.ok root.validate) =
        .ok (.judged w (w.toJson o stamp) t.diagnostics (optionErrors o ++ stepErrors w.steps),
          events)) ∧
    ∀ stamp, ∃ outcome events,
      compile (some text) (workflowName seed) stamp {} (.ok root.validate) = .ok (outcome, events) ∧
        (outcome.workflow?.isSome ↔ w.steps ≠ []) := by
  have hw := Workflow.wellFormed_of_assemble ha
  have hf := Workflow.function_of_assemble ha
  have he : ∀ o stamp, root.errors (w.toJson o stamp) = optionErrors o ++ stepErrors w.steps :=
    fun _ _ => errors_eq hs hf hw
  have hc : (Text.trimmed text).isEmpty = false → ∀ o stamp, ∃ events,
      compile (some text) (workflowName seed) stamp o (.ok root.validate) =
        .ok (.judged w (w.toJson o stamp) t.diagnostics (optionErrors o ++ stepErrors w.steps),
          events) := by
    intro hb o stamp
    rw [← he o stamp]
    exact compile_of_rules root hb ha
  refine ⟨he, ?_, hc, ?_⟩
  · intro o stamp v hv
    rcases List.mem_append.1 ((violations_perm hs hf hw).mem_iff.1 hv) with hv | hv
    · exact .inl ⟨hv, isOptionPath_of_mem hv⟩
    · split at hv
      · rename_i hsteps
        exact .inr ⟨List.mem_singleton.1 hv, hsteps⟩
      · simp at hv
  · intro stamp
    cases hb : (Text.trimmed text).isEmpty with
    | true =>
      have hs := steps_of_blank hb ha
      exact ⟨.empty, [], by simp [compile, hb], by simp [Outcome.workflow?, hs]⟩
    | false =>
      obtain ⟨events, h⟩ := hc hb {} stamp
      refine ⟨_, events, h, ?_⟩
      rw [optionErrors_default, List.nil_append, stepErrors]
      split
      · rename_i hsteps
        simp [Outcome.judged, Outcome.workflow?, hsteps]
      · rename_i hsteps
        simp [Outcome.judged, Outcome.workflow?, hsteps]

/-- A text with a step is accepted with the default options. -/
theorem accepted_of_assemble (hs : IsSeed seed)
    (ha : Workflow.assemble (workflowName seed) text {} = .ok w t) (hne : w.steps ≠ [])
    (stamp : String) : ∃ document ds events,
      compile (some text) (workflowName seed) stamp {} (.ok root.validate) =
        .ok (.accepted w document ds, events) := by
  have hb : (Text.trimmed text).isEmpty = false := by
    rw [Bool.eq_false_iff]
    exact fun hb => hne (steps_of_blank hb ha)
  have hc : ∃ events, compile (some text) (workflowName seed) stamp {} (.ok root.validate) = .ok
      (.judged w (w.toJson {} stamp) t.diagnostics (root.errors (w.toJson {} stamp)), events) :=
    compile_of_rules root hb ha
  obtain ⟨events, hc⟩ := hc
  rw [errors_eq hs (Workflow.function_of_assemble ha) (Workflow.wellFormed_of_assemble ha),
    optionErrors_default, stepErrors, if_neg hne] at hc
  exact ⟨_, _, events, hc⟩

/-- A text that is one line. -/
theorem assemble_of_line {line : String} {steps : List Step}
    (hl : Text.commandLines text = [line]) (h : Compile.line line {} = .ok steps t) :
    ∃ w, Workflow.assemble function text {} = .ok w t ∧ w.steps = steps := by
  refine ⟨_, Workflow.assemble_eq_ok.2 ⟨steps, ?_, rfl⟩, rfl⟩
  rw [hl, Workflow.stepsOf_cons_eq_ok]
  exact ⟨steps, t, [], h, Workflow.stepsOf_nil_eq_ok.2 ⟨rfl, rfl⟩, by simp⟩

/-- A text of one step is accepted with the default options. -/
theorem verdict_of_one_step :
    IsSeed "0123456789abcdef0123456789abcdef" ∧
    ∃ w t, Workflow.assemble (workflowName "0123456789abcdef0123456789abcdef") "set x to 1" {} =
      .ok w t ∧ ∃ outcome events,
        compile (some "set x to 1") (workflowName "0123456789abcdef0123456789abcdef")
          "2024-01-02T03:04:05Z" {} (.ok root.validate) = .ok (outcome, events) ∧
        outcome.workflow?.isSome := by
  have hs : IsSeed "0123456789abcdef0123456789abcdef" := by decide
  obtain ⟨steps, t, hl, hn⟩ : ∃ steps t, Compile.line "set x to 1" {} = .ok steps t ∧
      steps.length = 1 := ⟨_, _, rfl, rfl⟩
  have ht : Text.commandLines "set x to 1" = ["set x to 1"] := by decide
  obtain ⟨w, ha, rfl⟩ := assemble_of_line ht hl
  obtain ⟨-, -, -, hd⟩ := verdict_of_assemble hs ha
  obtain ⟨outcome, events, hc, hi⟩ := hd "2024-01-02T03:04:05Z"
  refine ⟨hs, w, t, ha, outcome, events, hc, hi.2 fun h => ?_⟩
  simp [h] at hn

end FlowScript
