import FlowScript.Proofs.Workflow.Verdict

/-!
# What an outcome holds

The parts of an outcome never disagree. Either there is a workflow, and with it the document that
passes the schema, the diagram and a record of every step, and nothing is said but what the lines
have reported; or there is neither workflow nor diagram nor record, and the last thing that is said
tells why.

## Main definitions

* `Outcome.Succeeds`: an outcome with a workflow.
* `Outcome.Fails`, `Outcome.Reason`: an outcome without one, and why there is none.

## Main statements

* `outcome_of_compile`: every outcome is exactly one of the two.
-/
namespace FlowScript

/-- An outcome with a workflow, for a text that has been assembled to it and a validator that has
nothing to report about its document. -/
structure Outcome.Succeeds (content function stamp : String) (o : Options) (validate : Validator)
    (w : Workflow) (t : Session) (outcome : Outcome) : Prop where
  assembled : Workflow.assemble function content {} = .ok w t
  workflow : outcome.workflow? = some w
  document : outcome.document? = some (w.toJson o stamp)
  valid : validate (w.toJson o stamp) = .ok []
  diagram : outcome.diagram? = some (Diagram.render w.steps)
  messages : outcome.messages = t.diagnostics.map Diagnostic.message
  records : outcome.records = (Step.walkAll 0 w.steps).map (Workflow.record w.function)

/-- Why an outcome has no workflow: what is said, and the document that goes with it. -/
inductive Outcome.Reason (text : Option String) (function stamp : String) (o : Options)
    (schema : Except Unloaded Validator) (outcome : Outcome) : Prop
  /-- There is no text. -/
  | empty (hb : ∀ content, text = some content → (Text.trimmed content).isEmpty)
      (hd : outcome.document? = none) (hm : outcome.messages = [emptyMessage])
  /-- There is no schema. -/
  | unavailable {content : String} {w : Workflow} {t : Session} {e : LoadError}
      (ht : text = some content) (ha : Workflow.assemble function content {} = .ok w t)
      (hs : schema = .error (.error e)) (hd : outcome.document? = some (w.toJson o stamp))
      (hm : outcome.messages = t.diagnostics.map Diagnostic.message ++ [e.message])
  /-- Something is reported about the document. -/
  | invalid {content : String} {w : Workflow} {t : Session} {validate : Validator}
      {reports : List Report} (ht : text = some content)
      (ha : Workflow.assemble function content {} = .ok w t) (hs : schema = .ok validate)
      (hd : outcome.document? = some (w.toJson o stamp))
      (hv : validate (w.toJson o stamp) = .ok reports) (hne : reports ≠ [])
      (hm : outcome.messages = t.diagnostics.map Diagnostic.message ++ Report.listed reports)

/-- An outcome without a workflow. -/
structure Outcome.Fails (text : Option String) (function stamp : String) (o : Options)
    (schema : Except Unloaded Validator) (outcome : Outcome) : Prop where
  workflow : outcome.workflow? = none
  diagram : outcome.diagram? = none
  messages : outcome.messages ≠ []
  records : outcome.records = []
  reason : outcome.Reason text function stamp o schema

namespace Outcome

variable {text : Option String} {content function stamp : String} {o : Options}
  {schema : Except Unloaded Validator} {validate : Validator} {reports : List Report}
  {w : Workflow} {t : Session}

theorem succeeds_accepted (ha : Workflow.assemble function content {} = .ok w t)
    (hv : validate (w.toJson o stamp) = .ok []) :
    Succeeds content function stamp o validate w t (accepted w (w.toJson o stamp) t.diagnostics) :=
  ⟨ha, rfl, rfl, hv, rfl, rfl, rfl⟩

theorem fails_empty (hb : ∀ content, text = some content → (Text.trimmed content).isEmpty) :
    Fails text function stamp o schema empty :=
  ⟨rfl, rfl, List.cons_ne_nil _ _, rfl, .empty hb rfl rfl⟩

theorem fails_unchecked {e : LoadError} (ht : text = some content)
    (ha : Workflow.assemble function content {} = .ok w t) (hs : schema = .error (.error e)) :
    Fails text function stamp o schema (unchecked (w.toJson o stamp) t.diagnostics e) :=
  ⟨rfl, rfl, List.append_ne_nil_of_right_ne_nil _ (List.cons_ne_nil _ _), rfl,
    .unavailable ht ha hs rfl rfl⟩

theorem fails_refused (ht : text = some content)
    (ha : Workflow.assemble function content {} = .ok w t) (hs : schema = .ok validate)
    (hv : validate (w.toJson o stamp) = .ok reports) (hne : reports ≠ []) :
    Fails text function stamp o schema
      (refused (w.toJson o stamp) t.diagnostics (Report.listed reports)) := by
  have hm : Report.listed reports ≠ [] := fun h => hne (Report.listed_eq_nil_iff.1 h)
  exact ⟨rfl, rfl, List.append_ne_nil_of_right_ne_nil _ hm, rfl, .invalid ht ha hs rfl hv hne rfl⟩

end Outcome

/-- **The parts of an outcome agree.** Whatever the text and the options are, and whatever the load
of a schema and the validator of this schema come to, whenever compiling returns, the outcome either
has a workflow or says why there is none, and never both. -/
theorem outcome_of_compile (text : Option String) (function stamp : String) (o : Options)
    (schema : Except Unloaded Validator) (outcome : Outcome) (events : List Event)
    (h : compile text function stamp o schema = .ok (outcome, events)) :
    ((∃ content validate w t, text = some content ∧ schema = .ok validate ∧
        outcome.Succeeds content function stamp o validate w t) ∨
      outcome.Fails text function stamp o schema) ∧
    ¬ ((∃ content validate w t, text = some content ∧ schema = .ok validate ∧
        outcome.Succeeds content function stamp o validate w t) ∧
      outcome.Fails text function stamp o schema) := by
  constructor
  · rcases compile_cases h with ⟨rfl, hb⟩ | ⟨content, w, t, event, ht, -, ha, hj, -⟩
    · exact .inr (Outcome.fails_empty hb)
    · rcases judge_cases hj with
        ⟨e, hs, rfl⟩ | ⟨validate, reports, hs, hv, ⟨rfl, rfl, -⟩ | ⟨hne, rfl⟩⟩
      · exact .inr (Outcome.fails_unchecked ht ha hs)
      · exact .inl ⟨content, validate, w, t, ht, hs, Outcome.succeeds_accepted ha hv⟩
      · exact .inr (Outcome.fails_refused ht ha hs hv hne)
  · rintro ⟨⟨content, validate, w, t, -, -, hs⟩, hf⟩
    have hw := hs.workflow
    rw [hf.workflow] at hw
    exact absurd hw (by simp)

/-- A text with one step has an outcome with a workflow, and no text at all one without. -/
theorem outcome_of_one_step :
    (∃ outcome events, compile (some "set x to 1") (workflowName "0123456789abcdef0123456789abcdef")
        "2024-01-02T03:04:05Z" {} (.ok Packaged.root.validate) = .ok (outcome, events) ∧
      ∃ w t, outcome.Succeeds "set x to 1" (workflowName "0123456789abcdef0123456789abcdef")
        "2024-01-02T03:04:05Z" {} Packaged.root.validate w t) ∧
    ∃ outcome events, compile none (workflowName "0123456789abcdef0123456789abcdef")
        "2024-01-02T03:04:05Z" {} (.ok Packaged.root.validate) = .ok (outcome, events) ∧
      outcome.Fails none (workflowName "0123456789abcdef0123456789abcdef")
        "2024-01-02T03:04:05Z" {} (.ok Packaged.root.validate) := by
  have hs : Packaged.IsSeed "0123456789abcdef0123456789abcdef" := by decide
  obtain ⟨steps, t, hl, hn⟩ : ∃ steps t, Compile.line "set x to 1" {} = .ok steps t ∧
      steps.length = 1 := ⟨_, _, rfl, rfl⟩
  have ht : Text.commandLines "set x to 1" = ["set x to 1"] := by decide
  obtain ⟨w, ha, rfl⟩ := assemble_of_line ht hl
  have hne : w.steps ≠ [] := by
    intro hnil
    simp [hnil] at hn
  obtain ⟨document, ds, events, hc⟩ := accepted_of_assemble hs ha hne "2024-01-02T03:04:05Z"
  constructor
  · refine ⟨_, events, hc, ?_⟩
    rcases (outcome_of_compile _ _ _ _ _ _ _ hc).1 with ⟨content, root, v, u, hx, hr, hv⟩ | hf
    · cases hx
      cases hr
      exact ⟨v, u, hv⟩
    · exact absurd hf.workflow (by simp [Outcome.workflow?])
  · refine ⟨.empty, [], rfl, ?_⟩
    rcases (outcome_of_compile none _ _ _ _ _ _ rfl).1 with ⟨content, _, _, _, hx, -⟩ | hf
    · cases hx
    · exact hf

end FlowScript
