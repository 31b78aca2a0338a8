import FlowScript.Proofs.Schema.Listed
import FlowScript.Proofs.Session.Halt
import FlowScript.Workflow.Compile

/-!
# Lines of a text

The lines of a text are carried out one after another, all at the same level, and a fault in one of
them ends the text.

## Main definitions

* `Workflow.Run`: the runs of some lines, with the definitions of templates made on the way.

## Main statements

* `Workflow.stepsOf_cons_eq_ok`, `Workflow.stepsOf_cons_eq_error`: the first line and the others.
* `Workflow.exists_run_of_stepsOf`: the lines of a text that meets no fault have a run.
* `Workflow.assemble_eq_ok`, `Workflow.assemble_eq_error`: what assembling a text comes to.
* `compile_eq_judge`, `compile_cases`, `judge_cases`: what compiling a text comes to.
* `assemble_of_compile`: the workflows of texts that are accepted.
-/
namespace FlowScript

open Compile

namespace Workflow

variable {line function text : String} {lines : List String} {s t : Session} {steps : List Step}
  {f : Fault} {w : Workflow}

@[simp] theorem stepsOf_nil_eq_ok : stepsOf [] s = .ok steps t ↔ steps = [] ∧ t = s := by
  simp [stepsOf, eq_comm]

theorem stepsOf_cons_eq_ok :
    stepsOf (line :: lines) s = .ok steps t ↔
      ∃ first u others, Compile.line line s = .ok first u ∧
        stepsOf lines u = .ok others t ∧ steps = first ++ others := by
  simp only [stepsOf, bind_eq_ok, pure_apply, EStateM.Result.ok.injEq]
  constructor
  · rintro ⟨first, u, hl, others, t, ho, rfl, rfl⟩
    exact ⟨first, u, others, hl, ho, rfl⟩
  · rintro ⟨first, u, others, hl, ho, rfl⟩
    exact ⟨first, u, hl, others, t, ho, rfl, rfl⟩

theorem stepsOf_cons {u : Session} {first others : List Step}
    (h : Compile.line line s = .ok first u) (ho : stepsOf lines u = .ok others t) :
    stepsOf (line :: lines) s = .ok (first ++ others) t :=
  stepsOf_cons_eq_ok.2 ⟨first, u, others, h, ho, rfl⟩

@[simp] theorem stepsOf_nil_ne_error : stepsOf [] s ≠ .error f t := by
  simp [stepsOf]

theorem stepsOf_cons_eq_error :
    stepsOf (line :: lines) s = .error f t ↔
      Compile.line line s = .error f t ∨
        ∃ first u, Compile.line line s = .ok first u ∧ stepsOf lines u = .error f t := by
  simp only [stepsOf, bind_eq_error, pure_apply, reduceCtorEq, and_false, exists_false, or_false]

/-- The runs of some lines, one after another, with the definitions made on the way in order. -/
inductive Run : List String → Session → List Step → List Definition → Session → Prop
  | nil {s : Session} : Run [] s [] [] s
  | cons {line : String} {lines : List String} {s u t : Session} {first others : List Step}
      {defs more : List Definition}
      (h : Compile.Run Command.rules (Compile.allowance s.nesting) line s first defs u)
      (ho : Run lines u others more t) : Run (line :: lines) s (first ++ others) (defs ++ more) t

theorem exists_run_of_stepsOf (h : stepsOf lines s = .ok steps t) :
    ∃ defs, Run lines s steps defs t := by
  induction lines generalizing s steps with
  | nil =>
    obtain ⟨rfl, rfl⟩ := stepsOf_nil_eq_ok.1 h
    exact ⟨[], .nil⟩
  | cons line lines ih =>
    obtain ⟨first, u, others, hl, ho, rfl⟩ := stepsOf_cons_eq_ok.1 h
    obtain ⟨defs, hr⟩ := Compile.line_eq_ok_iff.1 hl
    obtain ⟨more, hr'⟩ := ih ho
    exact ⟨defs ++ more, .cons hr hr'⟩

/-- The workflow of some steps and the types of variables, with the line it began with. -/
def ofSteps (function : String) (steps : List Step) (types : Registry String) (prompt : String) :
    Workflow :=
  { function
    steps
    inputs := typed types (Step.allReads steps)
    outputs := typed types (Step.allWrites steps)
    types
    models := Step.allModels steps
    prompt }

theorem assemble_eq_ok :
    assemble function text s = .ok w t ↔
      ∃ steps, stepsOf (Text.commandLines text) s = .ok steps t ∧
        w = ofSteps function steps t.types ((Text.commandLines text).headD "") := by
  simp only [assemble, bind_eq_ok, get_apply, pure_apply, EStateM.Result.ok.injEq]
  constructor
  · rintro ⟨steps, u, hs, _, _, ⟨rfl, rfl⟩, rfl, rfl⟩
    exact ⟨steps, hs, rfl⟩
  · rintro ⟨steps, hs, rfl⟩
    exact ⟨steps, t, hs, t, t, ⟨rfl, rfl⟩, rfl, rfl⟩

theorem assemble_eq_error :
    assemble function text s = .error f t ↔ stepsOf (Text.commandLines text) s = .error f t := by
  simp only [assemble, bind_eq_error, get_apply, pure_apply, reduceCtorEq, and_false, exists_false,
    or_false]

end Workflow

/-- The three ways in which a workflow is judged: there is no schema, nothing is reported about its
document, or something is. -/
theorem judge_cases {w : Workflow} {document : Json} {ds : List Diagnostic}
    {schema : Except Unloaded Validator} {outcome : Outcome} {event : Event}
    (h : judge w document ds schema = .ok (outcome, event)) :
    (∃ e, schema = .error (.error e) ∧ outcome = .unchecked document ds e) ∨
    ∃ validate reports, schema = .ok validate ∧ validate document = .ok reports ∧
      ((reports = [] ∧ outcome = .accepted w document ds ∧
          event = .compiled w.function w.steps.length w.inputs.entries.length
            w.outputs.entries.length ds.length) ∨
        (reports ≠ [] ∧ outcome = .refused document ds (Report.listed reports))) := by
  unfold judge at h
  split at h
  · simp at h
  · rename_i e
    simp only [Except.ok.injEq, Prod.mk.injEq] at h
    exact .inl ⟨e, rfl, h.1.symm⟩
  · rename_i validate
    split at h
    · simp at h
    · rename_i reports hv
      refine .inr ⟨validate, reports, rfl, hv, ?_⟩
      split at h
      · rename_i hnil
        simp only [Except.ok.injEq, Prod.mk.injEq] at h
        exact .inl ⟨Report.listed_eq_nil_iff.1 hnil, h.1.symm, h.2.symm⟩
      · rename_i hne
        simp only [Except.ok.injEq, Prod.mk.injEq] at h
        exact .inr ⟨fun hr => hne (Report.listed_eq_nil_iff.2 hr), h.1.symm⟩

/-- To compile a text that can be assembled is to judge its workflow. -/
theorem compile_eq_judge {text function stamp : String} {o : Options}
    {schema : Except Unloaded Validator} {w : Workflow} {t : Session}
    (hb : (Text.trimmed text).isEmpty = false)
    (ha : Workflow.assemble function text {} = .ok w t) :
    compile (some text) function stamp o schema =
      (judge w (w.toJson o stamp) t.diagnostics schema).map fun r => (r.1, t.journal ++ [r.2]) := by
  simp only [compile, hb, Bool.false_eq_true, if_false, ha]
  cases judge w (w.toJson o stamp) t.diagnostics schema <;> rfl

/-- A text without content has no workflow, and the workflow of any other one is judged. -/
theorem compile_cases {text : Option String} {function stamp : String} {o : Options}
    {schema : Except Unloaded Validator} {outcome : Outcome} {events : List Event}
    (h : compile text function stamp o schema = .ok (outcome, events)) :
    (outcome = .empty ∧ ∀ content, text = some content → (Text.trimmed content).isEmpty) ∨
    ∃ content w t event, text = some content ∧ (Text.trimmed content).isEmpty = false ∧
      Workflow.assemble function content {} = .ok w t ∧
      judge w (w.toJson o stamp) t.diagnostics schema = .ok (outcome, event) ∧
      events = t.journal ++ [event] := by
  unfold compile at h
  split at h
  · simp only [Except.ok.injEq, Prod.mk.injEq] at h
    exact .inl ⟨h.1.symm, by simp⟩
  · rename_i content
    by_cases hb : (Text.trimmed content).isEmpty
    · simp only [hb, if_true, Except.ok.injEq, Prod.mk.injEq] at h
      refine .inl ⟨h.1.symm, ?_⟩
      rintro _ ⟨⟩
      exact hb
    · simp only [hb, Bool.false_eq_true, if_false] at h
      split at h
      · simp at h
      · rename_i w t ha
        cases hj : judge w (w.toJson o stamp) t.diagnostics schema with
        | error f => simp [hj, bind, Except.bind] at h
        | ok answer =>
          simp only [hj, bind, Except.bind, pure, Except.pure, Except.ok.injEq,
            Prod.mk.injEq] at h
          obtain ⟨rfl, rfl⟩ := h
          exact .inr ⟨content, w, t, answer.2, rfl, by simpa using hb, ha, hj, rfl⟩

/-- A text that compiles to an accepted workflow has been assembled to it. -/
theorem assemble_of_compile {text : Option String} {function stamp : String} {o : Options}
    {schema : Except Unloaded Validator} {outcome : Outcome} {events : List Event} {w : Workflow}
    (h : compile text function stamp o schema = .ok (outcome, events))
    (hw : outcome.workflow? = some w) :
    ∃ content t steps inputs outputs n, text = some content ∧
      Workflow.assemble function content {} = .ok w t ∧
      outcome = .accepted w (w.toJson o stamp) t.diagnostics ∧
      events = t.journal ++ [.compiled w.function steps inputs outputs n] := by
  rcases compile_cases h with ⟨rfl, -⟩ | ⟨content, v, t, event, rfl, -, ha, hj, rfl⟩
  · simp [Outcome.workflow?] at hw
  · rcases judge_cases hj with ⟨e, -, rfl⟩ | ⟨validate, reports, -, -, ⟨-, rfl, rfl⟩ | ⟨-, rfl⟩⟩
    · simp [Outcome.workflow?] at hw
    · simp only [Outcome.workflow?, Option.some.injEq] at hw
      subst hw
      exact ⟨content, t, _, _, _, _, rfl, ha, rfl, rfl⟩
    · simp [Outcome.workflow?] at hw

end FlowScript
