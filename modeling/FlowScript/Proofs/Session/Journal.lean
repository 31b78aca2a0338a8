import FlowScript.Proofs.Session.Run

/-!
# What is told of commands

Beside the diagnostics, the journal of a session tells which commands have been carried out. Nothing
depends on that: a line does the same in two sessions that differ in it alone, whether it ends in a
fault or not.

## Main definitions

* `Session.Agrees`: sessions that differ at most in what has been told of commands.
* `Compile.Matches`: the same fault, or answers that are related, in sessions that agree.
* `Compile.IgnoresJournal`: computations that do the same in sessions that agree.

## Main statements

* `Compile.Matches.bind`: computations that match step by step match as a whole.
* `Compile.ignoresJournal_line`: lines do the same in sessions that agree.
-/
namespace FlowScript

/-- Two sessions that share the number of the next step, the types, the templates, the diagnostics
and the level. They may differ in what has been told of the commands that were carried out. -/
structure Session.Agrees (s t : Session) : Prop where
  counter : s.counter = t.counter
  types : s.types = t.types
  templates : s.templates = t.templates
  diagnostics : s.diagnostics = t.diagnostics
  nesting : s.nesting = t.nesting

namespace Session.Agrees

variable {s t : Session}

theorem refl (s : Session) : s.Agrees s :=
  ⟨rfl, rfl, rfl, rfl, rfl⟩

/-- What is told of commands does not show. -/
theorem dispatched (h : s.Agrees t) (line line' verb verb' : String) :
    (s.told (.dispatched line verb)).Agrees (t.told (.dispatched line' verb')) := by
  refine ⟨h.counter, h.types, h.templates, ?_, h.nesting⟩
  rw [diagnostics_told_dispatched, diagnostics_told_dispatched, h.diagnostics]

theorem reported (h : s.Agrees t) (d : Diagnostic) :
    (s.told (.reported d)).Agrees (t.told (.reported d)) := by
  refine ⟨h.counter, h.types, h.templates, ?_, h.nesting⟩
  rw [diagnostics_told_reported, diagnostics_told_reported, h.diagnostics]

theorem drawn (h : s.Agrees t) : s.drawn.Agrees t.drawn :=
  ⟨congrArg (· + 1) h.counter, h.types, h.templates, h.diagnostics, h.nesting⟩

theorem typed (h : s.Agrees t) (name type : String) :
    (s.typed name type).Agrees (t.typed name type) :=
  ⟨h.counter, congrArg (·.insert name type) h.types, h.templates, h.diagnostics, h.nesting⟩

theorem defined (h : s.Agrees t) (name : String) (steps : List Step) :
    (s.defined name steps).Agrees (t.defined name steps) :=
  ⟨h.counter, h.types, congrArg (·.insert name steps) h.templates, h.diagnostics, h.nesting⟩

theorem copied (h : s.Agrees t) (steps : List Step) : (s.copied steps).Agrees (t.copied steps) :=
  ⟨congrArg (fun n => (Step.renumberAll n steps).2) h.counter, h.types, h.templates,
    h.diagnostics, h.nesting⟩

theorem entered (h : s.Agrees t) : s.entered.Agrees t.entered :=
  ⟨h.counter, h.types, h.templates, h.diagnostics, congrArg (· + 1) h.nesting⟩

theorem exited (h : s.Agrees t) : s.exited.Agrees t.exited :=
  ⟨h.counter, h.types, h.templates, h.diagnostics, congrArg (· - 1) h.nesting⟩

end Session.Agrees

namespace Compile

variable {α β γ δ : Type}

/-- Two computations have ended alike: in the same fault, or with answers that are related; and in
sessions that agree. -/
inductive Matches (R : α → β → Prop) :
    EStateM.Result Fault Session α → EStateM.Result Fault Session β → Prop
  | ok {a : α} {b : β} {s t : Session} (h : R a b) (hs : s.Agrees t) :
      Matches R (.ok a s) (.ok b t)
  | error {f : Fault} {s t : Session} (hs : s.Agrees t) : Matches R (.error f s) (.error f t)

namespace Matches

variable {R : α → β → Prop} {Q : γ → δ → Prop} {c : Compile α} {c' : Compile β} {s t : Session}

/-- **Computations that match step by step match as a whole.** -/
theorem bind {g : α → Compile γ} {g' : β → Compile δ} (h : Matches R (c s) (c' t))
    (hg : ∀ a b s t, R a b → s.Agrees t → Matches Q (g a s) (g' b t)) :
    Matches Q ((c >>= g) s) ((c' >>= g') t) := by
  rw [bind_apply, bind_apply]
  generalize c s = r at h
  generalize c' t = r' at h
  cases h with
  | ok h hs => exact hg _ _ _ _ h hs
  | error hs => exact .error hs

/-- Computations one level deeper that match. -/
theorem nested (h : Matches R (c s.entered) (c' t.entered)) :
    Matches R (Compile.nested c s) (Compile.nested c' t) := by
  rw [nested_apply, nested_apply]
  generalize c s.entered = r at h
  generalize c' t.entered = r' at h
  cases h with
  | ok h hs => exact .ok h hs.exited
  | error hs => exact .error hs.exited

end Matches

/-- A computation that does the same in all sessions that agree. -/
def IgnoresJournal (c : Compile α) : Prop :=
  ∀ ⦃s t : Session⦄, s.Agrees t → Matches Eq (c s) (c t)

namespace IgnoresJournal

theorem pure (a : α) : IgnoresJournal (pure a : Compile α) :=
  fun _ _ h => .ok rfl h

theorem bind {c : Compile α} {g : α → Compile β} (hc : IgnoresJournal c)
    (hg : ∀ a, IgnoresJournal (g a)) : IgnoresJournal (c >>= g) := by
  intro s t h
  refine (hc h).bind ?_
  rintro a _ s t rfl h
  exact hg a h

theorem nested {c : Compile α} (hc : IgnoresJournal c) : IgnoresJournal (nested c) :=
  fun _ _ h => (hc h.entered).nested

end IgnoresJournal

/-! ## The operations of a session -/

theorem ignoresJournal_lift (x : Except Fault α) : IgnoresJournal (lift x) := by
  intro s t h
  cases x with
  | ok a => exact .ok rfl h
  | error f => exact .error h

theorem ignoresJournal_nextId : IgnoresJournal nextId := by
  intro s t h
  rw [nextId_apply, nextId_apply, h.counter]
  exact .ok rfl h.drawn

theorem ignoresJournal_reject (d : Diagnostic) : IgnoresJournal (reject d) :=
  fun _ _ h => .ok rfl (h.reported d)

theorem ignoresJournal_recordType (name type : String) : IgnoresJournal (recordType name type) :=
  fun _ _ h => .ok rfl (h.typed name type)

theorem ignoresJournal_define (name : String) (steps : List Step) :
    IgnoresJournal (define name steps) :=
  fun _ _ h => .ok rfl (h.defined name steps)

theorem ignoresJournal_copy (steps : List Step) : IgnoresJournal (copy steps) := by
  intro s t h
  rw [copy_apply, copy_apply, h.counter]
  exact .ok rfl (h.copied steps)

theorem ignoresJournal_tell_dispatched (line verb : String) :
    IgnoresJournal (tell (.dispatched line verb)) :=
  fun _ _ h => .ok rfl (h.dispatched line line verb verb)

/-! ## Commands and lines -/

theorem ignoresJournal_invoke (name : String) : IgnoresJournal (invoke name) := by
  intro s t h
  simp only [invoke, bind_apply, get_apply, h.templates]
  cases t.templates.find? name with
  | none => exact ignoresJournal_reject _ h
  | some steps =>
    simp only
    split
    · exact ignoresJournal_reject _ h
    · exact ignoresJournal_copy steps h

section Inner

variable {inner : Inner} {line : String} (hin : ∀ text, IgnoresJournal (inner text))

include hin

theorem ignoresJournal_countLoop (body times : String) :
    IgnoresJournal (countLoop inner line body times) := by
  refine (ignoresJournal_lift _).bind fun number => ?_
  split
  · split
    · exact ignoresJournal_reject _
    · refine ignoresJournal_nextId.bind fun id => ?_
      refine (ignoresJournal_recordType _ _).bind fun _ => ?_
      refine ignoresJournal_nextId.bind fun first => ?_
      refine (hin body).bind fun steps => ?_
      exact ignoresJournal_nextId.bind fun next => .pure _
  · exact ignoresJournal_reject _

theorem ignoresJournal_branchOf (condition yes : String) (no : Option String) :
    IgnoresJournal (branchOf inner line condition yes no) := by
  refine (ignoresJournal_lift _).bind fun c => ?_
  refine (hin yes).bind fun thens => ?_
  have hid (elses : List Step) : IgnoresJournal (do
      let info := Step.Info.of (← nextId) (Step.describeBranch c) line [] .execute
      return [Step.branch info c thens elses]) :=
    ignoresJournal_nextId.bind fun id => .pure _
  cases no with
  | none => exact hid []
  | some no => exact (hin no).bind hid

/-- A command does the same in sessions that agree, if the lines inside it do. -/
theorem ignoresJournal_build (c : Command) : IgnoresJournal (build inner line c) := by
  -- a step is made from the number that is drawn for it
  have hstep (make : String → List Step) : IgnoresJournal (do return make (← nextId)) :=
    ignoresJournal_nextId.bind fun id => .pure (make id)
  cases c with
  | define name body =>
    refine (hin body).bind fun steps => ?_
    exact (ignoresJournal_define name steps).bind fun _ => .pure _
  | fetch endpoint target =>
    exact (ignoresJournal_recordType _ _).bind fun _ => hstep _
  | invoke name => exact ignoresJournal_invoke name
  | count body times => exact ignoresJournal_countLoop hin body times
  | branch condition yes no => exact ignoresJournal_branchOf hin condition yes no
  | wait seconds =>
    refine (ignoresJournal_lift _).bind fun number => ?_
    split
    · split
      · exact ignoresJournal_reject _
      · exact hstep _
    · exact ignoresJournal_reject _
  | set target raw =>
    simp only [build]
    split
    · refine (ignoresJournal_lift _).bind fun value => ?_
      exact (ignoresJournal_recordType _ _).bind fun _ => hstep _
    · exact ignoresJournal_reject _
  | leave => exact hstep _
  | ret raw =>
    simp only [build]
    split
    · exact ignoresJournal_reject _
    · refine ignoresJournal_nextId.bind fun id => ?_
      exact (ignoresJournal_lift _).bind fun value => .pure _
  | analyze raw model =>
    refine (ignoresJournal_recordType _ _).bind fun _ => ?_
    refine ignoresJournal_nextId.bind fun id => ?_
    exact (ignoresJournal_lift _).bind fun input => .pure _
  | render component target => exact hstep _
  | state name raw =>
    refine ignoresJournal_nextId.bind fun id => ?_
    exact (ignoresJournal_lift _).bind fun initial => .pure _
  | style selector raw => exact hstep _
  | listen event handler => exact hstep _

end Inner

theorem ignoresJournal_lineWithin (rules : List Rule) (n : Nat) (text : String) :
    IgnoresJournal (lineWithin rules n text) := by
  induction n generalizing text with
  | zero => exact ignoresJournal_reject _
  | succ n ih =>
    simp only [lineWithin]
    cases Command.read? rules (Text.trimmed text) with
    | none => exact ignoresJournal_reject _
    | some found =>
      refine (ignoresJournal_tell_dispatched _ _).bind fun _ => ?_
      exact (ignoresJournal_build ih found.2).nested

/-- **A line does the same in sessions that agree**, whatever has been told of commands before. -/
theorem ignoresJournal_line (text : String) : IgnoresJournal (line text) := by
  intro s t h
  simp only [line, bind_apply, get_apply, h.nesting]
  exact ignoresJournal_lineWithin _ _ text h

end Compile
end FlowScript
