import FlowScript.Proofs.Command
import FlowScript.Proofs.Step.WellFormed
import FlowScript.Proofs.Workflow.Lines

/-!
# Well-formed sessions

The steps that a session stores and those that a line yields are well formed, whatever the lines
hold: a template is made of steps that a line has yielded, and a copy of it is well formed again.

## Main definitions

* `Session.WellFormed`: the invariant of a session.

## Main statements

* `Command.Run.wellFormed`, `Compile.Run.wellFormed`: runs keep the invariant.
* `Workflow.wellFormed_of_assemble`: the steps of a text are well formed, and its variables have
  known types.
-/
namespace FlowScript

open Text Step

/-- The name of a type of values. -/
def IsTypeName (name : String) : Prop :=
  ∃ type : ValueType, name = type.name

/-- The number of the next step is not negative, variables have known types, and the templates are
well formed. -/
structure Session.WellFormed (s : Session) : Prop where
  counter : 0 ≤ s.counter
  types : ∀ e ∈ s.types.entries, IsTypeName e.2
  templates : ∀ e ∈ s.templates.entries, AllWellFormed e.2

theorem Session.WellFormed.drawn {s : Session} (h : s.WellFormed) : s.drawn.WellFormed := by
  refine ⟨?_, h.types, h.templates⟩
  have := h.counter
  simp only [Session.drawn_counter]
  omega

theorem Session.wellFormed_initial : Session.WellFormed {} :=
  ⟨by decide, by simp [Registry.empty], by simp [Registry.empty]⟩

namespace Command

variable {inner : Course} {line : String} {c : Command} {s t : Session} {steps : List Step}
  {defs : List Definition}

theorem mem_types_insert {r : Registry String} (hr : ∀ e ∈ r.entries, IsTypeName e.2)
    (name : String) (type : ValueType) :
    ∀ e ∈ (r.insert name type.name).entries, IsTypeName e.2 := by
  intro e he
  rcases Registry.mem_entries_insert he with he | rfl
  · exact hr e he
  · exact ⟨type, rfl⟩

/-- A single action of a command that fits its line is well formed. -/
theorem Performs.wellFormed {types types' : Registry String} {a : Action} {phrase : String}
    (h : Performs types c a phrase types') (hc : c.Fits line.toList)
    (ht : ∀ e ∈ types.entries, IsTypeName e.2) :
    a.WellFormed ∧ ∀ e ∈ types'.entries, IsTypeName e.2 := by
  cases h with
  | fetch endpoint target =>
    exact ⟨⟨isIdentifier_of_isWordRun hc.2, by simpa using hc.1⟩,
      mem_types_insert ht target .string⟩
  | wait h hn => exact ⟨⟨_, hn, rfl⟩, ht⟩
  | set hi hv => exact ⟨⟨hi, Value.wellFormed_of_read hv⟩, mem_types_insert ht _ _⟩
  | leave => exact ⟨trivial, ht⟩
  | ret hr hv => exact ⟨Value.wellFormed_of_read hv, ht⟩
  | @analyze raw model input h =>
    have hm := isWordRun_iff.1 hc.2
    exact ⟨⟨by simpa using hm.1, ⟨input, Expr.wellFormed_of_read h, rfl⟩,
      isIdentifier_result hc.2⟩, mem_types_insert ht _ .tensor⟩
  | render component target => exact ⟨isIdentifier_of_isWordRun hc, ht⟩
  | state h => exact ⟨⟨_, Expr.wellFormed_of_read h, rfl⟩, ht⟩
  | style selector raw => exact ⟨trivial, ht⟩
  | listen event handler => exact ⟨trivial, ht⟩

theorem wellFormed_counter {id : String} : (Expr.var (loopCounter id)).WellFormed := by
  simp [Expr.WellFormed, loopCounter]

theorem wellFormed_firstCount {counter : String} {n : Int} (hc : isIdentifier counter)
    (hn : 0 ≤ n) : (firstCount counter (stepId n)).WellFormed :=
  wellFormed_single (a := .set counter (.expr (.ofInt 0))) hn ⟨hc, rfl⟩ ""

theorem wellFormed_counted {m n : Int} {k : Int} {body : List Step} (hm : 0 ≤ m) (hn : 0 ≤ n)
    (hb : AllWellFormed body) : (counted line (stepId m) k body (stepId n)).WellFormed := by
  refine ⟨Info.wellFormed_of hm Access.wellFormed_execute, ⟨wellFormed_counter, rfl⟩, ?_⟩
  rw [allWellFormed_append, allWellFormed_singleton]
  exact ⟨hb, Info.wellFormed_of hn Access.wellFormed_execute, isIdentifier_loopCounter hm,
    wellFormed_counter, rfl⟩

theorem wellFormed_branched {n : Int} {condition : Condition} {yes no : List Step} (hn : 0 ≤ n)
    (hc : condition.WellFormed) (hy : AllWellFormed yes) (ho : AllWellFormed no) :
    (branched line (stepId n) condition yes no).WellFormed :=
  ⟨Info.wellFormed_of hn Access.wellFormed_execute, hc, hy, ho⟩

/-- The run of a command keeps the invariant, if the lines inside it do. -/
theorem Run.wellFormed (hc : c.Fits line.toList)
    (hin : ∀ text s steps defs t, inner text s steps defs t → s.WellFormed →
      t.WellFormed ∧ AllWellFormed steps ∧ s.counter ≤ t.counter)
    (h : Run inner line c s steps defs t) (hs : s.WellFormed) :
    t.WellFormed ∧ AllWellFormed steps ∧ s.counter ≤ t.counter := by
  cases h with
  | refused h => exact ⟨⟨hs.counter, hs.types, hs.templates⟩, trivial, Int.le_refl _⟩
  | @single _ _ action phrase types h =>
    obtain ⟨ha, ht⟩ := h.wellFormed hc hs.types
    refine ⟨⟨hs.drawn.counter, ht, hs.templates⟩, ?_, ?_⟩
    · simpa using wellFormed_single hs.counter ha phrase
    · simp only [Session.drawn_counter]
      omega
  | @copied name _ template h hne =>
    have ht := hs.templates _ (Registry.mem_entries_of_find? h)
    have hn := hs.counter
    have hl := le_renumberAll s.counter template
    refine ⟨⟨?_, hs.types, hs.templates⟩, .renumberAll hn template ht, ?_⟩
    · simp only [Session.copied_counter]
      omega
    · simpa using hl
  | @defined name body _ t steps defs h =>
    obtain ⟨ht, hsteps, hl⟩ := hin _ _ _ _ _ h hs
    refine ⟨⟨ht.counter, ht.types, fun e he => ?_⟩, trivial, hl⟩
    rcases Registry.mem_entries_insert he with he | rfl
    · exact ht.templates e he
    · exact hsteps
  | @counted body times _ t n inside defs hn hb h =>
    have hcount := hs.counter
    have hentered : ((s.drawn.typed (loopCounter (stepId s.counter))
        ValueType.number.name).drawn).WellFormed := by
      refine ⟨?_, mem_types_insert hs.types _ .number, hs.templates⟩
      simp only [Session.drawn_counter, Session.typed_counter]
      omega
    obtain ⟨ht, hinside, hl⟩ := hin _ _ _ _ _ h hentered
    simp only [Session.drawn_counter, Session.typed_counter] at hl
    refine ⟨ht.drawn, ⟨?_, ?_, trivial⟩, ?_⟩
    · exact wellFormed_firstCount (isIdentifier_loopCounter hcount) (by omega)
    · exact wellFormed_counted hcount ht.counter hinside
    · simp only [Session.drawn_counter]
      omega
  | taken hc' h =>
    obtain ⟨ht, hsteps, hl⟩ := hin _ _ _ _ _ h hs
    refine ⟨ht.drawn, ?_, ?_⟩
    · rw [allWellFormed_singleton]
      exact wellFormed_branched ht.counter (Condition.wellFormed_of_parse hc') hsteps trivial
    · simp only [Session.drawn_counter]
      omega
  | branched hc' hy hn =>
    obtain ⟨ht, hyes, hl⟩ := hin _ _ _ _ _ hy hs
    obtain ⟨hu, hno, hl'⟩ := hin _ _ _ _ _ hn ht
    refine ⟨hu.drawn, ?_, ?_⟩
    · rw [allWellFormed_singleton]
      exact wellFormed_branched hu.counter (Condition.wellFormed_of_parse hc') hyes hno
    · simp only [Session.drawn_counter]
      omega

end Command

namespace Compile

/-- **Runs keep sessions well formed**, and their steps are well formed. -/
theorem Run.wellFormed {n : Nat} {text : String} {s t : Session} {steps : List Step}
    {defs : List Definition} (h : Run Command.rules n text s steps defs t) (hs : s.WellFormed) :
    t.WellFormed ∧ AllWellFormed steps ∧ s.counter ≤ t.counter := by
  refine Run.induction (motive := fun _ _ s steps _ t => s.WellFormed →
    t.WellFormed ∧ AllWellFormed steps ∧ s.counter ≤ t.counter) ?tooDeep ?unrecognized ?command h hs
  case tooDeep =>
    intro text s hs
    exact ⟨⟨hs.counter, hs.types, hs.templates⟩, trivial, Int.le_refl _⟩
  case unrecognized =>
    intro n text s _ hs
    exact ⟨⟨hs.counter, hs.types, hs.templates⟩, trivial, Int.le_refl _⟩
  case command =>
    intro n text verb c s steps defs t ih hread hr hs
    obtain ⟨ht, hsteps, hl⟩ := hr.wellFormed (Command.fits_of_read? hread) ih
      ⟨hs.counter, hs.types, hs.templates⟩
    exact ⟨⟨ht.counter, ht.types, ht.templates⟩, hsteps, hl⟩

end Compile

namespace Workflow

/-- The steps are well formed, and the inputs and the outputs have known types. -/
structure WellFormed (w : Workflow) : Prop where
  steps : AllWellFormed w.steps
  inputs : ∀ e ∈ w.inputs.entries, IsTypeName e.2
  outputs : ∀ e ∈ w.outputs.entries, IsTypeName e.2

theorem wellFormed_stepsOf {lines : List String} {s t : Session} {steps : List Step}
    (hs : s.WellFormed) (h : stepsOf lines s = .ok steps t) :
    t.WellFormed ∧ AllWellFormed steps := by
  induction lines generalizing s steps with
  | nil =>
    obtain ⟨rfl, rfl⟩ := stepsOf_nil_eq_ok.1 h
    exact ⟨hs, trivial⟩
  | cons line lines ih =>
    obtain ⟨first, u, others, hl, ho, rfl⟩ := stepsOf_cons_eq_ok.1 h
    obtain ⟨defs, hr⟩ := Compile.line_eq_ok_iff.1 hl
    obtain ⟨hu, hfirst, -⟩ := hr.wellFormed hs
    obtain ⟨ht, hothers⟩ := ih hu ho
    exact ⟨ht, allWellFormed_append.2 ⟨hfirst, hothers⟩⟩

/-- Variables have known types if they are recorded with known types. -/
theorem isTypeName_typed {types : Registry String} (ht : ∀ e ∈ types.entries, IsTypeName e.2)
    (names : List String) : ∀ e ∈ (typed types names).entries, IsTypeName e.2 := by
  intro e he
  rcases Registry.mem_entries_register (r := .empty) he with he | he
  · simp [Registry.empty] at he
  · obtain ⟨name, -, rfl⟩ := List.mem_map.1 he
    cases hf : types.find? name with
    | none => exact ⟨.string, by simp⟩
    | some type => simpa [hf] using ht _ (Registry.mem_entries_of_find? hf)

/-- **The workflow of a text is well formed.** -/
theorem wellFormed_of_assemble {function text : String} {w : Workflow} {t : Session}
    (h : assemble function text {} = .ok w t) : w.WellFormed := by
  obtain ⟨steps, hs, rfl⟩ := assemble_eq_ok.1 h
  obtain ⟨ht, hsteps⟩ := wellFormed_stepsOf Session.wellFormed_initial hs
  exact ⟨hsteps, isTypeName_typed ht.types _, isTypeName_typed ht.types _⟩

end Workflow
end FlowScript
