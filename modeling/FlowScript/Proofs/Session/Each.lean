import FlowScript.Proofs.Step.Each
import FlowScript.Proofs.Workflow.Lines

/-!
# What commands pass on

Commands make actions and conditions, and everything else that yields steps only puts them together
or copies them under new names. So a property that does not look at names and holds of all that a
command makes holds of every step of a workflow, however deep it lies and however often it has been
copied.

## Main definitions

* `Step.Inherent`: properties that hold of all that commands make.

## Main statements

* `Compile.Run.each`: what is inherent holds of the steps of a line and of its definitions.
* `Workflow.each_of_assemble`: what is inherent holds of all steps of a text.
-/
namespace FlowScript

open Text

namespace Step

/-- A property of actions and one of conditions that do not look at the names of steps and hold of
all that commands make. -/
structure Inherent (P : Info → Action → Prop) (Q : Condition → Prop) : Prop where
  renamed : ∀ i a id, P i a → P { i with id } a
  act : ∀ {line verb : String} {c : Command} {types types' : Registry String} {a : Action}
    {phrase : String} (id : String), Command.read? Command.rules line = some (verb, c) →
    c.Performs types a phrase types' → P (.of id a.describe phrase [] a.access) a
  first : ∀ (n : Int) (id : String), 0 ≤ n →
    Each P Q (Command.firstCount (loopCounter (stepId n)) id)
  next : ∀ (n : Int) (id : String), 0 ≤ n →
    Each P Q (Command.nextCount (loopCounter (stepId n)) id)
  below : ∀ (n times : Int), 0 ≤ n → Q (Command.belowCount (loopCounter (stepId n)) times)
  condition : ∀ {line verb condition yes : String} {no : Option String} {c : Condition},
    Command.read? Command.rules line = some (verb, .branch condition yes no) →
    Condition.parse condition.toList = .ok c → Q c

end Step

open Step

variable {P : Step.Info → Action → Prop} {Q : Condition → Prop}

/-- The templates of a session have two properties, and the number of its next step is not
negative. -/
structure Session.Each (P : Step.Info → Action → Prop) (Q : Condition → Prop) (s : Session) :
    Prop where
  counter : 0 ≤ s.counter
  templates : ∀ e ∈ s.templates.entries, EachAll P Q e.2

theorem Session.each_initial : Session.Each P Q {} :=
  ⟨by decide, by simp [Registry.empty]⟩

/-- The run of a command keeps what is inherent, if the lines inside it do. -/
theorem Command.Run.each (hi : Inherent P Q) {inner : Course} {line verb : String} {c : Command}
    {s t : Session} {steps : List Step} {defs : List Definition}
    (hread : Command.read? Command.rules line = some (verb, c))
    (hin : ∀ text s steps defs t, inner text s steps defs t → s.Each P Q →
      t.Each P Q ∧ EachAll P Q steps ∧ s.counter ≤ t.counter)
    (h : Run inner line c s steps defs t) (hs : s.Each P Q) :
    t.Each P Q ∧ EachAll P Q steps ∧ s.counter ≤ t.counter := by
  have hnext : ∀ {u : Session}, u.Each P Q → u.drawn.Each P Q := fun hu =>
    ⟨Int.le_trans hu.counter (Int.le_add_one (Int.le_refl _)), hu.templates⟩
  cases h with
  | refused h => exact ⟨⟨hs.counter, hs.templates⟩, trivial, Int.le_refl _⟩
  | single h =>
    refine ⟨⟨(hnext hs).counter, hs.templates⟩, ⟨hi.act _ hread h, trivial⟩, ?_⟩
    exact Int.le_add_one (Int.le_refl _)
  | @copied name _ template h hne =>
    have ht := hs.templates _ (Registry.mem_entries_of_find? h)
    have hl := le_renumberAll s.counter template
    exact ⟨⟨Int.le_trans hs.counter hl, hs.templates⟩, .renumberAll hi.renamed _ _ ht, hl⟩
  | defined h =>
    obtain ⟨ht, hsteps, hl⟩ := hin _ _ _ _ _ h hs
    refine ⟨⟨ht.counter, fun e he => ?_⟩, trivial, hl⟩
    rcases Registry.mem_entries_insert he with he | rfl
    · exact ht.templates e he
    · exact hsteps
  | counted hn hb h =>
    have hentered := hnext hs
    obtain ⟨ht, hbody, hl⟩ := hin _ _ _ _ _ h
      (hnext ⟨hentered.counter, hentered.templates⟩)
    simp only [Session.drawn_counter, Session.typed_counter] at hl
    refine ⟨hnext ht, ⟨hi.first _ _ hs.counter, ⟨hi.below _ _ hs.counter, ?_⟩, trivial⟩, ?_⟩
    · rw [eachAll_append]
      exact ⟨hbody, hi.next _ _ hs.counter, trivial⟩
    · simp only [Session.drawn_counter]
      omega
  | taken hc h =>
    obtain ⟨ht, hsteps, hl⟩ := hin _ _ _ _ _ h hs
    refine ⟨hnext ht, ⟨⟨hi.condition hread hc, hsteps, trivial⟩, trivial⟩, ?_⟩
    simp only [Session.drawn_counter]
    omega
  | branched hc hy hn =>
    obtain ⟨ht, hyes, hl⟩ := hin _ _ _ _ _ hy hs
    obtain ⟨hu, hno, hl'⟩ := hin _ _ _ _ _ hn ht
    refine ⟨hnext hu, ⟨⟨hi.condition hread hc, hyes, hno⟩, trivial⟩, ?_⟩
    simp only [Session.drawn_counter]
    omega

namespace Compile

/-- **What is inherent holds of the steps of every line**, and stays true of the templates. -/
theorem Run.each (hi : Inherent P Q) {n : Nat} {text : String} {s t : Session} {steps : List Step}
    {defs : List Definition} (h : Run Command.rules n text s steps defs t) (hs : s.Each P Q) :
    t.Each P Q ∧ EachAll P Q steps ∧ s.counter ≤ t.counter := by
  refine Run.induction (motive := fun _ _ s steps _ t => s.Each P Q →
    t.Each P Q ∧ EachAll P Q steps ∧ s.counter ≤ t.counter) ?tooDeep ?unrecognized ?command h hs
  case tooDeep =>
    intro text s hs
    exact ⟨⟨hs.counter, hs.templates⟩, trivial, Int.le_refl _⟩
  case unrecognized =>
    intro n text s _ hs
    exact ⟨⟨hs.counter, hs.templates⟩, trivial, Int.le_refl _⟩
  case command =>
    intro n text verb c s steps defs t ih hread hr hs
    obtain ⟨ht, hsteps, hl⟩ := hr.each hi hread ih ⟨hs.counter, hs.templates⟩
    exact ⟨⟨ht.counter, ht.templates⟩, hsteps, hl⟩

end Compile

namespace Workflow

theorem each_of_stepsOf (hi : Inherent P Q) {lines : List String} {s t : Session}
    {steps : List Step} (hs : s.Each P Q) (h : stepsOf lines s = .ok steps t) :
    EachAll P Q steps := by
  induction lines generalizing s steps with
  | nil =>
    obtain ⟨rfl, rfl⟩ := stepsOf_nil_eq_ok.1 h
    trivial
  | cons line lines ih =>
    obtain ⟨first, u, others, hl, ho, rfl⟩ := stepsOf_cons_eq_ok.1 h
    obtain ⟨defs, hr⟩ := Compile.line_eq_ok_iff.1 hl
    obtain ⟨hu, hfirst, -⟩ := hr.each hi hs
    exact eachAll_append.2 ⟨hfirst, ih hu ho⟩

/-- **What is inherent holds of all steps of a text.** -/
theorem each_of_assemble (hi : Inherent P Q) {function text : String} {w : Workflow} {t : Session}
    (h : assemble function text {} = .ok w t) : EachAll P Q w.steps := by
  obtain ⟨steps, hs, rfl⟩ := assemble_eq_ok.1 h
  exact each_of_stepsOf hi Session.each_initial hs

end Workflow
end FlowScript
