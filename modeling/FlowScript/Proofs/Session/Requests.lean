import FlowScript.Proofs.Session.Numbering

/-!
# Requests to a session

A session is asked to carry out a line, to copy the steps of a template, to draw a number, to record
a type or to note a diagnostic, one request after another. A request that meets a fault yields no
steps, what it did before the fault stays done, and the next request goes on from there.

## Main definitions

* `Request`, `Request.perform`, `performAll`: requests, and what they come to.
* `Request.Turn`, `Dialogue`: the same as relations that list the definitions made on the way.
* `PassedOn`: what lines keep true of a session, and what they make true of their steps.

## Main statements

* `performAll_eq_iff`: the dialogues are what requests come to.
* `Dialogue.templates_eq`: the templates after a dialogue are those before it, with the definitions
  registered in order.
* `Dialogue.nesting_eq`: a dialogue leaves the level of commands as it was.
* `PassedOn.answers`: what lines pass on, requests pass on, too.
-/
namespace FlowScript

-- Otherwise the elaborator reads the line of a run whenever a run is given to a lemma.
attribute [local irreducible] Compile.Run

/-- What a session can be asked for. -/
inductive Request where
  /-- A line is carried out, or the steps of a template are copied. -/
  | carry (op : Operation)
  /-- The number of a step is drawn. -/
  | draw
  /-- The type of a variable is recorded. -/
  | record (name type : String)
  /-- A diagnostic is noted. -/
  | note (message : String)
  deriving DecidableEq, Repr, Inhabited

namespace Request

/-- The computation of a request. -/
def compute : Request → Compile (List Step)
  | carry op => op.carry
  | draw => do
    let _ ← Compile.nextId
    return []
  | record name type => do
    Compile.recordType name type
    return []
  | note message => Compile.reject (.note message)

/-- The steps that a request yields, which are none after a fault, and the session afterwards. -/
def perform (r : Request) (s : Session) : List Step × Session :=
  match r.compute s with
  | .ok steps t => (steps, t)
  | .error _ t => ([], t)

/-- What a request does in a session: the steps that it yields, the definitions that it makes, and
the session afterwards. -/
inductive Turn : Request → Session → List Step → List Definition → Session → Prop
  | carry {op : Operation} {s t : Session} {steps : List Step} {defs : List Definition}
      (h : op.Turn s steps defs t) : Turn (carry op) s steps defs t
  | draw {s : Session} : Turn draw s [] [] s.drawn
  | record {name type : String} {s : Session} : Turn (record name type) s [] [] (s.typed name type)
  | note {message : String} {s : Session} :
      Turn (note message) s [] [] (s.told (.reported (.note message)))

variable {r : Request} {s t : Session} {steps : List Step} {defs : List Definition}

/-- An operation that meets a fault has a turn without steps. -/
theorem turn_of_fault {op : Operation} {f : Fault} (h : op.carry s = .error f t) :
    ∃ defs, op.Turn s [] defs t := by
  cases op with
  | line text =>
    obtain ⟨defs, hh⟩ := Compile.line_eq_error_iff.1 h
    exact ⟨defs, .cutOff hh⟩
  | expand name =>
    cases hf : s.templates.find? name with
    | none =>
      simp only [Operation.carry, Compile.expand, Compile.bind_apply, Compile.get_apply, hf,
        Compile.throw_apply, EStateM.Result.error.injEq] at h
      rw [← h.2]
      exact ⟨[], .undefined hf⟩
    | some template => simp [Operation.carry_expand hf] at h

/-- Every request has a turn. -/
theorem exists_turn (r : Request) (s : Session) :
    ∃ defs, r.Turn s (r.perform s).1 defs (r.perform s).2 := by
  cases r with
  | carry op =>
    simp only [perform, compute]
    cases hc : op.carry s with
    | ok steps t =>
      obtain ⟨defs, ht⟩ := Operation.turn_of_carry hc
      exact ⟨defs, .carry ht⟩
    | error f t =>
      obtain ⟨defs, ht⟩ := turn_of_fault hc
      exact ⟨defs, .carry ht⟩
  | draw => exact ⟨[], .draw⟩
  | record name type => exact ⟨[], .record⟩
  | note message => exact ⟨[], .note⟩

/-- A turn is what the request comes to. -/
theorem Turn.perform_eq (h : r.Turn s steps defs t) : r.perform s = (steps, t) := by
  cases h with
  | carry h =>
    cases h with
    | line hr =>
      have hc := Compile.line_eq_ok_iff.2 ⟨_, hr⟩
      simp only [perform, compute, Operation.carry, hc]
    | cutOff hh =>
      have hc := Compile.line_eq_error_iff.2 ⟨_, hh⟩
      simp only [perform, compute, Operation.carry, hc]
    | expand hf => simp only [perform, compute, Operation.carry_expand hf]
    | undefined hf =>
      simp only [perform, compute, Operation.carry, Compile.expand, Compile.bind_apply,
        Compile.get_apply, hf, Compile.throw_apply]
  | draw => rfl
  | record => rfl
  | note => rfl

theorem Turn.templates_eq (h : r.Turn s steps defs t) :
    t.templates = s.templates.register defs := by
  cases h with
  | carry h => exact h.templates_eq
  | draw => rfl
  | record => rfl
  | note => rfl

theorem Turn.nesting_eq (h : r.Turn s steps defs t) : t.nesting = s.nesting := by
  cases h with
  | carry h =>
    cases h with
    | line hr => exact hr.nesting_eq
    | cutOff hh => exact hh.nesting_eq
    | expand hf => rfl
    | undefined hf => rfl
  | draw => rfl
  | record => rfl
  | note => rfl

end Request

/-- The steps that some requests yield one after another, and the session afterwards. -/
def performAll : List Request → Session → List (List Step) × Session
  | [], s => ([], s)
  | r :: rs, s =>
    let (steps, t) := r.perform s
    let (others, u) := performAll rs t
    (steps :: others, u)

theorem performAll_line {text : String} {s t : Session} {steps : List Step} {rs : List Request}
    (h : Compile.line text s = .ok steps t) :
    performAll (.carry (.line text) :: rs) s =
      (steps :: (performAll rs t).1, (performAll rs t).2) := by
  simp [performAll, Request.perform, Request.compute, Operation.carry, h]

/-- What some requests do one after another: the steps that each of them yields, the definitions
that they make, in order, and the session afterwards. -/
inductive Dialogue :
    Session → List Request → List (List Step) → List Definition → Session → Prop
  | nil {s : Session} : Dialogue s [] [] [] s
  | cons {r : Request} {rs : List Request} {s t u : Session} {steps : List Step}
      {others : List (List Step)} {defs more : List Definition} (h : r.Turn s steps defs t)
      (hs : Dialogue t rs others more u) :
      Dialogue s (r :: rs) (steps :: others) (defs ++ more) u

/-- The dialogues are what some requests come to. -/
theorem performAll_eq_iff {rs : List Request} {s t : Session} {answers : List (List Step)} :
    performAll rs s = (answers, t) ↔ ∃ defs, Dialogue s rs answers defs t := by
  constructor
  · intro h
    induction rs generalizing s answers with
    | nil =>
      obtain ⟨rfl, rfl⟩ := Prod.mk.inj h
      exact ⟨[], .nil⟩
    | cons r rs ih =>
      obtain ⟨rfl, hu⟩ := Prod.mk.inj h
      obtain ⟨defs, ht⟩ := r.exists_turn s
      obtain ⟨more, hs⟩ := ih (Prod.ext rfl hu)
      exact ⟨defs ++ more, .cons ht hs⟩
  · rintro ⟨defs, h⟩
    induction h with
    | nil => rfl
    | cons ht _ ih => simp only [performAll, ht.perform_eq, ih]

namespace Dialogue

variable {s t : Session} {rs : List Request} {answers : List (List Step)} {defs : List Definition}

/-- A line at the outermost level that meets no fault, and some requests after it. -/
theorem cons_line {text : String} {steps : List Step} {more : List Definition} {u : Session}
    (hs : s.nesting = 0) (hr : Compile.Run Command.rules maxNesting text s steps defs t)
    (hd : Dialogue t rs answers more u) :
    Dialogue s (.carry (.line text) :: rs) (steps :: answers) (defs ++ more) u := by
  refine .cons (.carry (.line ?_)) hd
  rw [Compile.allowance_outermost hs]
  exact hr

/-- The templates after a dialogue are those before it, with the definitions registered in order. -/
theorem templates_eq (h : Dialogue s rs answers defs t) :
    t.templates = s.templates.register defs := by
  induction h with
  | nil => rfl
  | cons h _ ih => rw [ih, h.templates_eq, Registry.register_append]

theorem nesting_eq (h : Dialogue s rs answers defs t) : t.nesting = s.nesting := by
  induction h with
  | nil => rfl
  | cons h _ ih => rw [ih, h.nesting_eq]

end Dialogue

/-! ## What requests pass on -/

/-- A property of sessions that the templates decide and that a larger counter does not harm, and a
property of steps: lines keep the one and yield the other, and copies of templates have it, too. -/
structure PassedOn (I : Session → Prop) (R : List Step → Prop) : Prop where
  of_le : ∀ {s t : Session}, I s → s.counter ≤ t.counter → t.templates = s.templates → I t
  run : ∀ {n : Nat} {text : String} {s t : Session} {steps : List Step} {defs : List Definition},
    Compile.Run Command.rules n text s steps defs t → I s → I t ∧ R steps
  copy : ∀ {s : Session} {name : String} {template : List Step}, I s →
    s.templates.find? name = some template → R (Step.renumberAll s.counter template).1
  nothing : R []

namespace PassedOn

variable {I : Session → Prop} {R : List Step → Prop} {s t : Session}

/-- A fault leaves the templates as they have been. -/
theorem halt (hp : PassedOn I R) {n : Nat} {text : String} {f : Fault} {defs : List Definition}
    (h : Compile.Halt Command.rules n text s f defs t) (hs : I s) : I t := by
  refine Compile.Halt.induction (motive := fun _ _ s _ _ t => I s → I t) ?command h hs
  case command =>
    intro n text verb c s f defs t ih _ hh hs
    have hentered : I (s.told (.dispatched (Text.trimmed text) verb)).entered :=
      hp.of_le hs (Int.le_refl _) rfl
    have ht : I t := by
      cases hh with
      | broken h => exact hp.of_le hentered h.counter_le h.templates_eq
      | defined h => exact ih _ _ _ _ _ h hentered
      | counted hn hb h =>
        refine ih _ _ _ _ _ h (hp.of_le hentered ?_ rfl)
        simp only [Session.drawn_counter, Session.typed_counter]
        omega
      | yes hc h => exact ih _ _ _ _ _ h hentered
      | no hc hy hn => exact ih _ _ _ _ _ hn (hp.run hy hentered).1
    exact hp.of_le ht (Int.le_refl _) rfl

theorem turn (hp : PassedOn I R) {r : Request} {steps : List Step} {defs : List Definition}
    (h : r.Turn s steps defs t) (hs : I s) : I t ∧ R steps := by
  cases h with
  | carry h =>
    cases h with
    | line hr => exact hp.run hr hs
    | cutOff hh => exact ⟨hp.halt hh hs, hp.nothing⟩
    | expand hf => exact ⟨hp.of_le hs (Step.le_renumberAll _ _) rfl, hp.copy hs hf⟩
    | undefined hf => exact ⟨hs, hp.nothing⟩
  | draw => exact ⟨hp.of_le hs (Int.le_add_one (Int.le_refl _)) rfl, hp.nothing⟩
  | record => exact ⟨hp.of_le hs (Int.le_refl _) rfl, hp.nothing⟩
  | note => exact ⟨hp.of_le hs (Int.le_refl _) rfl, hp.nothing⟩

/-- **What lines pass on, requests pass on, too**, whatever a session is asked for. -/
theorem answers (hp : PassedOn I R) (rs : List Request) (hs : I s) :
    I (performAll rs s).2 ∧ ∀ steps ∈ (performAll rs s).1, R steps := by
  induction rs generalizing s with
  | nil => exact ⟨hs, by simp [performAll]⟩
  | cons r rs ih =>
    obtain ⟨defs, hturn⟩ := r.exists_turn s
    obtain ⟨ht, hsteps⟩ := hp.turn hturn hs
    obtain ⟨hu, hothers⟩ := ih ht
    exact ⟨hu, List.forall_mem_cons.2 ⟨hsteps, hothers⟩⟩

end PassedOn
end FlowScript
