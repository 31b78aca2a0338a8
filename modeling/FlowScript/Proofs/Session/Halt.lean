import FlowScript.Proofs.Session.Adequacy

/-!
# Lines that meet a fault

A fault ends the line that meets it and all lines around it. What was done before stays done: steps
keep their numbers, and the templates that were defined on the way stay defined. Lines that end in
this way are described by a relation beside that of the runs.

## Main definitions

* `Command.Breaks`: the faults that a command meets by itself.
* `Command.Halt`, `Compile.Halt`: the commands and the lines that end in a fault.

## Main statements

* `Compile.lineWithin_eq_error_iff`: the computations that end in a fault are described exactly.
* `Compile.run_or_halt`: a line runs or ends in a fault.
* `Compile.Halt.induction`: how a property of all of them is proved.
* `Compile.Halt.templates_eq`: the templates after a fault are those before the line, with the
  definitions registered in order.
-/
namespace FlowScript

open Text

namespace Command

/-- The faults that a command meets by itself, and the session in which it does. -/
inductive Breaks (s : Session) : Command → Fault → Session → Prop
  | count {body times : String} {f : Fault} (h : number? times.toList = .error f) :
      Breaks s (count body times) f s
  | branch {condition yes : String} {no : Option String} {f : Fault}
      (h : Condition.parse condition.toList = .error f) : Breaks s (branch condition yes no) f s
  | wait {seconds : String} {f : Fault} (h : number? seconds.toList = .error f) :
      Breaks s (wait seconds) f s
  | set {target raw : String} {f : Fault} (ht : isIdentifier target)
      (h : Value.read raw.toList = .error f) : Breaks s (set target raw) f s
  | ret {raw : String} {f : Fault} (hr : (trimmed raw).isEmpty = false)
      (h : Value.read raw.toList = .error f) : Breaks s (ret raw) f s.drawn
  | analyze {raw model : String} {f : Fault} (h : Expr.read raw.toList = .error f) :
      Breaks s (analyze raw model) f
        (s.typed (.join ["result_", model]) ValueType.tensor.name).drawn
  | state {name raw : String} {f : Fault} (h : Expr.read raw.toList = .error f) :
      Breaks s (state name raw) f s.drawn

namespace Breaks

variable {c : Command} {s t : Session} {f : Fault}

theorem counter_le (h : Breaks s c f t) : s.counter ≤ t.counter := by
  cases h <;> first | exact Int.le_refl _ | exact Int.le_add_one (Int.le_refl _)

theorem templates_eq (h : Breaks s c f t) : t.templates = s.templates := by
  cases h <;> rfl

theorem nesting_eq (h : Breaks s c f t) : t.nesting = s.nesting := by
  cases h <;> rfl

end Breaks

/-- Lines that end in a fault: from a session, with the definitions made on the way in order, to
the session in which the fault is met. -/
abbrev Failure := String → Session → Fault → List Definition → Session → Prop

/-- The commands that end in a fault, given the runs and the faults of the lines inside them. -/
inductive Halt (inner : Course) (failure : Failure) :
    Command → Session → Fault → List Definition → Session → Prop
  | broken {c : Command} {s t : Session} {f : Fault} (h : Breaks s c f t) :
      Halt inner failure c s f [] t
  | defined {name body : String} {s t : Session} {f : Fault} {defs : List Definition}
      (h : failure body s f defs t) : Halt inner failure (define name body) s f defs t
  | counted {body times : String} {s t : Session} {n : Int} {f : Fault} {defs : List Definition}
      (hn : number? times.toList = .ok (some (.int n))) (hb : trim body.toList ≠ [])
      (h : failure body
        ((s.drawn.typed (loopCounter (stepId s.counter)) ValueType.number.name).drawn) f defs t) :
      Halt inner failure (count body times) s f defs t
  | yes {condition yes : String} {no : Option String} {s t : Session} {c : Condition} {f : Fault}
      {defs : List Definition} (hc : Condition.parse condition.toList = .ok c)
      (h : failure yes s f defs t) : Halt inner failure (branch condition yes no) s f defs t
  | no {condition yes no : String} {s t u : Session} {c : Condition} {steps : List Step}
      {f : Fault} {defs more : List Definition} (hc : Condition.parse condition.toList = .ok c)
      (hy : inner yes s steps defs t) (hn : failure no t f more u) :
      Halt inner failure (branch condition yes (some no)) s f (defs ++ more) u

end Command

namespace Compile

variable {α β : Type} {inner : Inner} {R : Command.Course} {F : Command.Failure} {line : String}
  {s s' : Session} {f : Fault}

theorem bind_eq_error {c : Compile α} {g : α → Compile β} :
    (c >>= g) s = .error f s' ↔
      c s = .error f s' ∨ ∃ a t, c s = .ok a t ∧ g a t = .error f s' := by
  rw [bind_apply]
  cases c s with
  | ok a t =>
    simp only [reduceCtorEq, false_or]
    constructor
    · intro h
      exact ⟨a, t, rfl, h⟩
    · rintro ⟨_, _, ⟨rfl, rfl⟩, h⟩
      exact h
  | error e t => simp

@[simp] theorem lift_eq_error {x : Except Fault α} :
    lift x s = .error f s' ↔ x = .error f ∧ s' = s := by
  cases x <;> simp [lift, eq_comm]

theorem nested_eq_error {c : Compile α} :
    nested c s = .error f s' ↔ ∃ t, c s.entered = .error f t ∧ s' = t.exited := by
  rw [nested_apply]
  cases hc : c s.entered with
  | ok a t => simp
  | error e t =>
    simp only [EStateM.Result.error.injEq]
    constructor
    · rintro ⟨rfl, rfl⟩
      exact ⟨t, ⟨rfl, rfl⟩, rfl⟩
    · rintro ⟨_, ⟨rfl, rfl⟩, rfl⟩
      exact ⟨rfl, rfl⟩

/-! ## Faults of one command -/

theorem halt_of_countLoop {body times : String}
    (hf : ∀ text t e t', inner text t = .error e t' → ∃ defs, F text t e defs t')
    (h : countLoop inner line body times s = .error f s') :
    ∃ defs, Command.Halt R F (.count body times) s f defs s' := by
  simp only [countLoop, bind_eq_error, lift_eq_error, lift_eq_ok] at h
  obtain ⟨hn, rfl⟩ | ⟨number, t, ⟨hn, ht⟩, h⟩ := h
  · exact ⟨[], .broken (.count hn)⟩
  · subst t
    split at h
    · split at h
      · simp at h
      · rename_i hb
        simp only [bind_eq_error, nextId_apply, recordType_apply, reduceCtorEq, false_or,
          EStateM.Result.ok.injEq, pure_apply, and_false, exists_false, or_false] at h
        obtain ⟨_, _, ⟨rfl, rfl⟩, _, _, ⟨-, rfl⟩, _, _, ⟨rfl, rfl⟩, hi⟩ := h
        obtain ⟨defs, hd⟩ := hf _ _ _ _ hi
        exact ⟨defs, .counted hn (by simpa using hb) hd⟩
    · simp at h

theorem halt_of_branchOf {condition yes : String} {no : Option String}
    (hr : ∀ text t ss t', inner text t = .ok ss t' → ∃ defs, R text t ss defs t')
    (hf : ∀ text t e t', inner text t = .error e t' → ∃ defs, F text t e defs t')
    (h : branchOf inner line condition yes no s = .error f s') :
    ∃ defs, Command.Halt R F (.branch condition yes no) s f defs s' := by
  simp only [branchOf, bind_eq_error, lift_eq_error, lift_eq_ok] at h
  obtain ⟨hc, rfl⟩ | ⟨c, t, ⟨hc, ht⟩, h⟩ := h
  · exact ⟨[], .broken (.branch hc)⟩
  · subst t
    obtain hy | ⟨steps, t, hy, h⟩ := h
    · obtain ⟨defs, hd⟩ := hf _ _ _ _ hy
      exact ⟨defs, .yes hc hd⟩
    · cases no with
      | none => simp only [bind_apply, pure_apply, nextId_apply, reduceCtorEq] at h
      | some no =>
        simp only [bind_eq_error, nextId_apply, reduceCtorEq, EStateM.Result.ok.injEq,
          pure_apply, and_false, exists_false, or_false] at h
        obtain ⟨defs, hd⟩ := hr _ _ _ _ hy
        obtain ⟨more, hm⟩ := hf _ _ _ _ h
        exact ⟨defs ++ more, .no hc hd hm⟩

/-- A computation of a command that ends in a fault is one that the relation describes. -/
theorem halt_of_build {c : Command}
    (hr : ∀ text t ss t', inner text t = .ok ss t' → ∃ defs, R text t ss defs t')
    (hf : ∀ text t e t', inner text t = .error e t' → ∃ defs, F text t e defs t')
    (h : build inner line c s = .error f s') : ∃ defs, Command.Halt R F c s f defs s' := by
  cases c with
  | define name body =>
    simp only [build, bind_eq_error, define_apply, pure_apply, reduceCtorEq, and_false,
      exists_false, or_false] at h
    obtain ⟨defs, hd⟩ := hf _ _ _ _ h
    exact ⟨defs, .defined hd⟩
  | fetch endpoint target =>
    simp only [build, bind_apply, recordType_apply, nextId_apply, pure_apply, reduceCtorEq] at h
  | invoke name =>
    simp only [build, invoke, bind_apply, get_apply] at h
    cases hf : s.templates.find? name with
    | none => simp [hf] at h
    | some template => cases template <;> simp [hf] at h
  | count body times => exact halt_of_countLoop hf h
  | branch condition yes no => exact halt_of_branchOf hr hf h
  | wait seconds =>
    simp only [build, bind_eq_error, lift_eq_error, lift_eq_ok] at h
    obtain ⟨hn, rfl⟩ | ⟨number, t, -, h⟩ := h
    · exact ⟨[], .broken (.wait hn)⟩
    · split at h
      · split at h
        · simp at h
        · simp only [bind_apply, nextId_apply, pure_apply, reduceCtorEq] at h
      · simp at h
  | set target raw =>
    simp only [build] at h
    split at h
    · rename_i hi
      simp only [bind_eq_error, lift_eq_error, recordType_apply, nextId_apply, pure_apply,
        reduceCtorEq, and_false, exists_false, or_false] at h
      obtain ⟨hv, rfl⟩ := h
      exact ⟨[], .broken (.set hi hv)⟩
    · simp at h
  | leave =>
    simp only [build, bind_apply, nextId_apply, pure_apply, reduceCtorEq] at h
  | ret raw =>
    simp only [build] at h
    split at h
    · simp at h
    · rename_i hr
      simp only [bind_eq_error, lift_eq_error, nextId_apply, pure_apply, reduceCtorEq, and_false,
        exists_false, or_false, false_or, EStateM.Result.ok.injEq] at h
      obtain ⟨_, _, ⟨rfl, rfl⟩, hv, rfl⟩ := h
      exact ⟨[], .broken (.ret (by simpa using hr) hv)⟩
  | analyze raw model =>
    simp only [build, bind_eq_error, lift_eq_error, recordType_apply, nextId_apply, pure_apply,
      reduceCtorEq, and_false, exists_false, or_false, false_or, EStateM.Result.ok.injEq] at h
    obtain ⟨_, _, ⟨-, rfl⟩, _, _, ⟨rfl, rfl⟩, hv, rfl⟩ := h
    exact ⟨[], .broken (.analyze hv)⟩
  | render component target =>
    simp only [build, bind_apply, nextId_apply, pure_apply, reduceCtorEq] at h
  | state name raw =>
    simp only [build, bind_eq_error, lift_eq_error, nextId_apply, pure_apply, reduceCtorEq,
      and_false, exists_false, or_false, false_or, EStateM.Result.ok.injEq] at h
    obtain ⟨_, _, ⟨rfl, rfl⟩, hv, rfl⟩ := h
    exact ⟨[], .broken (.state hv)⟩
  | style selector raw =>
    simp only [build, bind_apply, nextId_apply, pure_apply, reduceCtorEq] at h
  | listen event handler =>
    simp only [build, bind_apply, nextId_apply, pure_apply, reduceCtorEq] at h

theorem lift_error {α : Type} (e : Fault) (s : Session) :
    (lift (.error e) : Compile α) s = .error e s := rfl

/-- A command that meets a fault by itself ends in it. -/
theorem build_of_breaks {c : Command} (h : Command.Breaks s c f s') :
    build inner line c s = .error f s' := by
  cases h with
  | count h => simp only [build, countLoop, bind_apply, h, lift_error]
  | branch h => simp only [build, branchOf, bind_apply, h, lift_error]
  | wait h => simp only [build, bind_apply, h, lift_error]
  | set ht h => simp only [build, ht, if_true, bind_apply, h, lift_error]
  | ret hr h =>
    simp only [build, hr, Bool.false_eq_true, if_false, bind_apply, nextId_apply, h, lift_error]
  | analyze h => simp only [build, bind_apply, recordType_apply, nextId_apply, h, lift_error]
  | state h => simp only [build, bind_apply, nextId_apply, h, lift_error]

theorem build_of_halt {c : Command} {defs : List Definition}
    (hr : ∀ text t ss ds t', R text t ss ds t' → inner text t = .ok ss t')
    (hf : ∀ text t e ds t', F text t e ds t' → inner text t = .error e t')
    (h : Command.Halt R F c s f defs s') : build inner line c s = .error f s' := by
  cases h with
  | broken h => exact build_of_breaks h
  | defined h => simp only [build, bind_apply, hf _ _ _ _ _ h]
  | counted hn hb h =>
    simp only [build, countLoop, bind_apply, hn, lift_ok, List.isEmpty_iff, hb, if_false,
      nextId_apply, recordType_apply, hf _ _ _ _ _ h]
  | yes hc h => simp only [build, branchOf, bind_apply, hc, lift_ok, hf _ _ _ _ _ h]
  | no hc hy hn =>
    simp only [build, branchOf, bind_apply, hc, lift_ok, hr _ _ _ _ _ hy, hf _ _ _ _ _ hn]

/-! ## Faults of lines -/

/-- The lines, read by some rules, that end in a fault, with an allowance for commands inside each
other. -/
def Halt (rules : List Rule) : Nat → Command.Failure
  | 0, _, _, _, _, _ => False
  | allowance + 1, text, s, f, defs, s' =>
    match Command.read? rules (trimmed text) with
    | none => False
    | some (verb, command) =>
      ∃ t, Command.Halt (Run rules allowance) (Halt rules allowance) command
        (s.told (.dispatched (trimmed text) verb)).entered f defs t ∧ s' = t.exited

/-- The computations of a line that end in a fault are described exactly. -/
theorem lineWithin_eq_error_iff {rules : List Rule} {n : Nat} {text : String} :
    lineWithin rules n text s = .error f s' ↔ ∃ defs, Halt rules n text s f defs s' := by
  induction n generalizing text s f s' with
  | zero => simp [lineWithin, Halt]
  | succ n ih =>
    simp only [lineWithin, Halt]
    cases Command.read? rules (trimmed text) with
    | none => simp
    | some found =>
      obtain ⟨verb, command⟩ := found
      simp only [bind_apply, tell_apply, nested_eq_error]
      constructor
      · rintro ⟨t, hb, rfl⟩
        obtain ⟨defs, hd⟩ :=
          halt_of_build (fun _ _ _ _ => lineWithin_eq_ok_iff.1) (fun _ _ _ _ => ih.1) hb
        exact ⟨defs, t, hd, rfl⟩
      · rintro ⟨defs, t, hd, rfl⟩
        exact ⟨t, build_of_halt (fun _ _ _ _ _ h => lineWithin_eq_ok_iff.2 ⟨_, h⟩)
          (fun _ _ _ _ _ h => ih.2 ⟨_, h⟩) hd, rfl⟩

/-- A line runs or ends in a fault, in any session. -/
theorem run_or_halt (rules : List Rule) (n : Nat) (text : String) (s : Session) :
    (∃ steps defs t, Run rules n text s steps defs t) ∨
      ∃ f defs t, Halt rules n text s f defs t := by
  cases h : lineWithin rules n text s with
  | ok steps t =>
    obtain ⟨defs, hr⟩ := lineWithin_eq_ok_iff.1 h
    exact .inl ⟨steps, defs, t, hr⟩
  | error f t =>
    obtain ⟨defs, hd⟩ := lineWithin_eq_error_iff.1 h
    exact .inr ⟨f, defs, t, hd⟩

theorem line_eq_error_iff {text : String} :
    Compile.line text s = .error f s' ↔
      ∃ defs, Halt Command.rules (allowance s.nesting) text s f defs s' := by
  simp only [Compile.line, bind_apply, get_apply, lineWithin_eq_error_iff]

/-- What holds of a command that ends in a fault, whenever it holds of the lines inside it that do,
holds of every line that does. -/
theorem Halt.induction {rules : List Rule}
    {motive : Nat → String → Session → Fault → List Definition → Session → Prop}
    (command : ∀ n text verb c s f defs t,
      (∀ text s f defs s', Halt rules n text s f defs s' → motive n text s f defs s') →
      Command.read? rules (trimmed text) = some (verb, c) →
      Command.Halt (Run rules n) (Halt rules n) c
        (s.told (.dispatched (trimmed text) verb)).entered f defs t →
      motive (n + 1) text s f defs t.exited)
    {n : Nat} {text : String} {defs : List Definition} (h : Halt rules n text s f defs s') :
    motive n text s f defs s' := by
  induction n generalizing text s f defs s' with
  | zero => exact h.elim
  | succ n ih =>
    simp only [Halt] at h
    cases hr : Command.read? rules (trimmed text) with
    | none =>
      simp only [hr] at h
    | some found =>
      obtain ⟨verb, c⟩ := found
      simp only [hr] at h
      obtain ⟨t, ht, rfl⟩ := h
      exact command n text verb c s f defs t (fun _ _ _ _ _ => ih) hr ht

/-- The templates after a fault are those before the line, with the definitions registered in
order. -/
theorem Halt.templates_eq {rules : List Rule} {n : Nat} {text : String} {defs : List Definition}
    (h : Halt rules n text s f defs s') : s'.templates = s.templates.register defs := by
  refine Halt.induction (motive := fun _ _ s _ defs s' => s'.templates = s.templates.register defs)
    ?command h
  case command =>
    intro n text verb c s f defs t ih _ hh
    cases hh with
    | broken h => exact h.templates_eq
    | defined h => simpa using ih _ _ _ _ _ h
    | counted hn hb h => simpa using ih _ _ _ _ _ h
    | yes hc h => simpa using ih _ _ _ _ _ h
    | no hc hy hn =>
      have h₁ := Run.templates_eq hy
      have h₂ := ih _ _ _ _ _ hn
      simpa [h₁] using h₂

/-- A line that ends in a fault leaves the level of commands as it was. -/
theorem Halt.nesting_eq {rules : List Rule} {n : Nat} {text : String} {defs : List Definition}
    (h : Halt rules n text s f defs s') : s'.nesting = s.nesting := by
  refine Halt.induction (motive := fun _ _ s _ _ s' => s'.nesting = s.nesting) ?command h
  case command =>
    intro n text verb c s f defs t ih _ hh
    have ht : t.nesting = s.nesting + 1 := by
      cases hh with
      | broken h => exact h.nesting_eq
      | defined h => simpa using ih _ _ _ _ _ h
      | counted hn hb h => simpa using ih _ _ _ _ _ h
      | yes hc h => simpa using ih _ _ _ _ _ h
      | no hc hy hn =>
        have h₁ := Run.nesting_eq hy
        have h₂ := ih _ _ _ _ _ hn
        simpa [h₁] using h₂
    simp [ht]

end Compile
end FlowScript
