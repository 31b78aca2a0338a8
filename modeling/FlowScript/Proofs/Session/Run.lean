import FlowScript.Session.Line
import Mathlib.Tactic.Simps.Basic

/-!
# Runs of lines

A line that meets no fault is described by a relation with one case for each thing that a command
can do, so that what holds of every run is proved case by case and without the computations. Beside
the steps that a line yields, the relation lists the definitions of templates that are made on the
way, also those that are replaced later on.

## Main definitions

* `Command.Refuses`, `Command.Performs`: when a command is reported, and the action that a command
  without inner lines comes to.
* `Command.Run`, `Compile.Run`: the runs of a command and of a line.

## Main statements

* `Compile.Run.induction`: how a property of all runs is proved.
* `Compile.Run.templates_eq`: the templates after a run are those before it, with the definitions
  registered in order.
-/
namespace FlowScript

open Text

/-- The steps that are stored under the name of a template. -/
abbrev Definition := String × List Step

namespace Registry

/-- A registry with some further entries, registered in order. -/
def register {α : Type} (r : Registry α) (es : List (String × α)) : Registry α :=
  es.foldl (fun r e => r.insert e.1 e.2) r

@[simp] theorem register_nil {α : Type} (r : Registry α) : r.register [] = r := rfl

@[simp] theorem register_append {α : Type} (r : Registry α) (es fs : List (String × α)) :
    r.register (es ++ fs) = (r.register es).register fs := by
  simp [register]

@[simp] theorem register_singleton {α : Type} (r : Registry α) (name : String) (a : α) :
    r.register [(name, a)] = r.insert name a := rfl

theorem mem_entries_insert {α : Type} {r : Registry α} {name : String} {a : α} {e : String × α}
    (h : e ∈ (r.insert name a).entries) : e ∈ r.entries ∨ e = (name, a) := by
  obtain ⟨es⟩ := r
  simp only [insert] at h ⊢
  induction es with
  | nil => simpa [put] using h
  | cons f fs ih =>
    simp only [put] at h
    split at h <;> grind

theorem mem_entries_of_find? {α : Type} {r : Registry α} {name : String} {a : α}
    (h : r.find? name = some a) : (name, a) ∈ r.entries := by
  simp only [find?, Option.map_eq_some_iff] at h
  obtain ⟨⟨n, b⟩, hf, rfl⟩ := h
  have hn := List.find?_some hf
  simp only [beq_iff_eq] at hn
  exact hn ▸ List.mem_of_find?_eq_some hf

/-- An entry of a registry with some further entries is an old or a new one. -/
theorem mem_entries_register {α : Type} {r : Registry α} {es : List (String × α)}
    {e : String × α} (h : e ∈ (r.register es).entries) : e ∈ r.entries ∨ e ∈ es := by
  induction es generalizing r with
  | nil => exact .inl h
  | cons f fs ih =>
    rcases ih (r := r.insert f.1 f.2) h with h | h
    · rcases mem_entries_insert h with h | rfl
      · exact .inl h
      · simp
    · exact .inr (List.mem_cons_of_mem _ h)

end Registry

namespace Session

/-! ## What happens to a session -/

/-- A session in which an event has been told. -/
@[simps] def told (s : Session) (e : Event) : Session :=
  { s with journal := s.journal ++ [e] }

/-- A session in which the number of the next step has been drawn. -/
@[simps] def drawn (s : Session) : Session :=
  { s with counter := s.counter + 1 }

/-- A session in which the type of a variable has been recorded. -/
@[simps] def typed (s : Session) (name type : String) : Session :=
  { s with types := s.types.insert name type }

/-- A session in which a template has been defined. -/
@[simps] def defined (s : Session) (name : String) (steps : List Step) : Session :=
  { s with templates := s.templates.insert name steps }

/-- A session in which some steps have been copied. -/
@[simps] def copied (s : Session) (steps : List Step) : Session :=
  { s with counter := (Step.renumberAll s.counter steps).2 }

/-- A session inside a command. -/
@[simps] def entered (s : Session) : Session :=
  { s with nesting := s.nesting + 1 }

/-- A session behind a command. -/
@[simps] def exited (s : Session) : Session :=
  { s with nesting := s.nesting - 1 }

/-- Entering and leaving a command leaves no trace. -/
theorem exited_told_entered (s : Session) (e e' : Event) :
    ((s.told e).entered.told e').exited = (s.told e).told e' := by
  simp [told, entered, exited]

theorem diagnostics_told_reported (s : Session) (d : Diagnostic) :
    (s.told (.reported d)).diagnostics = s.diagnostics ++ [d] := by
  simp [diagnostics, Event.diagnostic?]

theorem diagnostics_told_dispatched (s : Session) (line verb : String) :
    (s.told (.dispatched line verb)).diagnostics = s.diagnostics := by
  simp [diagnostics, Event.diagnostic?]

end Session

namespace Compile

variable {α β : Type} {s s' : Session}

/-! ## Computations in a session -/

/-- A computation followed by another one. -/
theorem bind_apply (c : Compile α) (f : α → Compile β) :
    (c >>= f) s = match c s with
      | .ok a t => f a t
      | .error e t => .error e t := by
  simp only [bind, EStateM.bind]
  cases c s <;> rfl

theorem lift_ok (a : α) : lift (.ok a) s = .ok a s := rfl

theorem bind_eq_ok {c : Compile α} {f : α → Compile β} {b : β} :
    (c >>= f) s = .ok b s' ↔ ∃ a t, c s = .ok a t ∧ f a t = .ok b s' := by
  simp only [bind, EStateM.bind]
  constructor
  · intro h
    cases hc : c s with
    | ok a t => exact ⟨a, t, rfl, by simpa [hc] using h⟩
    | error e t => simp [hc] at h
  · rintro ⟨a, t, hc, hf⟩
    simpa [hc] using hf

@[simp] theorem pure_apply (a : α) : (pure a : Compile α) s = .ok a s := rfl

@[simp] theorem get_apply : (get : Compile Session) s = .ok s s := rfl

@[simp] theorem throw_apply (f : Fault) : (throw f : Compile α) s = .error f s := rfl

@[simp] theorem nextId_apply : nextId s = .ok (stepId s.counter) s.drawn := rfl

@[simp] theorem tell_apply (e : Event) : tell e s = .ok () (s.told e) := rfl

@[simp] theorem reject_apply (d : Diagnostic) : reject d s = .ok [] (s.told (.reported d)) := rfl

@[simp] theorem recordType_apply (name type : String) :
    recordType name type s = .ok () (s.typed name type) := rfl

@[simp] theorem define_apply (name : String) (steps : List Step) :
    define name steps s = .ok () (s.defined name steps) := rfl

@[simp] theorem copy_apply (steps : List Step) :
    copy steps s = .ok (Step.renumberAll s.counter steps).1 (s.copied steps) := rfl

@[simp] theorem lift_eq_ok {x : Except Fault α} {a : α} :
    lift x s = .ok a s' ↔ x = .ok a ∧ s' = s := by
  cases x <;> simp [lift, eq_comm]

theorem nested_apply (c : Compile α) :
    nested c s = match c s.entered with
      | .ok a t => .ok a t.exited
      | .error f t => .error f t.exited := rfl

theorem nested_eq_ok {c : Compile α} {a : α} :
    nested c s = .ok a s' ↔ ∃ t, c s.entered = .ok a t ∧ s' = t.exited := by
  rw [nested_apply]
  constructor
  · intro h
    cases hc : c s.entered with
    | ok b t =>
      simp only [hc, EStateM.Result.ok.injEq] at h
      exact ⟨t, by rw [h.1], h.2.symm⟩
    | error e t => simp [hc] at h
  · rintro ⟨t, hc, rfl⟩
    rw [hc]

end Compile

/-! ## Runs -/

namespace Command

/-- When a command is reported in place of steps, and how. -/
inductive Refuses (line : String) (s : Session) : Command → Diagnostic → Prop
  | unknownTemplate {name : String} (h : s.templates.find? name = none) :
      Refuses line s (invoke name) (.unknownTemplate name)
  | emptyTemplate {name : String} (h : s.templates.find? name = some []) :
      Refuses line s (invoke name) (.emptyTemplate name)
  | noCount {body times : String} {n : Option Number} (h : number? times.toList = .ok n)
      (hn : ∀ k, n ≠ some (.int k)) : Refuses line s (count body times) (.badRepeat line)
  | noBody {body times : String} {k : Int} (h : number? times.toList = .ok (some (.int k)))
      (hb : trim body.toList = []) : Refuses line s (count body times) (.badRepeat line)
  | noDuration {seconds : String} {n : Option Number} (h : number? seconds.toList = .ok n)
      (hn : ∀ k : Int, 0 ≤ k → n ≠ some (.int k)) :
      Refuses line s (wait seconds) (.badWait seconds)
  | noName {target value : String} (h : isIdentifier target = false) :
      Refuses line s (set target value) (.badVariable target)
  | noValue {value : String} (h : (trimmed value).isEmpty) :
      Refuses line s (ret value) .missingValue

/-- Whether and how a command is reported depends on the templates alone. -/
theorem Refuses.of_templates_eq {line : String} {s s' : Session} {c : Command} {d : Diagnostic}
    (h : Refuses line s c d) (hs : s'.templates = s.templates) : Refuses line s' c d := by
  cases h with
  | unknownTemplate h => exact .unknownTemplate (hs ▸ h)
  | emptyTemplate h => exact .emptyTemplate (hs ▸ h)
  | noCount h hn => exact .noCount h hn
  | noBody h hb => exact .noBody h hb
  | noDuration h hn => exact .noDuration h hn
  | noName h => exact .noName h
  | noValue h => exact .noValue h

/-- The action and the phrase that a command without inner lines comes to, with the types of the
variables before and after it. -/
inductive Performs (types : Registry String) :
    Command → Action → String → Registry String → Prop
  | fetch (endpoint target : String) :
      Performs types (fetch endpoint target) (.call target endpoint)
        (.join ["call ", endpoint, " store in ", target])
        (types.insert target ValueType.string.name)
  | wait {seconds : String} {n : Int} (h : number? seconds.toList = .ok (some (.int n)))
      (hn : 0 ≤ n) : Performs types (wait seconds) (.wait (.ofInt n)) "" types
  | set {target raw : String} {value : Value} (ht : isIdentifier target)
      (hv : Value.read raw.toList = .ok value) :
      Performs types (set target raw) (.set target value)
        (.join ["set ", target, " to ", trimmed raw]) (types.insert target value.type.name)
  | leave : Performs types leave .leave "" types
  | ret {raw : String} {value : Value} (hr : (trimmed raw).isEmpty = false)
      (hv : Value.read raw.toList = .ok value) :
      Performs types (ret raw) (.ret value) (.join ["return ", trimmed raw]) types
  | analyze {raw model : String} {input : Expr} (h : Expr.read raw.toList = .ok input) :
      Performs types (analyze raw model)
        (.analyze model input.tree (.join ["result_", model]))
        (.join ["analyze ", raw, " with ", model])
        (types.insert (.join ["result_", model]) ValueType.tensor.name)
  | render (component target : String) :
      Performs types (render component target)
        (.render component target Action.defaultProps) "" types
  | state {name raw : String} {initial : Expr} (h : Expr.read raw.toList = .ok initial) :
      Performs types (state name raw) (.state name initial.tree)
        (.join ["state ", name, " as ", trimmed raw]) types
  | style (selector raw : String) :
      Performs types (style selector raw)
        (.style selector (Compile.commaParts raw.toList) Action.defaultFramework)
        (.join ["style ", selector, " with ", trimmed raw]) types
  | listen (event handler : String) :
      Performs types (listen event handler) (.listen event handler) "" types

/-- Runs of lines: from a session to steps, with the definitions made on the way in order, and the
session afterwards. -/
abbrev Course := String → Session → List Step → List Definition → Session → Prop

/-- The step that sets the counter of a loop to zero. -/
def firstCount (counter id : String) : Step :=
  .single id (.set counter (.expr (.ofInt 0))) ""

/-- The step that increases the counter of a loop. -/
def nextCount (counter id : String) : Step :=
  .single id (.set counter (.expr (.binary .add (.var counter) (.ofInt 1)))) ""

/-- The condition that the counter of a loop is below a number. -/
def belowCount (counter : String) (n : Int) : Condition :=
  .compare (.var counter) .less (.ofInt n)

/-- The loop that counts up to a number, around the steps of its body. -/
def counted (line id : String) (n : Int) (body : List Step) (last : String) : Step :=
  let counter := loopCounter id
  let condition := belowCount counter n
  .loop (.of id (Step.describeLoop condition) line [] .execute) condition
    (body ++ [nextCount counter last])

/-- A branch around the steps of its sides. -/
def branched (line id : String) (condition : Condition) (yes no : List Step) : Step :=
  .branch (.of id (Step.describeBranch condition) line [] .execute) condition yes no

/-- The runs of a command, given those of the lines inside it. -/
inductive Run (inner : Course) (line : String) :
    Command → Session → List Step → List Definition → Session → Prop
  | refused {c : Command} {s : Session} {d : Diagnostic} (h : Refuses line s c d) :
      Run inner line c s [] [] (s.told (.reported d))
  | single {c : Command} {s : Session} {action : Action} {phrase : String}
      {types : Registry String} (h : Performs s.types c action phrase types) :
      Run inner line c s [.single (stepId s.counter) action phrase] [] { s.drawn with types }
  | copied {name : String} {s : Session} {template : List Step}
      (h : s.templates.find? name = some template) (hne : template ≠ []) :
      Run inner line (invoke name) s (Step.renumberAll s.counter template).1 [] (s.copied template)
  | defined {name body : String} {s t : Session} {steps : List Step} {defs : List Definition}
      (h : inner body s steps defs t) :
      Run inner line (define name body) s [] (defs ++ [(name, steps)]) (t.defined name steps)
  | counted {body times : String} {s t : Session} {n : Int} {steps : List Step}
      {defs : List Definition} (hn : number? times.toList = .ok (some (.int n)))
      (hb : trim body.toList ≠ [])
      (h : inner body ((s.drawn.typed (loopCounter (stepId s.counter)) ValueType.number.name).drawn)
        steps defs t) :
      Run inner line (count body times) s
        [firstCount (loopCounter (stepId s.counter)) (stepId (s.counter + 1)),
          counted line (stepId s.counter) n steps (stepId t.counter)]
        defs t.drawn
  | taken {condition yes : String} {s t : Session} {c : Condition} {steps : List Step}
      {defs : List Definition} (hc : Condition.parse condition.toList = .ok c)
      (h : inner yes s steps defs t) :
      Run inner line (branch condition yes none) s
        [branched line (stepId t.counter) c steps []] defs t.drawn
  | branched {condition yes no : String} {s t u : Session} {c : Condition}
      {steps others : List Step} {defs more : List Definition}
      (hc : Condition.parse condition.toList = .ok c) (hy : inner yes s steps defs t)
      (hn : inner no t others more u) :
      Run inner line (branch condition yes (some no)) s
        [branched line (stepId u.counter) c steps others] (defs ++ more) u.drawn

end Command

namespace Compile

variable {s s' : Session} {steps : List Step}

/-- The runs of a line, read by some rules, with an allowance for commands inside each other. -/
def Run (rules : List Rule) : Nat → Command.Course
  | 0, text, s, steps, defs, s' =>
    steps = [] ∧ defs = [] ∧ s' = s.told (.reported (.tooDeep (trimmed text)))
  | allowance + 1, text, s, steps, defs, s' =>
    match Command.read? rules (trimmed text) with
    | none =>
      steps = [] ∧ defs = [] ∧ s' = s.told (.reported (.unrecognized (trimmed text)))
    | some (verb, command) =>
      ∃ t, Command.Run (Run rules allowance) (trimmed text) command
        (s.told (.dispatched (trimmed text) verb)).entered steps defs t ∧ s' = t.exited

/-- A line that is not inside another one may hold as many commands inside each other as there can
be. -/
theorem allowance_outermost (hs : s.nesting = 0) : allowance s.nesting = maxNesting := by
  rw [hs]
  rfl

theorem allowance_eq_zero_iff : allowance s.nesting = 0 ↔ maxNesting ≤ s.nesting := by
  rw [allowance]
  omega

/-- Inside a command there is room for one command less. -/
theorem allowance_eq_succ (hs : s.nesting < maxNesting) :
    allowance s.nesting = allowance (s.nesting + 1) + 1 := by
  rw [allowance, allowance]
  omega

/-- The runs of a line that lies too deep. -/
theorem run_zero {rules : List Rule} {text : String} {defs : List Definition} :
    Run rules 0 text s steps defs s' ↔
      steps = [] ∧ defs = [] ∧ s' = s.told (.reported (.tooDeep (trimmed text))) := by
  simp only [Run]

/-- The runs of a line that is no command. -/
theorem run_succ_of_none {rules : List Rule} {n : Nat} {text : String} {defs : List Definition}
    (hread : Command.read? rules (trimmed text) = none) :
    Run rules (n + 1) text s steps defs s' ↔
      steps = [] ∧ defs = [] ∧ s' = s.told (.reported (.unrecognized (trimmed text))) := by
  simp only [Run, hread]

/-- The runs of a line are those of its command. -/
theorem run_succ_of_some {rules : List Rule} {n : Nat} {text verb : String} {c : Command}
    {defs : List Definition} (hread : Command.read? rules (trimmed text) = some (verb, c)) :
    Run rules (n + 1) text s steps defs s' ↔
      ∃ t, Command.Run (Run rules n) (trimmed text) c
        (s.told (.dispatched (trimmed text) verb)).entered steps defs t ∧ s' = t.exited := by
  simp only [Run, hread]

theorem Run.of_command {rules : List Rule} {n : Nat} {text verb : String} {c : Command}
    {defs : List Definition} {t : Session}
    (hread : Command.read? rules (trimmed text) = some (verb, c))
    (h : Command.Run (Run rules n) (trimmed text) c
      (s.told (.dispatched (trimmed text) verb)).entered steps defs t) :
    Run rules (n + 1) text s steps defs t.exited :=
  (run_succ_of_some hread).2 ⟨t, h, rfl⟩

theorem Run.of_tooDeep {rules : List Rule} {text : String} :
    Run rules 0 text s [] [] (s.told (.reported (.tooDeep (trimmed text)))) :=
  run_zero.2 ⟨rfl, rfl, rfl⟩

theorem Run.of_unrecognized {rules : List Rule} {n : Nat} {text : String}
    (hread : Command.read? rules (trimmed text) = none) :
    Run rules (n + 1) text s [] [] (s.told (.reported (.unrecognized (trimmed text)))) :=
  (run_succ_of_none hread).2 ⟨rfl, rfl, rfl⟩

/-- What holds of lines that are reported, and of the run of a command whenever it holds of the
runs of the lines inside it, holds of every run of a line. -/
theorem Run.induction {rules : List Rule}
    {motive : Nat → String → Session → List Step → List Definition → Session → Prop}
    (tooDeep : ∀ text s, motive 0 text s [] [] (s.told (.reported (.tooDeep (trimmed text)))))
    (unrecognized : ∀ n text s, Command.read? rules (trimmed text) = none →
      motive (n + 1) text s [] [] (s.told (.reported (.unrecognized (trimmed text)))))
    (command : ∀ n text verb c s steps defs t,
      (∀ text s steps defs s', Run rules n text s steps defs s' → motive n text s steps defs s') →
      Command.read? rules (trimmed text) = some (verb, c) →
      Command.Run (Run rules n) (trimmed text) c
        (s.told (.dispatched (trimmed text) verb)).entered steps defs t →
      motive (n + 1) text s steps defs t.exited)
    {n : Nat} {text : String} {defs : List Definition} (h : Run rules n text s steps defs s') :
    motive n text s steps defs s' := by
  induction n generalizing text s steps defs s' with
  | zero =>
    obtain ⟨rfl, rfl, rfl⟩ := run_zero.1 h
    exact tooDeep text s
  | succ n ih =>
    cases hr : Command.read? rules (trimmed text) with
    | none =>
      obtain ⟨rfl, rfl, rfl⟩ := (run_succ_of_none hr).1 h
      exact unrecognized n text s hr
    | some found =>
      obtain ⟨verb, c⟩ := found
      obtain ⟨t, ht, rfl⟩ := (run_succ_of_some hr).1 h
      exact command n text verb c s steps defs t (fun _ _ _ _ _ => ih) hr ht

/-- The templates after a run are those before it, with the definitions registered in order. -/
theorem Run.templates_eq {rules : List Rule} {n : Nat} {text : String} {defs : List Definition}
    (h : Run rules n text s steps defs s') : s'.templates = s.templates.register defs := by
  refine Run.induction (motive := fun _ _ s _ defs s' => s'.templates = s.templates.register defs)
    (fun _ _ => rfl) (fun _ _ _ _ => rfl) ?command h
  case command =>
    intro n text verb c s steps defs t ih _ hr
    cases hr with
    | refused h => rfl
    | single h => rfl
    | copied h hne => rfl
    | defined h =>
      have h₁ := ih _ _ _ _ _ h
      simp [h₁]
    | counted hn hb h => simpa using ih _ _ _ _ _ h
    | taken hc h => simpa using ih _ _ _ _ _ h
    | branched hc hy hn =>
      have h₁ := ih _ _ _ _ _ hy
      have h₂ := ih _ _ _ _ _ hn
      simpa [h₁] using h₂

/-- A line leaves the level of commands as it was. -/
theorem Run.nesting_eq {rules : List Rule} {n : Nat} {text : String} {defs : List Definition}
    (h : Run rules n text s steps defs s') : s'.nesting = s.nesting := by
  refine Run.induction (motive := fun _ _ s _ _ s' => s'.nesting = s.nesting)
    (fun _ _ => rfl) (fun _ _ _ _ => rfl) ?command h
  case command =>
    intro n text verb c s steps defs t ih _ hr
    have ht : t.nesting = s.nesting + 1 := by
      cases hr with
      | refused h => rfl
      | single h => rfl
      | copied h hne => rfl
      | defined h => simpa using ih _ _ _ _ _ h
      | counted hn hb h => simpa using ih _ _ _ _ _ h
      | taken hc h => simpa using ih _ _ _ _ _ h
      | branched hc hy hn =>
        have h₁ := ih _ _ _ _ _ hy
        have h₂ := ih _ _ _ _ _ hn
        simpa [h₁] using h₂
    simp [ht]

end Compile
end FlowScript
