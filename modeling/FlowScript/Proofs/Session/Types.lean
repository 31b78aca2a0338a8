import FlowScript.Proofs.Registry
import FlowScript.Proofs.Session.Depth
import FlowScript.Proofs.Step.Assigned
import FlowScript.Proofs.Step.Each

/-!
# Types that runs record

A type is recorded when a command is carried out, and the last one counts. So what a definition
makes counts where it is made, called or not, and the steps that a call copies do not count, nor
does the step that closes a counted loop. For a variable to which no definition assigns, this comes
to the last assignment among the steps themselves.

## Main definitions

* `Command.recorded`: the types that a command records.
* `Records`: what the commands of a journal record, in the order in which they are carried out.
* `Step.Unwritten`: a variable to which some steps do not assign.

## Main statements

* `Compile.Run.records`: the types after a run are those that its commands record.
* `Compile.Run.find?_types`: for a variable that the definitions leave alone, the steps tell.
* `Compile.Run.typed`: all variables to which steps assign have a type.
-/
namespace FlowScript

open Text Step

-- Otherwise the elaborator reads the line of a run whenever a run is given to a lemma.
attribute [local irreducible] Compile.Run

theorem Registry.find?_register {α : Type} (r : Registry α) (es : List (String × α))
    (name : String) : (r.register es).find? name = (lastOf? name es).or (r.find? name) := by
  induction es generalizing r with
  | nil => rfl
  | cons e es ih =>
    have hc : r.register (e :: es) = (r.insert e.1 e.2).register es := rfl
    rw [hc, ih, ← List.singleton_append, lastOf?_append, lastOf?_singleton, Option.or_assoc]
    by_cases h : e.1 = name
    · rw [if_pos h, ← h, Registry.find?_insert_self]
      rfl
    · rw [if_neg h, Registry.find?_insert_of_ne (Ne.symm h)]
      rfl

/-! ## What commands record -/

/-- Whether a loop can be counted: it has a body, and a number of turns. -/
def Command.isCountable (body times : String) : Bool :=
  match number? times.toList with
  | .ok (some (.int _)) => !(trim body.toList).isEmpty
  | _ => false

/-- The types that a command records. A counted loop is named by the number of the next step. -/
def Command.recorded (next : Int) : Command → List (String × String)
  | fetch _ target => [(target, ValueType.string.name)]
  | count body times =>
    if isCountable body times then [(loopCounter (stepId next), ValueType.number.name)] else []
  | set target raw =>
    if isIdentifier target then
      match Value.read raw.toList with
      | .ok value => [(target, value.type.name)]
      | .error _ => []
    else []
  | analyze _ model => [(.join ["result_", model], ValueType.tensor.name)]
  | _ => []

/-- What the commands that are told of record, in order; the numbers of the steps are left open. -/
inductive Records : List Event → List (String × String) → Prop
  | nil : Records [] []
  | command {e : Event} {c : Command} {es : List Event} {rs : List (String × String)} (next : Int)
      (hc : e.command? Command.rules = some c) (hr : Records es rs) :
      Records (e :: es) (c.recorded next ++ rs)
  | other {e : Event} {es : List Event} {rs : List (String × String)}
      (he : e.command? Command.rules = none) (hr : Records es rs) : Records (e :: es) rs

theorem Records.append {es fs : List Event} {rs qs : List (String × String)} (h : Records es rs)
    (hf : Records fs qs) : Records (es ++ fs) (rs ++ qs) := by
  induction h with
  | nil => exact hf
  | command next hc hr ih =>
    rw [List.append_assoc]
    exact .command next hc ih
  | other he hr ih => exact .other he ih

/-- A run records some types, as its commands say. -/
def Session.Recording (s t : Session) (rs : List (String × String)) : Prop :=
  ∃ es qs, t.journal = s.journal ++ es ∧ Records es qs ∧ t.types = s.types.register (rs ++ qs)

namespace Command

variable {inner : Course} {line : String} {c : Command} {s t : Session} {steps : List Step}
  {defs : List Definition}

theorem isCountable_of {body times : String} {n : Int}
    (hn : number? times.toList = .ok (some (.int n))) (hb : trim body.toList ≠ []) :
    isCountable body times := by
  simp [isCountable, hn, hb]

theorem Refuses.recorded {d : Diagnostic} (h : Refuses line s c d) (next : Int) :
    c.recorded next = [] := by
  cases h with
  | @noCount body times n hn hk =>
    have hc : isCountable body times = false := by
      rw [isCountable, hn]
      match n, hk with
      | some (.int k), hk => exact absurd rfl (hk k)
      | some (.double _), _ => rfl
      | none, _ => rfl
    simp [Command.recorded, hc]
  | noBody hn hb => simp [Command.recorded, isCountable, hn, hb]
  | noName ht => simp [Command.recorded, ht]
  | _ => rfl

theorem Performs.recorded {types types' : Registry String} {a : Action} {phrase : String}
    (h : Performs types c a phrase types') (next : Int) :
    types' = types.register (c.recorded next) ∧ c.recorded next = a.assigned := by
  cases h with
  | set ht hv => simp [Command.recorded, ht, hv, Action.assigned]
  | _ => exact ⟨rfl, rfl⟩

/-- The run of a command records what the command says and then what the lines inside it record. -/
theorem Run.records
    (hin : ∀ text s steps defs t, inner text s steps defs t → s.Recording t [])
    (h : Run inner line c s steps defs t) : s.Recording t (c.recorded s.counter) := by
  cases h with
  | refused h =>
    rw [h.recorded]
    exact ⟨_, [], rfl, .other rfl .nil, rfl⟩
  | single h =>
    have ht := (h.recorded s.counter).1
    exact ⟨[], [], by simp, .nil, by simpa using ht⟩
  | copied h hne => exact ⟨[], [], by simp, .nil, rfl⟩
  | defined h =>
    obtain ⟨es, qs, hj, hr, ht⟩ := hin _ _ _ _ _ h
    exact ⟨es, qs, hj, hr, ht⟩
  | counted hn hb h =>
    obtain ⟨es, qs, hj, hr, ht⟩ := hin _ _ _ _ _ h
    refine ⟨es, qs, hj, hr, ?_⟩
    rw [Command.recorded, if_pos (isCountable_of hn hb)]
    exact ht
  | taken hc h =>
    obtain ⟨es, qs, hj, hr, ht⟩ := hin _ _ _ _ _ h
    exact ⟨es, qs, hj, hr, ht⟩
  | @branched condition yes no _ _ _ _ _ _ _ _ hc hy hn =>
    obtain ⟨es, qs, hj, hr, ht⟩ := hin _ _ _ _ _ hy
    obtain ⟨es', qs', hj', hr', ht'⟩ := hin _ _ _ _ _ hn
    refine ⟨es ++ es', qs ++ qs', ?_, hr.append hr', ?_⟩
    · rw [← List.append_assoc, ← hj]
      exact hj'
    · have hc : Command.recorded s.counter (.branch condition yes (some no)) = [] := rfl
      rw [hc, List.nil_append, Registry.register_append, ← List.nil_append qs, ← ht]
      exact ht'

end Command

namespace Compile

/-- **The types after a run are those that its commands record**, in the order in which they are
carried out. -/
theorem Run.records {n : Nat} {text : String} {s t : Session} {steps : List Step}
    {defs : List Definition} (h : Run Command.rules n text s steps defs t) : s.Recording t [] := by
  refine Run.induction (motive := fun _ _ s _ _ t => s.Recording t []) ?tooDeep ?unrecognized
    ?command h
  case tooDeep =>
    intro text s
    exact ⟨_, [], rfl, .other rfl .nil, rfl⟩
  case unrecognized =>
    intro n text s _
    exact ⟨_, [], rfl, .other rfl .nil, rfl⟩
  case command =>
    intro n text verb c s steps defs t ih hread hr
    obtain ⟨es, qs, hj, hq, ht⟩ := hr.records ih
    have hc : (Event.dispatched (trimmed text) verb).command? Command.rules = some c := by
      simp [Event.command?, hread]
    refine ⟨.dispatched (trimmed text) verb :: es, _, ?_, .command _ hc hq, ht⟩
    rw [Session.exited_journal, hj]
    simp

end Compile

/-! ## What the steps tell -/

/-- A variable to which some steps do not assign. -/
def Step.Unwritten (name : String) (ss : List Step) : Prop :=
  name ∉ (written ss).map (·.1)

theorem Step.Unwritten.lastOf {name : String} {ss : List Step} (h : Unwritten name ss) :
    lastOf? name (recordedAll ss) = none := by
  refine lastOf?_of_notMem fun hm => h ?_
  obtain ⟨e, he, rfl⟩ := List.mem_map.1 hm
  exact List.mem_map_of_mem (recordedAll_subset ss he)

section

variable {name : String} {s t : Session} {steps : List Step} {defs : List Definition}

/-- No template assigns to a variable. -/
def Session.Spares (s : Session) (name : String) : Prop :=
  ∀ e ∈ s.templates.entries, Unwritten name e.2

/-- The type of a variable after a run is the last one that the steps give, or the one before. -/
def Session.Types (s : Session) (name : String) (steps : List Step) (t : Session) : Prop :=
  t.types.find? name = (lastOf? name (recordedAll steps)).or (s.types.find? name)

theorem recordedAll_single (id : String) (a : Action) (phrase : String) :
    recordedAll [.single id a phrase] = a.assigned :=
  List.append_nil _

theorem recordedAll_counted (line id first : String) (n : Int) (body : List Step) (last : String) :
    recordedAll [Command.firstCount (loopCounter id) first, Command.counted line id n body last] =
      [(loopCounter id, ValueType.number.name)] ++ recordedAll body := by
  have ha : (Command.nextCount (loopCounter id) last).advances := by
    simp [Command.nextCount, single, advances, Action.advances]
  simp [recordedAll, Command.counted, Command.firstCount, single, recorded, Action.assigned,
    recordedInside_concat ha]
  rfl

theorem recordedAll_branched (line id : String) (c : Condition) (yes no : List Step) :
    recordedAll [Command.branched line id c yes no] = recordedAll yes ++ recordedAll no :=
  List.append_nil _

/-- The run of a command leaves a variable that no definition assigns to with the last type that
its steps give. -/
theorem Command.Run.types {inner : Course} {line : String} {c : Command}
    (hin : ∀ text s steps defs t, inner text s steps defs t → s.Spares name →
      (∀ d ∈ defs, Unwritten name d.2) → s.Types name steps t ∧ t.Spares name)
    (h : Run inner line c s steps defs t) (hs : s.Spares name)
    (hd : ∀ d ∈ defs, Unwritten name d.2) : s.Types name steps t := by
  cases h with
  | refused h => rfl
  | single h =>
    obtain ⟨ht, ha⟩ := h.recorded s.counter
    rw [Session.Types, recordedAll_single, ← ha, ← Registry.find?_register, ← ht]
  | @copied _ _ template hf hne =>
    have hu : Unwritten name template := hs _ (Registry.mem_entries_of_find? hf)
    rw [Session.Types, recordedAll_renumberAll, hu.lastOf]
    rfl
  | @defined _ _ _ t steps defs h =>
    have hu : Unwritten name steps := hd _ (List.mem_append_right _ (List.mem_singleton.2 rfl))
    have ht := (hin _ _ _ _ _ h hs fun d hm => hd d (List.mem_append_left _ hm)).1
    rw [Session.Types, hu.lastOf] at ht
    exact ht
  | @counted _ _ _ t n body _ hn hb h =>
    have ht := (hin _ _ _ _ _ h hs hd).1
    have hc := Registry.find?_register s.types
      [(loopCounter (stepId s.counter), ValueType.number.name)] name
    rw [Session.Types, recordedAll_counted, lastOf?_append, Option.or_assoc, ← hc]
    exact ht
  | taken hc h =>
    have ht := (hin _ _ _ _ _ h hs hd).1
    rw [Session.Types, recordedAll_branched, recordedAll, List.append_nil]
    exact ht
  | @branched _ _ _ _ t u _ steps others _ _ hc hy hn =>
    obtain ⟨ht, hst⟩ := hin _ _ _ _ _ hy hs fun d hm => hd d (List.mem_append_left _ hm)
    have hu := (hin _ _ _ _ _ hn hst fun d hm => hd d (List.mem_append_right _ hm)).1
    rw [Session.Types, recordedAll_branched, lastOf?_append, Option.or_assoc, ← ht]
    exact hu

namespace Compile

theorem Run.spares {n : Nat} {text : String} (h : Run Command.rules n text s steps defs t)
    (hs : s.Spares name) (hd : ∀ d ∈ defs, Unwritten name d.2) : t.Spares name := by
  intro e he
  rw [h.templates_eq] at he
  rcases Registry.mem_entries_register he with he | he
  · exact hs e he
  · exact hd e he

/-- **The steps tell the type of a variable** to which no definition assigns. -/
theorem Run.types {n : Nat} {text : String} (h : Run Command.rules n text s steps defs t)
    (hs : s.Spares name) (hd : ∀ d ∈ defs, Unwritten name d.2) :
    s.Types name steps t ∧ t.Spares name := by
  refine Run.induction (motive := fun _ _ s steps defs t => s.Spares name →
    (∀ d ∈ defs, Unwritten name d.2) → s.Types name steps t ∧ t.Spares name)
    (fun _ _ hs _ => ⟨rfl, hs⟩) (fun _ _ _ _ hs _ => ⟨rfl, hs⟩) ?command h hs hd
  case command =>
    intro n text verb c s steps defs t ih hread hr hs hd
    have ht : (s.told (.dispatched (trimmed text) verb)).entered.Types name steps t :=
      hr.types ih hs hd
    exact ⟨ht, (Run.of_command hread hr).spares hs hd⟩

end Compile

end

/-! ## All variables that are assigned to have a type -/

/-- Whether a variable has a type in a session. -/
def Session.Knows (s : Session) (name : String) : Prop :=
  (s.types.find? name).isSome

/-- Some steps that assign only to variables with a type. -/
abbrev Session.KnowsAll (s : Session) : List Step → Prop :=
  EachAll (fun _ a => ∀ e ∈ a.assigned, s.Knows e.1) fun _ => True

/-- A session that has types for at least the variables of another one. -/
def Session.Extends (t s : Session) : Prop :=
  ∀ name, s.Knows name → t.Knows name

/-- The templates assign only to variables with a type. -/
def Session.Typed (s : Session) : Prop :=
  ∀ e ∈ s.templates.entries, s.KnowsAll e.2

namespace Session

variable {s t u : Session}

theorem Extends.trans (h : u.Extends t) (h' : t.Extends s) : u.Extends s :=
  fun name hn => h name (h' name hn)

theorem Extends.knowsAll (h : t.Extends s) {ss : List Step} (hs : s.KnowsAll ss) :
    t.KnowsAll ss :=
  EachAll.imp (fun _ _ ha e he => h e.1 (ha e he)) ss hs

theorem KnowsAll.knows {ss : List Step} (h : s.KnowsAll ss) : ∀ e ∈ written ss, s.Knows e.1 := by
  intro e he
  obtain ⟨visit, hv, he⟩ := List.mem_flatMap.1 he
  obtain ⟨step, depth⟩ := visit
  cases step with
  | act i a => exact EachAll.of_mem_walkAll 0 ss h i a depth hv e he
  | branch i c yes no => exact absurd he List.not_mem_nil
  | loop i c body => exact absurd he List.not_mem_nil

theorem extends_of_register {rs : List (String × String)}
    (h : t.types = s.types.register rs) : t.Extends s := by
  intro name hn
  rw [Knows, h, Registry.find?_register, Option.isSome_or, Bool.or_eq_true]
  exact .inr hn

theorem knows_of_register {rs : List (String × String)} (h : t.types = s.types.register rs)
    {e : String × String} (he : e ∈ rs) : t.Knows e.1 := by
  rw [Knows, h, Registry.find?_register, Option.isSome_or, Bool.or_eq_true]
  exact .inl (lastOf?_isSome (List.mem_map_of_mem he))

/-- What a run leaves: types for all variables that its steps and the templates assign to, and no
fewer than before. -/
structure Covers (s : Session) (steps : List Step) (t : Session) : Prop where
  steps : t.KnowsAll steps
  templates : t.Typed
  more : t.Extends s

end Session

/-- The run of a command leaves types for all variables that its steps assign to, if the lines
inside it do. -/
theorem Command.Run.covers {inner : Course} {line : String} {c : Command} {s t : Session}
    {steps : List Step} {defs : List Definition}
    (hin : ∀ text s steps defs t, inner text s steps defs t → s.Typed → s.Covers steps t)
    (h : Run inner line c s steps defs t) (hs : s.Typed) : s.Covers steps t := by
  cases h with
  | refused h => exact ⟨trivial, hs, fun _ hn => hn⟩
  | @single _ _ action phrase types h =>
    obtain ⟨ht, ha⟩ := h.recorded s.counter
    have hm : Session.Extends { s.drawn with types } s := Session.extends_of_register ht
    refine ⟨⟨fun e he => ?_, trivial⟩, fun e he => hm.knowsAll (hs e he), hm⟩
    rw [← ha] at he
    exact Session.knows_of_register ht he
  | copied hf hne =>
    have ht := hs _ (Registry.mem_entries_of_find? hf)
    exact ⟨EachAll.renumberAll (fun _ _ _ ha => ha) _ _ ht, hs, fun _ hn => hn⟩
  | defined h =>
    obtain ⟨hsteps, ht, hm⟩ := hin _ _ _ _ _ h hs
    refine ⟨trivial, fun e he => ?_, hm⟩
    rcases Registry.mem_entries_insert he with he | rfl
    · exact ht e he
    · exact hsteps
  | @counted _ _ _ t _ _ _ hn hb h =>
    have hr : (s.typed (loopCounter (stepId s.counter)) ValueType.number.name).types =
      s.types.register [(loopCounter (stepId s.counter), ValueType.number.name)] := rfl
    have hm := Session.extends_of_register hr
    have hk := Session.knows_of_register hr (List.mem_singleton.2 rfl)
    obtain ⟨hbody, ht, hm'⟩ := hin _ _ _ _ _ h fun e he => hm.knowsAll (hs e he)
    have hc : t.Knows (loopCounter (stepId s.counter)) := hm' _ hk
    have ha : ∀ e ∈ [(loopCounter (stepId s.counter), ValueType.number.name)], t.Knows e.1 := by
      intro e he
      rw [List.mem_singleton.1 he]
      exact hc
    refine ⟨⟨ha, ⟨trivial, ?_⟩, trivial⟩, ht, fun name hn => hm' name (hm name hn)⟩
    rw [eachAll_append]
    exact ⟨hbody, ha, trivial⟩
  | taken hc h =>
    obtain ⟨hsteps, ht, hm⟩ := hin _ _ _ _ _ h hs
    exact ⟨⟨⟨trivial, hsteps, trivial⟩, trivial⟩, ht, hm⟩
  | branched hc hy hn =>
    obtain ⟨hyes, ht, hm⟩ := hin _ _ _ _ _ hy hs
    obtain ⟨hno, hu, hm'⟩ := hin _ _ _ _ _ hn ht
    exact ⟨⟨⟨trivial, hm'.knowsAll hyes, hno⟩, trivial⟩, hu, hm'.trans hm⟩

/-- **All variables that the steps of a line assign to have a type** afterwards. -/
theorem Compile.Run.covers {n : Nat} {text : String} {s t : Session} {steps : List Step}
    {defs : List Definition} (h : Run Command.rules n text s steps defs t) (hs : s.Typed) :
    s.Covers steps t := by
  refine Run.induction (motive := fun _ _ s steps _ t => s.Typed → s.Covers steps t)
    (fun _ _ hs => ⟨trivial, hs, fun _ hn => hn⟩) (fun _ _ _ _ hs => ⟨trivial, hs, fun _ hn => hn⟩)
    ?command h hs
  case command =>
    intro n text verb c s steps defs t ih hread hr hs
    obtain ⟨hsteps, ht, hm⟩ := hr.covers ih hs
    exact ⟨hsteps, ht, hm⟩

end FlowScript
