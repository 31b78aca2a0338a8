import FlowScript.Proofs.Session.Run

/-!
# Runs and computations

The runs of a line are what its computation does, apart from faults: a computation without a fault
is a run, and a run is what the computation comes to.

## Main statements

* `Compile.build_of_run`, `Compile.run_of_build`: both directions for one command.
* `Compile.lineWithin_eq_ok_iff`, `Compile.line_eq_ok_iff`: lines without faults are the runs.
-/
namespace FlowScript

open Text

namespace Compile

variable {inner : Inner} {R : Command.Course} {line : String} {s s' : Session}
  {steps : List Step}

theorem reject_eq_ok {d : Diagnostic} :
    reject d s = .ok steps s' ↔ steps = [] ∧ s' = s.told (.reported d) := by
  simp only [reject_apply, EStateM.Result.ok.injEq, eq_comm]

/-- A step that only takes a number. -/
theorem numbered_eq_ok {step : String → Step} :
    (do return [step (← nextId)] : Compile (List Step)) s = .ok steps s' ↔
      steps = [step (stepId s.counter)] ∧ s' = s.drawn := by
  simp only [bind_apply, nextId_apply, pure_apply, EStateM.Result.ok.injEq, eq_comm]

/-- A counted loop is reported or runs its body between the two drawings of its numbers. -/
theorem run_of_countLoop {body times : String}
    (hin : ∀ text t ss t', inner text t = .ok ss t' → ∃ defs, R text t ss defs t')
    (h : countLoop inner line body times s = .ok steps s') :
    ∃ defs, Command.Run R line (.count body times) s steps defs s' := by
  simp only [countLoop, bind_eq_ok, lift_eq_ok] at h
  obtain ⟨number, t, ⟨hn, ht⟩, h⟩ := h
  subst t
  split at h
  · rename_i n
    split at h
    · rename_i hb
      obtain ⟨rfl, rfl⟩ := reject_eq_ok.1 h
      exact ⟨[], .refused (.noBody hn (by simpa using hb))⟩
    · rename_i hb
      simp only [bind_eq_ok, nextId_apply, recordType_apply, EStateM.Result.ok.injEq] at h
      obtain ⟨_, _, ⟨rfl, rfl⟩, _, _, ⟨-, rfl⟩, _, _, ⟨rfl, rfl⟩, h⟩ := h
      obtain ⟨ss, t, hi, _, _, ⟨rfl, rfl⟩, h⟩ := h
      obtain ⟨defs, hr⟩ := hin _ _ _ _ hi
      simp only [pure_apply, EStateM.Result.ok.injEq] at h
      obtain ⟨rfl, rfl⟩ := h
      exact ⟨defs, .counted hn (by simpa using hb) hr⟩
  · rename_i hn'
    obtain ⟨rfl, rfl⟩ := reject_eq_ok.1 h
    exact ⟨[], .refused (.noCount hn fun k hk => hn' k hk)⟩

/-- A branch carries out its command, and its alternative where that ends; its number is drawn
behind both. -/
theorem branchOf_eq_ok_iff {condition yes : String} {no : Option String} :
    branchOf inner line condition yes no s = .ok steps s' ↔
      ∃ c thens t elses u, Condition.parse condition.toList = .ok c ∧
        inner yes s = .ok thens t ∧ no.elim (pure []) inner t = .ok elses u ∧
        steps = [Command.branched line (stepId u.counter) c thens elses] ∧ s' = u.drawn := by
  simp only [branchOf, bind_eq_ok, lift_eq_ok]
  constructor
  · rintro ⟨c, t, ⟨hc, rfl⟩, thens, t', hy, h⟩
    cases no with
    | none =>
      simp only [bind_eq_ok, pure_apply, nextId_apply, EStateM.Result.ok.injEq] at h
      obtain ⟨_, u, ⟨rfl, rfl⟩, _, _, ⟨rfl, rfl⟩, rfl, rfl⟩ := h
      exact ⟨c, thens, _, [], _, hc, hy, rfl, rfl, rfl⟩
    | some no =>
      simp only [bind_eq_ok, pure_apply, nextId_apply, EStateM.Result.ok.injEq] at h
      obtain ⟨elses, u, hn, _, _, ⟨rfl, rfl⟩, rfl, rfl⟩ := h
      exact ⟨c, thens, _, elses, u, hc, hy, hn, rfl, rfl⟩
  · rintro ⟨c, thens, t, elses, u, hc, hy, hn, rfl, rfl⟩
    refine ⟨c, s, ⟨hc, rfl⟩, thens, t, hy, ?_⟩
    cases no with
    | none =>
      simp only [Option.elim_none, pure_apply, EStateM.Result.ok.injEq] at hn
      obtain ⟨rfl, rfl⟩ := hn
      rfl
    | some no =>
      simp only [bind_eq_ok]
      exact ⟨elses, u, hn, _, _, rfl, rfl⟩

theorem run_of_branchOf {condition yes : String} {no : Option String}
    (hin : ∀ text t ss t', inner text t = .ok ss t' → ∃ defs, R text t ss defs t')
    (h : branchOf inner line condition yes no s = .ok steps s') :
    ∃ defs, Command.Run R line (.branch condition yes no) s steps defs s' := by
  obtain ⟨c, thens, t, elses, u, hc, hy, hn, rfl, rfl⟩ := branchOf_eq_ok_iff.1 h
  obtain ⟨defs, hy⟩ := hin _ _ _ _ hy
  cases no with
  | none =>
    simp only [Option.elim_none, pure_apply, EStateM.Result.ok.injEq] at hn
    obtain ⟨rfl, rfl⟩ := hn
    exact ⟨defs, .taken hc hy⟩
  | some no =>
    obtain ⟨more, hn⟩ := hin _ _ _ _ hn
    exact ⟨defs ++ more, .branched hc hy hn⟩

theorem run_of_invoke {name : String} (h : invoke name s = .ok steps s') :
    ∃ defs, Command.Run R line (.invoke name) s steps defs s' := by
  simp only [invoke, bind_eq_ok, get_apply, EStateM.Result.ok.injEq] at h
  obtain ⟨_, _, ⟨rfl, rfl⟩, h⟩ := h
  cases hf : s.templates.find? name with
  | none =>
    simp only [hf, reject_eq_ok] at h
    obtain ⟨rfl, rfl⟩ := h
    exact ⟨[], .refused (.unknownTemplate hf)⟩
  | some template =>
    cases template with
    | nil =>
      simp only [hf, List.isEmpty_nil, if_true, reject_eq_ok] at h
      obtain ⟨rfl, rfl⟩ := h
      exact ⟨[], .refused (.emptyTemplate hf)⟩
    | cons first others =>
      simp only [hf, List.isEmpty_cons, Bool.false_eq_true, if_false, copy_apply,
        EStateM.Result.ok.injEq] at h
      obtain ⟨rfl, rfl⟩ := h
      exact ⟨[], .copied hf (List.cons_ne_nil _ _)⟩

theorem run_of_wait {seconds : String} (h : build inner line (.wait seconds) s = .ok steps s') :
    ∃ defs, Command.Run R line (.wait seconds) s steps defs s' := by
  simp only [build, bind_eq_ok, lift_eq_ok] at h
  obtain ⟨number, t, ⟨hn, ht⟩, h⟩ := h
  subst t
  split at h
  · rename_i n
    split at h
    · obtain ⟨rfl, rfl⟩ := reject_eq_ok.1 h
      refine ⟨[], .refused (.noDuration hn ?_)⟩
      rintro k hk heq
      simp only [Option.some.injEq, Number.int.injEq] at heq
      omega
    · obtain ⟨rfl, rfl⟩ := numbered_eq_ok.1 h
      exact ⟨[], .single (.wait hn (by omega))⟩
  · rename_i hn'
    obtain ⟨rfl, rfl⟩ := reject_eq_ok.1 h
    exact ⟨[], .refused (.noDuration hn fun k _ hk => hn' k hk)⟩

theorem run_of_set {target raw : String}
    (h : build inner line (.set target raw) s = .ok steps s') :
    ∃ defs, Command.Run R line (.set target raw) s steps defs s' := by
  simp only [build] at h
  split at h
  · rename_i hi
    simp only [bind_eq_ok, lift_eq_ok, recordType_apply, nextId_apply, pure_apply,
      EStateM.Result.ok.injEq] at h
    obtain ⟨value, t, ⟨hv, ht⟩, _, _, ⟨-, rfl⟩, _, _, ⟨rfl, rfl⟩, rfl, rfl⟩ := h
    subst t
    exact ⟨[], .single (.set hi hv)⟩
  · rename_i hi
    obtain ⟨rfl, rfl⟩ := reject_eq_ok.1 h
    exact ⟨[], .refused (.noName (by simpa using hi))⟩

theorem run_of_ret {raw : String} (h : build inner line (.ret raw) s = .ok steps s') :
    ∃ defs, Command.Run R line (.ret raw) s steps defs s' := by
  simp only [build] at h
  split at h
  · rename_i hr
    obtain ⟨rfl, rfl⟩ := reject_eq_ok.1 h
    exact ⟨[], .refused (.noValue hr)⟩
  · rename_i hr
    simp only [bind_eq_ok, lift_eq_ok, nextId_apply, pure_apply, EStateM.Result.ok.injEq] at h
    obtain ⟨_, _, ⟨rfl, rfl⟩, value, t, ⟨hv, ht⟩, rfl, rfl⟩ := h
    subst t
    exact ⟨[], .single (.ret (by simpa using hr) hv)⟩

theorem run_of_build {c : Command}
    (hin : ∀ text t ss t', inner text t = .ok ss t' → ∃ defs, R text t ss defs t')
    (h : build inner line c s = .ok steps s') :
    ∃ defs, Command.Run R line c s steps defs s' := by
  cases c with
  | define name body =>
    simp only [build, bind_eq_ok, define_apply, pure_apply, EStateM.Result.ok.injEq] at h
    obtain ⟨ss, t, hi, _, _, ⟨-, rfl⟩, rfl, rfl⟩ := h
    obtain ⟨defs, hr⟩ := hin _ _ _ _ hi
    exact ⟨_, .defined hr⟩
  | fetch endpoint target =>
    simp only [build, bind_eq_ok, recordType_apply, nextId_apply, pure_apply,
      EStateM.Result.ok.injEq] at h
    obtain ⟨_, _, ⟨-, rfl⟩, _, _, ⟨rfl, rfl⟩, rfl, rfl⟩ := h
    exact ⟨[], .single (.fetch endpoint target)⟩
  | invoke name => exact run_of_invoke h
  | count body times => exact run_of_countLoop hin h
  | branch condition yes no => exact run_of_branchOf hin h
  | wait seconds => exact run_of_wait h
  | set target raw => exact run_of_set h
  | leave =>
    obtain ⟨rfl, rfl⟩ := numbered_eq_ok.1 h
    exact ⟨[], .single .leave⟩
  | ret raw => exact run_of_ret h
  | analyze raw model =>
    simp only [build, bind_eq_ok, lift_eq_ok, recordType_apply, nextId_apply, pure_apply,
      EStateM.Result.ok.injEq] at h
    obtain ⟨_, _, ⟨-, rfl⟩, _, _, ⟨rfl, rfl⟩, input, t, ⟨hv, ht⟩, rfl, rfl⟩ := h
    subst t
    exact ⟨[], .single (.analyze hv)⟩
  | render component target =>
    obtain ⟨rfl, rfl⟩ := numbered_eq_ok.1 h
    exact ⟨[], .single (.render component target)⟩
  | state name raw =>
    simp only [build, bind_eq_ok, lift_eq_ok, nextId_apply, pure_apply,
      EStateM.Result.ok.injEq] at h
    obtain ⟨_, _, ⟨rfl, rfl⟩, initial, t, ⟨hv, ht⟩, rfl, rfl⟩ := h
    subst t
    exact ⟨[], .single (.state hv)⟩
  | style selector raw =>
    obtain ⟨rfl, rfl⟩ := numbered_eq_ok.1 h
    exact ⟨[], .single (.style selector raw)⟩
  | listen event handler =>
    obtain ⟨rfl, rfl⟩ := numbered_eq_ok.1 h
    exact ⟨[], .single (.listen event handler)⟩

/-- A reported command is a computation that reports it. -/
theorem build_of_refuses {c : Command} {d : Diagnostic} (h : Command.Refuses line s c d) :
    build inner line c s = .ok [] (s.told (.reported d)) := by
  cases h with
  | unknownTemplate h => simp only [build, invoke, bind_apply, get_apply, h, reject_apply]
  | emptyTemplate h =>
    simp only [build, invoke, bind_apply, get_apply, h, List.isEmpty_nil, if_true, reject_apply]
  | noCount h hn =>
    simp only [build, countLoop, bind_apply, h, lift_ok]
    rfl
  | noBody h hb =>
    simp only [build, countLoop, bind_apply, h, lift_ok, hb, List.isEmpty_nil, if_true,
      reject_apply]
  | noDuration h hn =>
    simp only [build, bind_apply, h, lift_ok]
    split
    · rename_i k
      have hk : k < 0 := by
        rcases Int.lt_or_le k 0 with hk | hk
        · exact hk
        · exact absurd rfl (hn k hk)
      rw [if_pos hk]
      rfl
    · rfl
  | noName h => simp [build, h]
  | noValue h => simp [build, h]

/-- A command that comes to an action is a computation that yields its step. -/
theorem build_of_performs {c : Command} {action : Action} {phrase : String}
    {types : Registry String} (h : Command.Performs s.types c action phrase types) :
    build inner line c s =
      .ok [.single (stepId s.counter) action phrase] { s.drawn with types } := by
  cases h with
  | fetch endpoint target => rfl
  | wait h hn =>
    simp only [build, bind_apply, h, lift_ok, if_neg (Int.not_lt.2 hn)]
    rfl
  | set ht hv =>
    simp only [build, ht, if_true, bind_apply, hv, lift_ok]
    rfl
  | leave => rfl
  | ret hr hv =>
    simp only [build, hr, Bool.false_eq_true, if_false, bind_apply, nextId_apply, hv, lift_ok]
    rfl
  | analyze h =>
    simp only [build, bind_apply, recordType_apply, nextId_apply, h, lift_ok]
    rfl
  | render component target => rfl
  | state h =>
    simp only [build, bind_apply, nextId_apply, h, lift_ok]
    rfl
  | style selector raw => rfl
  | listen event handler => rfl

theorem build_of_run {c : Command} {defs : List Definition}
    (hin : ∀ text t ss ds t', R text t ss ds t' → inner text t = .ok ss t')
    (h : Command.Run R line c s steps defs s') : build inner line c s = .ok steps s' := by
  cases h with
  | refused h => exact build_of_refuses h
  | single h => exact build_of_performs h
  | copied h hne =>
    simp only [build, invoke, bind_apply, get_apply, h, List.isEmpty_iff, hne, if_false, copy_apply]
  | defined h =>
    simp only [build, bind_apply, hin _ _ _ _ _ h, define_apply, pure_apply]
  | counted hn hb h =>
    simp only [build, countLoop, bind_apply, hn, lift_ok, List.isEmpty_iff, hb, if_false,
      nextId_apply, recordType_apply, Session.drawn_counter, Session.typed_counter,
      hin _ _ _ _ _ h, pure_apply]
    rfl
  | taken hc h =>
    rw [build, branchOf_eq_ok_iff]
    exact ⟨_, _, _, _, _, hc, hin _ _ _ _ _ h, rfl, rfl, rfl⟩
  | branched hc hy hn =>
    rw [build, branchOf_eq_ok_iff]
    exact ⟨_, _, _, _, _, hc, hin _ _ _ _ _ hy, hin _ _ _ _ _ hn, rfl, rfl⟩

/-- The runs of a line are exactly the computations that meet no fault. -/
theorem lineWithin_eq_ok_iff {rules : List Rule} {n : Nat} {text : String} :
    lineWithin rules n text s = .ok steps s' ↔ ∃ defs, Run rules n text s steps defs s' := by
  induction n generalizing text s steps s' with
  | zero => simp [lineWithin, Run, eq_comm]
  | succ n ih =>
    simp only [lineWithin, Run]
    cases Command.read? rules (trimmed text) with
    | none => simp [eq_comm]
    | some found =>
      obtain ⟨verb, command⟩ := found
      simp only [bind_apply, tell_apply, nested_eq_ok]
      constructor
      · rintro ⟨t, hb, rfl⟩
        obtain ⟨defs, hr⟩ := run_of_build (fun _ _ _ _ => ih.1) hb
        exact ⟨defs, t, hr, rfl⟩
      · rintro ⟨defs, t, hr, rfl⟩
        exact ⟨t, build_of_run (fun _ _ _ _ _ h => ih.2 ⟨_, h⟩) hr, rfl⟩

theorem line_eq_ok_iff {text : String} :
    Compile.line text s = .ok steps s' ↔
      ∃ defs, Run Command.rules (allowance s.nesting) text s steps defs s' := by
  simp only [line, bind_apply, get_apply, lineWithin_eq_ok_iff]

theorem line_of_run {n : Nat} {text : String} {defs : List Definition}
    (h : Run Command.rules n text s steps defs s') (hn : allowance s.nesting = n) :
    Compile.line text s = .ok steps s' :=
  line_eq_ok_iff.2 ⟨defs, hn ▸ h⟩

/-- A line whose command comes to a single action has one step. -/
theorem run_of_performs {rules : List Rule} {n : Nat} {text verb phrase : String} {c : Command}
    {a : Action} {types : Registry String}
    (hread : Command.read? rules (trimmed text) = some (verb, c))
    (h : c.Performs s.types a phrase types) :
    ∃ t, Run rules (n + 1) text s [.single (stepId s.counter) a phrase] [] t ∧
      t.types = types ∧ t.diagnostics = s.diagnostics := by
  have h' : c.Performs (s.told (.dispatched (trimmed text) verb)).entered.types a phrase types := h
  exact ⟨_, .of_command hread (.single h'), rfl, s.diagnostics_told_dispatched _ _⟩

/-- A line that defines a template by a single action. -/
theorem run_of_definition {rules : List Rule} {n : Nat} {text name body verb verb' phrase : String}
    {c : Command} {a : Action} {types : Registry String}
    (hread : Command.read? rules (trimmed text) = some (verb, .define name body))
    (hbody : Command.read? rules (trimmed body) = some (verb', c))
    (h : c.Performs s.types a phrase types) :
    ∃ t, Run rules (n + 1 + 1) text s [] [(name, [.single (stepId s.counter) a phrase])] t ∧
      t.types = types ∧ t.counter = s.counter + 1 := by
  have hr := Run.of_command (n := n) (s := (s.told (.dispatched (trimmed text) verb)).entered) hbody
    (.single h)
  exact ⟨_, .of_command hread (.defined hr), rfl, rfl⟩

-- Otherwise the elaborator reads the line of a run whenever a run is given to a lemma.
attribute [local irreducible] Run

/-- A line at the outermost level whose command comes to a single action. -/
theorem line_of_performs {text verb phrase : String} {c : Command} {a : Action}
    {types : Registry String} (hs : s.nesting = 0)
    (hread : Command.read? Command.rules (trimmed text) = some (verb, c))
    (h : c.Performs s.types a phrase types) :
    ∃ t, Compile.line text s = .ok [.single (stepId s.counter) a phrase] t ∧ t.types = types ∧
      t.nesting = 0 ∧ t.diagnostics = s.diagnostics := by
  have ha : allowance s.nesting = 31 + 1 := allowance_outermost hs
  obtain ⟨t, hr, ht, hd⟩ := run_of_performs (n := 31) hread h
  exact ⟨t, line_of_run hr ha, ht, by rw [hr.nesting_eq, hs], hd⟩

end Compile
end FlowScript
