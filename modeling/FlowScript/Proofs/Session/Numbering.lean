import FlowScript.Proofs.Numeric.Decimal
import FlowScript.Proofs.Session.Halt
import FlowScript.Proofs.Step.Walk
import Mathlib.Data.List.Nodup
import Mathlib.Data.List.Perm.Subperm

/-!
# Numbers of steps

Every number that is drawn names one step: a step that is yielded, or a step of a template that is
stored on the way. No number is drawn for two steps, and none is lost. What a fault cuts off keeps
its numbers, so that they are never issued again.

## Main definitions

* `Operation`, `Operation.Turn`: the operations of a session that yield steps, and what they do.
* `History`: operations one after another.

## Main statements

* `Compile.Run.numbered`: the names issued by a run are those between its two counters.
* `Compile.Halt.subperm`: a line that ends in a fault issues some of them, and none twice.
* `History.subperm`: the same for operations one after another.
-/
namespace FlowScript

open Step

/-- Steps with different numbers have different names. -/
theorem stepId_injective {m n : Int} (h : stepId m = stepId n) : m = n := by
  have hl := congrArg String.toList h
  simp only [stepId, String.join_cons, String.toList_append] at hl
  have hr := List.append_cancel_left hl
  exact (int_append_inj (by simp [EndsNumber]) (by simp [EndsNumber]) hr).1

theorem Step.nodup_idsBetween (a b : Int) : (idsBetween a b).Nodup := by
  refine List.Nodup.map ?_ List.nodup_range
  intro i j h
  have := stepId_injective h
  omega

/-- The names of the steps that some definitions store. -/
def storedIds (defs : List Definition) : List String :=
  defs.flatMap fun d => ids d.2

/-- The names of the steps of all templates. -/
def Session.templateIds (s : Session) : List String :=
  storedIds s.templates.entries

@[simp] theorem storedIds_nil : storedIds [] = [] := rfl

@[simp] theorem storedIds_append (defs more : List Definition) :
    storedIds (defs ++ more) = storedIds defs ++ storedIds more := by
  simp [storedIds]

@[simp] theorem storedIds_singleton (name : String) (steps : List Step) :
    storedIds [(name, steps)] = ids steps := by
  simp [storedIds]

namespace Command

@[simp] theorem ids_single (id : String) (a : Action) (phrase : String) :
    ids [.single id a phrase] = [id] := rfl

@[simp] theorem ids_counted (line id : String) (n : Int) (body : List Step) (last : String) :
    ids [counted line id n body last] = [id] ++ (ids body ++ [last]) := by
  simp [counted, nextCount, Info.of]

@[simp] theorem ids_branched (line id : String) (c : Condition) (yes no : List Step) :
    ids [branched line id c yes no] = [id] ++ (ids yes ++ ids no) := by
  simp [branched, Info.of]

/-! ## One line -/

/-- The names that some steps and definitions take up are those between two numbers. -/
structure Numbered (a : Int) (steps : List Step) (defs : List Definition) (b : Int) : Prop where
  le : a ≤ b
  perm : (ids steps ++ storedIds defs).Perm (idsBetween a b)

/-- A command takes up the numbers that it draws, if the lines inside it do. -/
theorem Run.numbered {inner : Course} {line : String} {c : Command} {s t : Session}
    {steps : List Step} {defs : List Definition}
    (hin : ∀ text s steps defs t, inner text s steps defs t →
      Numbered s.counter steps defs t.counter)
    (h : Run inner line c s steps defs t) : Numbered s.counter steps defs t.counter := by
  cases h with
  | refused h => exact ⟨Int.le_refl _, by simp⟩
  | single h => exact ⟨Int.le_add_one (Int.le_refl _), by simp [idsBetween_succ]⟩
  | copied h hne => exact ⟨le_renumberAll _ _, by simp [ids_renumberAll]⟩
  | defined h =>
    obtain ⟨hle, hp⟩ := hin _ _ _ _ _ h
    refine ⟨hle, ?_⟩
    simpa using List.perm_append_comm.trans hp
  | counted hn hb h =>
    obtain ⟨hle, hp⟩ := hin _ _ _ _ _ h
    simp only [Session.drawn_counter, Session.typed_counter] at hle hp ⊢
    refine ⟨by omega, List.perm_iff_count.2 fun name => ?_⟩
    have hc := hp.count_eq name
    rw [ids_cons, idsBetween_concat (by omega), idsBetween_cons (by omega),
      idsBetween_cons (by omega)]
    simp only [firstCount, ids_single, ids_counted, List.count_append, List.count_cons,
      List.count_nil] at hc ⊢
    omega
  | taken hc h =>
    obtain ⟨hle, hp⟩ := hin _ _ _ _ _ h
    simp only [Session.drawn_counter]
    refine ⟨by omega, List.perm_iff_count.2 fun name => ?_⟩
    have hc := hp.count_eq name
    rw [idsBetween_concat hle]
    simp only [ids_branched, ids_nil, List.count_append, List.count_nil] at hc ⊢
    omega
  | branched hc hy hn =>
    obtain ⟨hle, hp⟩ := hin _ _ _ _ _ hy
    obtain ⟨hle', hp'⟩ := hin _ _ _ _ _ hn
    simp only [Session.drawn_counter]
    refine ⟨by omega, List.perm_iff_count.2 fun name => ?_⟩
    have hc := hp.count_eq name
    have hc' := hp'.count_eq name
    rw [idsBetween_concat (by omega), ← idsBetween_append hle hle']
    simp only [ids_branched, storedIds_append, List.count_append] at hc hc' ⊢
    omega

end Command

namespace Compile

variable {rules : List Rule} {n : Nat} {text : String} {s t : Session} {steps : List Step}
  {defs : List Definition} {f : Fault}

/-- **The names issued by a line are those between its two counters, each once.** -/
theorem Run.numbered (h : Run rules n text s steps defs t) :
    Command.Numbered s.counter steps defs t.counter := by
  refine Run.induction (motive := fun _ _ s steps defs t =>
    Command.Numbered s.counter steps defs t.counter) ?tooDeep ?unrecognized ?command h
  case tooDeep =>
    intro text s
    exact ⟨Int.le_refl _, by simp⟩
  case unrecognized =>
    intro n text s _
    exact ⟨Int.le_refl _, by simp⟩
  case command =>
    intro n text verb c s steps defs t ih _ hr
    simpa using hr.numbered ih

/-- A line that ends in a fault issues some of the names between its two counters, none twice. -/
theorem Halt.subperm (h : Halt rules n text s f defs t) :
    s.counter ≤ t.counter ∧ (storedIds defs).Subperm (idsBetween s.counter t.counter) := by
  refine Halt.induction (motive := fun _ _ s _ defs t =>
    s.counter ≤ t.counter ∧ (storedIds defs).Subperm (idsBetween s.counter t.counter)) ?command h
  case command =>
    intro n text verb c s f defs t ih _ hh
    cases hh with
    | broken h => exact ⟨h.counter_le, List.nil_subperm⟩
    | defined h => simpa using ih _ _ _ _ _ h
    | counted hn hb h =>
      obtain ⟨hle, hs⟩ := ih _ _ _ _ _ h
      simp only [Session.drawn_counter, Session.typed_counter, Session.entered_counter,
        Session.told_counter, Session.exited_counter] at hle hs ⊢
      refine ⟨by omega, hs.trans ?_⟩
      rw [idsBetween_cons (a := s.counter) (by omega),
        idsBetween_cons (a := s.counter + 1) (by omega)]
      exact (List.sublist_append_right [_, _] _).subperm
    | yes hc h => simpa using ih _ _ _ _ _ h
    | no hc hy hn =>
      obtain ⟨hle, hp⟩ := Run.numbered hy
      obtain ⟨hle', hs⟩ := ih _ _ _ _ _ hn
      simp only [Session.entered_counter, Session.told_counter, Session.exited_counter] at *
      refine ⟨by omega, ?_⟩
      rw [storedIds_append, ← idsBetween_append hle hle']
      exact ((List.sublist_append_right _ _).subperm.trans hp.subperm).append hs

end Compile

/-! ## Operations one after another -/

/-- The operations of a session that yield steps. -/
inductive Operation where
  /-- A line is carried out. -/
  | line (text : String)
  /-- The steps of a template are copied. -/
  | expand (name : String)
  deriving DecidableEq, Repr, Inhabited

namespace Operation

/-- The computation of an operation. -/
def carry : Operation → Compile (List Step)
  | line text => Compile.line text
  | expand name => Compile.expand name

/-- What an operation does in a session: the steps that it yields, which are none after a fault, the
definitions that it makes, and the session afterwards. -/
inductive Turn : Operation → Session → List Step → List Definition → Session → Prop
  | line {text : String} {s t : Session} {steps : List Step} {defs : List Definition}
      (h : Compile.Run Command.rules (Compile.allowance s.nesting) text s steps defs t) :
      Turn (line text) s steps defs t
  | cutOff {text : String} {s t : Session} {f : Fault} {defs : List Definition}
      (h : Compile.Halt Command.rules (Compile.allowance s.nesting) text s f defs t) :
      Turn (line text) s [] defs t
  | expand {name : String} {s : Session} {template : List Step}
      (h : s.templates.find? name = some template) :
      Turn (expand name) s (renumberAll s.counter template).1 [] (s.copied template)
  | undefined {name : String} {s : Session} (h : s.templates.find? name = none) :
      Turn (expand name) s [] [] s

variable {op : Operation} {s t : Session} {steps : List Step} {defs : List Definition}

/-- The steps of a stored template are copied. -/
theorem carry_expand {name : String} {template : List Step}
    (hf : s.templates.find? name = some template) :
    (expand name).carry s = .ok (renumberAll s.counter template).1 (s.copied template) := by
  simp only [carry, Compile.expand, Compile.bind_apply, Compile.get_apply, hf, Compile.copy_apply]

theorem turn_of_carry (h : op.carry s = .ok steps t) : ∃ defs, op.Turn s steps defs t := by
  cases op with
  | line text =>
    obtain ⟨defs, hr⟩ := Compile.line_eq_ok_iff.1 h
    exact ⟨defs, .line hr⟩
  | expand name =>
    cases hf : s.templates.find? name with
    | none =>
      simp [carry, Compile.expand, Compile.bind_apply, hf] at h
    | some template =>
      simp only [carry_expand hf, EStateM.Result.ok.injEq] at h
      obtain ⟨rfl, rfl⟩ := h
      exact ⟨[], .expand hf⟩

/-- An operation without a fault takes up the numbers that it draws. -/
theorem Turn.numbered (h : op.carry s = .ok steps t) (ht : op.Turn s steps defs t) :
    Command.Numbered s.counter steps defs t.counter := by
  cases ht with
  | line hr => exact hr.numbered
  | cutOff hh =>
    have he := Compile.line_eq_error_iff.2 ⟨_, hh⟩
    simp [carry, he] at h
  | expand hf => exact ⟨le_renumberAll _ _, by simp [ids_renumberAll]⟩
  | undefined hf => exact ⟨Int.le_refl _, by simp⟩

theorem Turn.templates_eq (ht : op.Turn s steps defs t) :
    t.templates = s.templates.register defs := by
  cases ht with
  | line hr => exact hr.templates_eq
  | cutOff hh => exact hh.templates_eq
  | expand hf => rfl
  | undefined hf => rfl

/-- An operation issues some of the names between its two counters, none twice. -/
theorem Turn.subperm (ht : op.Turn s steps defs t) :
    s.counter ≤ t.counter ∧
      (ids steps ++ storedIds defs).Subperm (idsBetween s.counter t.counter) := by
  cases ht with
  | line hr => exact ⟨hr.numbered.le, hr.numbered.perm.subperm⟩
  | cutOff hh => simpa using hh.subperm
  | expand hf =>
    refine ⟨le_renumberAll _ _, List.Perm.subperm ?_⟩
    simp [ids_renumberAll]
  | undefined hf => exact ⟨Int.le_refl _, by simp⟩

end Operation

/-- Operations one after another, with the steps that each of them yields and the definitions that
it makes. -/
inductive History : Session → List (List Step × List Definition) → Session → Prop
  | nil (s : Session) : History s [] s
  | cons {op : Operation} {s t u : Session} {steps : List Step} {defs : List Definition}
      {turns : List (List Step × List Definition)} (ht : op.Turn s steps defs t)
      (hs : History t turns u) : History s ((steps, defs) :: turns) u

namespace History

variable {s t : Session} {turns : List (List Step × List Definition)}

/-- Operations one after another issue some of the names between the counters at their two ends,
none twice. -/
theorem subperm (h : History s turns t) :
    s.counter ≤ t.counter ∧
      (turns.flatMap fun turn => ids turn.1 ++ storedIds turn.2).Subperm
        (idsBetween s.counter t.counter) := by
  induction h with
  | nil s => exact ⟨Int.le_refl _, by simp⟩
  | cons ht _ ih =>
    obtain ⟨hle, hs⟩ := ht.subperm
    refine ⟨Int.le_trans hle ih.1, ?_⟩
    rw [List.flatMap_cons, ← idsBetween_append hle ih.1]
    exact hs.append ih.2

/-- The templates after some operations are among those before them and those defined by them. -/
theorem templateIds_subset (h : History s turns t) :
    t.templateIds ⊆ s.templateIds ++ turns.flatMap fun turn => storedIds turn.2 := by
  induction h with
  | nil s => simp
  | @cons op s t u steps defs turns ht _ ih =>
    intro name hn
    have hd : name ∈ t.templateIds → name ∈ s.templateIds ++ storedIds defs := by
      simp only [Session.templateIds, ht.templates_eq, storedIds, List.mem_append,
        List.mem_flatMap]
      rintro ⟨e, he, hm⟩
      exact (Registry.mem_entries_register he).imp (⟨e, ·, hm⟩) (⟨e, ·, hm⟩)
    have := ih hn
    simp only [List.mem_append, List.flatMap_cons] at this hd ⊢
    rcases this with h | h
    · exact (hd h).imp_right .inl
    · exact .inr (.inr h)

/-- The names of later operations have larger numbers. -/
theorem pairwise_lt (h : History s turns t) :
    turns.Pairwise fun u v => ∀ m n, stepId m ∈ ids u.1 → stepId n ∈ ids v.1 → m < n := by
  induction h with
  | nil s => exact .nil
  | cons ht hs ih =>
    refine .cons ?_ ih
    intro v hv m n hm hn
    have hm' := ht.subperm.2.subset (List.mem_append_left _ hm)
    have hn' := hs.subperm.2.subset
      (List.mem_flatMap.2 ⟨v, hv, List.mem_append_left _ hn⟩)
    obtain ⟨_, -, hlt, hm'⟩ := mem_idsBetween.1 hm'
    obtain ⟨_, hle, -, hn'⟩ := mem_idsBetween.1 hn'
    rw [stepId_injective hm', stepId_injective hn']
    omega

end History

/-- **No number is issued twice, skipped or lost.** An operation without a fault gives every number
that it draws to one step, which it yields or stores as part of a template. Over operations one
after another all steps that are yielded have different names, the numbers of later operations are
larger, and none of the names is that of a step stored on the way, nor that of any stored step if
those before had been numbered before. -/
theorem ids_issued_once :
    (∀ (op : Operation) (s t : Session) (steps : List Step), op.carry s = .ok steps t →
      (∃ defs, op.Turn s steps defs t) ∧
      ∀ defs, op.Turn s steps defs t →
        t.templates = s.templates.register defs ∧ s.counter ≤ t.counter ∧
        (ids steps ++ storedIds defs).Nodup ∧
        (ids steps ++ storedIds defs).Perm (idsBetween s.counter t.counter)) ∧
    ∀ (s t : Session) (turns : List (List Step × List Definition)), History s turns t →
      (turns.flatMap fun turn => ids turn.1).Nodup ∧
      (turns.Pairwise fun u v => ∀ m n, stepId m ∈ ids u.1 → stepId n ∈ ids v.1 → m < n) ∧
      (turns.flatMap fun turn => ids turn.1).Disjoint
        (turns.flatMap fun turn => storedIds turn.2) ∧
      ((∀ name ∈ s.templateIds, ∃ n < s.counter, name = stepId n) →
        (turns.flatMap fun turn => ids turn.1).Disjoint t.templateIds) := by
  constructor
  · intro op s t steps h
    refine ⟨Operation.turn_of_carry h, fun defs ht => ?_⟩
    have hn := ht.numbered h
    exact ⟨ht.templates_eq, hn.le, hn.perm.nodup_iff.2 (nodup_idsBetween _ _), hn.perm⟩
  · intro s t turns h
    obtain ⟨l, hp, hs⟩ := h.subperm.2
    have hn := hp.nodup_iff.1 (hs.nodup (nodup_idsBetween _ _))
    have hd := (List.flatMap_append_perm turns (fun turn => ids turn.1)
      fun turn => storedIds turn.2).nodup_iff.2 hn
    have hd' := List.disjoint_of_nodup_append hd
    refine ⟨hd.of_append_left, h.pairwise_lt, hd', ?_⟩
    intro ho name hi ht
    rcases List.mem_append.1 (h.templateIds_subset ht) with hb | hb
    · -- an old template: its numbers lie below those of the operations
      obtain ⟨m, hm, rfl⟩ := ho name hb
      obtain ⟨turn, hturn, hi⟩ := List.mem_flatMap.1 hi
      obtain ⟨n, hle, -, he⟩ := mem_idsBetween.1
        (h.subperm.2.subset (List.mem_flatMap.2 ⟨turn, hturn, List.mem_append_left _ hi⟩))
      have := stepId_injective he
      omega
    · exact hd' hi hb

/-- A definition gives the first number to a step that it stores, and a copy the second one to its
own step. -/
theorem ids_of_definition_and_copy : ∃ t u copies turns,
    (Operation.line "macro m wait 1 seconds").carry {} = .ok [] t ∧
    (Operation.expand "m").carry t = .ok copies u ∧ History {} turns u ∧
    ids copies = [stepId 2] ∧ (ids copies).Perm (idsBetween t.counter u.counter) ∧
    (turns.flatMap fun turn => ids turn.1).Disjoint u.templateIds := by
  obtain ⟨t, ht, hc, hf⟩ : ∃ t, (Operation.line "macro m wait 1 seconds").carry {} = .ok [] t ∧
      t.counter = 2 ∧
      t.templates.find? "m" = some [.single (stepId 1) (.wait (.ofInt 1)) ""] :=
    ⟨_, rfl, rfl, rfl⟩
  have hr : renumberAll t.counter [.single (stepId 1) (.wait (.ofInt 1)) ""] =
      ([.single (stepId 2) (.wait (.ofInt 1)) ""], 3) := by
    rw [hc]
    rfl
  have hm := Operation.Turn.expand hf
  have hu := Operation.carry_expand hf
  obtain ⟨⟨defs, hd⟩, -⟩ := ids_issued_once.1 _ _ _ _ ht
  obtain ⟨-, -, -, hp⟩ := (ids_issued_once.1 _ _ _ _ hu).2 [] hm
  have hh : History {} [([], defs), _] _ := .cons hd (.cons hm (.nil _))
  obtain ⟨-, -, -, ho⟩ := ids_issued_once.2 _ _ _ hh
  refine ⟨t, _, _, _, ht, hu, hh, ?_, ?_, ?_⟩
  · rw [hr]
    rfl
  · simpa using hp
  · exact ho (by simp [Session.templateIds, Registry.empty])

end FlowScript
