import FlowScript.Proofs.Name
import FlowScript.Proofs.Step.Walk
import FlowScript.Proofs.Value.WellFormed

/-!
# Well-formed steps

A well-formed step is numbered, has an example and may be run by someone, and what it names and
computes is well formed; the same holds of the steps inside it. Copies under new numbers stay well
formed.

## Main definitions

* `Action.WellFormed`, `Step.Info.WellFormed`: the parts of a step.
* `Step.WellFormed`, `Step.AllWellFormed`: steps together with the steps inside them.

## Main statements

* `Step.wellFormed_single`: a single action makes a well-formed step if it is well formed itself.
* `Step.AllWellFormed.renumberAll`: copies are well formed.
-/
namespace FlowScript

/-! ## Access -/

theorem insertName_ne_nil (name : String) (ns : List String) : insertName name ns ≠ [] := by
  cases ns with
  | nil => simp [insertName]
  | cons n ns =>
    simp only [insertName]
    split
    · simp
    · split <;> simp

theorem nameSet_ne_nil {ns : List String} (h : ns ≠ []) : nameSet ns ≠ [] := by
  cases ns with
  | nil => exact absurd rfl h
  | cons n ns => exact insertName_ne_nil n _

/-- Someone has access, with some permission. -/
def Access.WellFormed (a : Access) : Prop :=
  a.roles ≠ [] ∧ a.permissions ≠ []

theorem Access.wellFormed_of {roles permissions : List String} (hr : roles ≠ [])
    (hp : permissions ≠ []) : (Access.of roles permissions).WellFormed :=
  ⟨nameSet_ne_nil hr, nameSet_ne_nil hp⟩

theorem Access.wellFormed_execute : Access.execute.WellFormed :=
  wellFormed_of (by decide) (by decide)

theorem Access.wellFormed_view : Access.view.WellFormed :=
  wellFormed_of (by decide) (by decide)

theorem Action.wellFormed_access (a : Action) : a.access.WellFormed := by
  cases a with
  | render => exact Access.wellFormed_view
  | state => exact Access.wellFormed_view
  | style => exact Access.wellFormed_view
  | listen => exact Access.wellFormed_view
  | _ => exact Access.wellFormed_execute

/-! ## Actions -/

/-- A tree that is a well-formed expression. -/
def Tree.IsExpr (t : Tree) : Prop :=
  ∃ e : Expr, e.WellFormed ∧ t = e.tree

namespace Action

/-- An action that does something, to variables with names, with well-formed values and for no
negative time. -/
def WellFormed : Action → Prop
  | set target value => isIdentifier target ∧ value.WellFormed
  | wait seconds => ∃ n : Int, 0 ≤ n ∧ seconds = .ofInt n
  | ret value => value.WellFormed
  | leave => True
  | call target endpoint => isIdentifier target ∧ endpoint ≠ ""
  | analyze model input target => model ≠ "" ∧ input.IsExpr ∧ isIdentifier target
  | render _ target _ => isIdentifier target
  | state _ initial => initial.IsExpr
  | style _ _ _ => True
  | listen _ _ => True
  | plain => False

end Action

namespace Step

/-! ## Steps -/

/-- The descriptive part of a step that is numbered, has an example and may be run by someone. -/
structure Info.WellFormed (i : Info) : Prop where
  id : ∃ n : Int, 0 ≤ n ∧ i.id = stepId n
  examples : i.examples ≠ []
  access : i.access.WellFormed

theorem Info.wellFormed_of {n : Int} {description phrase : String} {examples : List String}
    {access : Access} (hn : 0 ≤ n) (ha : access.WellFormed) :
    (Info.of (stepId n) description phrase examples access).WellFormed := by
  refine ⟨⟨n, hn, rfl⟩, ?_, ha⟩
  simp only [Info.of]
  split
  · simp
  · rename_i h
    simpa using h

/-- A part keeps being well formed under a new number. -/
theorem Info.WellFormed.withId {i : Info} (h : i.WellFormed) {n : Int} (hn : 0 ≤ n) :
    Info.WellFormed { i with id := stepId n } :=
  ⟨⟨n, hn, rfl⟩, h.examples, h.access⟩

mutual

/-- A step whose parts are well formed, as are the steps inside it. -/
def WellFormed : Step → Prop
  | act i a => i.WellFormed ∧ a.WellFormed
  | branch i c yes no => i.WellFormed ∧ c.WellFormed ∧ AllWellFormed yes ∧ AllWellFormed no
  | loop i c body => i.WellFormed ∧ c.WellFormed ∧ AllWellFormed body
termination_by structural s => s

/-- Steps that are all well formed. -/
def AllWellFormed : List Step → Prop
  | [] => True
  | s :: ss => WellFormed s ∧ AllWellFormed ss
termination_by structural ss => ss

end

@[simp] theorem allWellFormed_nil : AllWellFormed [] := trivial

@[simp] theorem allWellFormed_singleton {s : Step} : AllWellFormed [s] ↔ s.WellFormed := by
  simp [AllWellFormed]

@[simp] theorem allWellFormed_append {ss ts : List Step} :
    AllWellFormed (ss ++ ts) ↔ AllWellFormed ss ∧ AllWellFormed ts := by
  induction ss with
  | nil => simp
  | cons s ss ih => simp [AllWellFormed, ih, and_assoc]

/-- A single action is a well-formed step if it is well formed itself. -/
theorem wellFormed_single {n : Int} (hn : 0 ≤ n) {a : Action} (ha : a.WellFormed)
    (phrase : String) : (single (stepId n) a phrase).WellFormed :=
  ⟨Info.wellFormed_of hn a.wellFormed_access, ha⟩

/-! ## Copies -/

mutual

theorem WellFormed.renumber {n : Int} (hn : 0 ≤ n) :
    (s : Step) → s.WellFormed → (renumber n s).1.WellFormed
  | act i a, h => ⟨h.1.withId hn, h.2⟩
  | branch i c yes no, h => by
    obtain ⟨hi, hc, hy, ho⟩ := h
    have hyes := le_renumberAll (n + 1) yes
    exact ⟨hi.withId hn, hc, AllWellFormed.renumberAll (by omega) yes hy,
      AllWellFormed.renumberAll (by omega) no ho⟩
  | loop i c body, h => by
    obtain ⟨hi, hc, hb⟩ := h
    exact ⟨hi.withId hn, hc, AllWellFormed.renumberAll (by omega) body hb⟩
termination_by structural s => s

/-- A copy under new numbers is well formed. -/
theorem AllWellFormed.renumberAll {n : Int} (hn : 0 ≤ n) :
    (ss : List Step) → AllWellFormed ss → AllWellFormed (renumberAll n ss).1
  | [], _ => trivial
  | s :: ss, h => by
    have hs := le_renumber n s
    exact ⟨WellFormed.renumber hn s h.1, AllWellFormed.renumberAll (by omega) ss h.2⟩
termination_by structural ss => ss

end

end Step
end FlowScript
