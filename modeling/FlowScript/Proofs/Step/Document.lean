import FlowScript.Proofs.Session.Each
import FlowScript.Proofs.Tree.Document
import FlowScript.Proofs.Value.Models
import FlowScript.Workflow.Signature

/-!
# Steps in documents

The steps section of a document and a walk over the steps are two ways through the same workflow.
Whatever is looked for in typed objects is found in the same order on both, so that the variables
that are read and assigned and the classifiers that are asked can be told from the section alone.

## Main definitions

* `Action.Documented`, `Condition.Documented`: what documents show of actions and conditions.
* `Json.OfSteps`: what is looked for in steps and trees alone.
* `Step.trees`: the trees that a step holds itself.

## Main statements

* `Step.found_toJsons`: what is found in the steps section, visit by visit.
* `Step.found_readName`, `Step.found_targetName`, `Step.found_modelName`: reads, assignments and
  classifiers.
* `Workflow.documented_of_assemble`: all steps of a text are shown.
-/
namespace FlowScript

open Json

/-! ## What documents show -/

/-- The trees that an action holds. -/
def Action.trees : Action → List Tree
  | set _ value => [value.tree]
  | ret value => [value.tree]
  | analyze _ input _ => [input]
  | state _ initial => [initial]
  | _ => []

/-- An action whose trees are plain, and whose other parts hold no documents of their own. Only
values that are assigned or returned ask classifiers. -/
def Action.Documented : Action → Prop
  | set _ value => value.tree.Plain
  | wait seconds => seconds.isLiteral
  | ret value => value.tree.Plain
  | analyze _ input _ => input.Plain ∧ input.models = []
  | render _ _ props => props = defaultProps
  | state _ initial => initial.Plain ∧ initial.models = []
  | _ => True

/-- A condition whose tree is plain and asks no classifier. -/
def Condition.Documented (c : Condition) : Prop :=
  c.tree.Plain ∧ c.models = []

theorem Expr.documented_of_read {cs : List Char} {e : Expr} (h : Expr.read cs = .ok e) :
    e.tree.Plain ∧ e.tree.models = [] :=
  ⟨(Expr.wellFormed_of_read h).plain, Expr.models_of_read h⟩

namespace Action

variable {a : Action}

theorem Documented.plain (h : a.Documented) : ∀ t ∈ a.trees, t.Plain := by
  intro t ht
  cases a with
  | set target value =>
    rw [List.mem_singleton.1 ht]
    exact h
  | ret value =>
    rw [List.mem_singleton.1 ht]
    exact h
  | analyze model input target =>
    rw [List.mem_singleton.1 ht]
    exact h.1
  | state name initial =>
    rw [List.mem_singleton.1 ht]
    exact h.1
  | _ => exact absurd ht List.not_mem_nil

end Action

namespace Json

/-- Readers that look only at steps and trees: not at parts without type, nor at the components and
the events that steps hold. -/
structure OfSteps (f : Json → Option String) : Prop where
  typed : IsTyped f
  component : ∀ component props, f (.object [("type", .string component), ("props", .object props),
    ("children", .array []), ("hooks", .array [])]) = none
  event : ∀ event handler,
    f (.object [("type", .string event), ("handler", .string handler)]) = none

theorem typedText?_eq_none {type key : String} {j : Json} (h : j.textOf? key = none) :
    j.typedText? type key = none := by
  unfold typedText?
  split
  · exact h
  · rfl

theorem ofSteps_readName : OfSteps readName? := by
  refine ⟨isTyped_readName, fun component props => ?_, fun event handler => ?_⟩
  all_goals
    rw [readName?, typedText?_eq_none, typedText?_eq_none]
    all_goals rfl

theorem ofSteps_targetName : OfSteps targetName? := by
  refine ⟨isTyped_targetName, fun component props => ?_, fun event handler => ?_⟩
  all_goals
    rw [targetName?, typedText?_eq_none]
    rfl

theorem ofSteps_modelName : OfSteps modelName? := by
  refine ⟨isTyped_modelName, fun component props => ?_, fun event handler => ?_⟩
  all_goals
    rw [modelName?, typedText?_eq_none, typedText?_eq_none]
    all_goals rfl

variable {f : Json → Option String}

theorem IsTyped.found_members (hf : IsTyped f) (i : Step.Info) :
    foundInMembers f i.members = [] := by
  have ha : found f i.access.toJson = [] := by
    rw [Access.toJson, hf.found_untyped rfl]
    simp [hf.found_ofStrings]
  simp [Step.Info.members, hf.found_string, hf.found_ofStrings, ha]

/-- What is found in an action is found in its trees. -/
theorem OfSteps.found_members (hf : OfSteps f) {a : Action} (h : a.Documented) :
    foundInMembers f a.members = a.trees.flatMap fun t => found f t.toJson := by
  have hs := hf.typed.found_string
  have hn : ∀ {xs}, xs = ([] : List Json) → found f (.array xs) = [] := by
    rintro _ rfl
    exact hf.typed.found_array []
  cases a with
  | set target value => simp [Action.members, Action.trees, hs, Value.toJson]
  | wait seconds =>
    have hd : found f (.object [("unit", .string "seconds"), ("value", seconds)]) = [] := by
      rw [hf.typed.found_untyped rfl]
      simp [hs, hf.typed.found_literal h]
    simp [Action.members, Action.trees, hd]
  | ret value => simp [Action.members, Action.trees, Value.toJson]
  | leave => rfl
  | call target endpoint => simp [Action.members, Action.trees, hs]
  | analyze model input target => simp [Action.members, Action.trees, hs]
  | render component target props =>
    obtain rfl : props = Action.defaultProps := h
    have hp : found f (.object Action.defaultProps) = [] := by
      rw [hf.typed.found_untyped rfl, Action.defaultProps]
      simp [hs]
    simp [Action.members, Action.trees, hs, found_object, hf.component, hp, hn]
  | state name initial =>
    have hi : found f (.object [("name", .string name), ("initial", initial.toJson)]) =
        found f initial.toJson := by
      rw [hf.typed.found_untyped rfl]
      simp [hs]
    simp [Action.members, Action.trees, hi]
  | style selector properties framework =>
    have hi : found f (.object [("selector", .string selector),
        ("properties", .ofStrings properties), ("framework", .string framework)]) = [] := by
      rw [hf.typed.found_untyped rfl]
      simp [hs, hf.typed.found_ofStrings]
    simp [Action.members, Action.trees, hi]
  | listen event handler => simp [Action.members, Action.trees, hs, found_object, hf.event]
  | plain => rfl

end Json

namespace Step

variable {f : Json → Option String}

/-- The trees that a step holds itself. -/
def trees : Step → List Tree
  | act _ a => a.trees
  | branch _ c _ _ => [c.tree]
  | loop _ c _ => [c.tree]

/-- What a step holds itself is shown in documents. -/
def Documented : Step → Prop
  | act _ a => a.Documented
  | branch _ c _ _ => c.Documented
  | loop _ c _ => c.Documented

theorem Documented.plain {s : Step} (h : s.Documented) : ∀ t ∈ s.trees, t.Plain := by
  cases s with
  | act i a => exact Action.Documented.plain h
  | branch i c yes no => simpa [trees] using h.1
  | loop i c body => simpa [trees] using h.1

/-- What a step says itself, without the steps inside it. -/
def ownFound (f : Json → Option String) (s : Step) : List String :=
  (f s.toJson).toList ++ s.trees.flatMap fun t => found f t.toJson

theorem found_document (hf : IsTyped f) (i : Info) (type : String) (own : Json.Members) :
    found f (document i type own) = (f (document i type own)).toList ++ foundInMembers f own := by
  rw [document, found_object]
  simp [hf.found_string, hf.found_members]

/-- Some steps whose actions and conditions are shown in their documents. -/
abbrev AllDocumented : List Step → Prop :=
  EachAll (fun _ a => a.Documented) Condition.Documented

section

variable {names : Step → List String}

mutual

theorem found_toJson (hf : OfSteps f) (hn : ∀ s, s.Documented → ownFound f s = names s) (d : Nat) :
    (s : Step) → Each (fun _ a => a.Documented) Condition.Documented s →
    found f s.toJson = (walk d s).flatMap fun visit => names visit.1
  | act i a, h => by
    rw [toJson, found_document hf.typed, hf.found_members h]
    simp [walk, ← hn (act i a) h, ownFound, trees, toJson]
  | branch i c yes no, h => by
    obtain ⟨hc, hy, ho⟩ := h
    rw [toJson, found_document hf.typed]
    simp [walk, ← hn (branch i c yes no) hc, ownFound, trees, toJson, Condition.toJson,
      found_toJsons hf hn (d + 1) yes hy, found_toJsons hf hn (d + 1) no ho]
  | loop i c body, h => by
    rw [toJson, found_document hf.typed]
    simp [walk, ← hn (loop i c body) h.1, ownFound, trees, toJson, Condition.toJson,
      found_toJsons hf hn (d + 1) body h.2]
termination_by structural s => s

/-- What is found in the documents of some steps is what the steps say on a walk over them. -/
theorem found_toJsons (hf : OfSteps f) (hn : ∀ s, s.Documented → ownFound f s = names s) (d : Nat) :
    (ss : List Step) → AllDocumented ss →
    found f (.array (toJsons ss)) = (walkAll d ss).flatMap fun visit => names visit.1
  | [], _ => hf.typed.found_array []
  | s :: ss, h => by
    have hs := found_toJson hf hn d s h.1
    have hss := found_toJsons hf hn d ss h.2
    rw [hf.typed.found_array] at hss ⊢
    simp [toJsons, walkAll, hs, hss]
termination_by structural ss => ss

end

end

/-! ## Reads, assignments and classifiers -/

variable {s : Step} {ss : List Step}

theorem readName_toJson (s : Step) : readName? s.toJson = none := by
  cases s with
  | act i a => cases a <;> rfl
  | branch i c yes no => rfl
  | loop i c body => rfl

theorem targetName_toJson (s : Step) : (targetName? s.toJson).toList = s.writes := by
  cases s with
  | act i a => cases a <;> rfl
  | branch i c yes no => rfl
  | loop i c body => rfl

theorem ownFound_readName (h : s.Documented) : ownFound readName? s = s.reads := by
  have ht : ∀ t ∈ s.trees, found readName? t.toJson = t.reads := fun t ht =>
    Tree.found_readName (h.plain t ht)
  rw [ownFound, readName_toJson, List.flatMap_congr ht]
  cases s with
  | act i a => cases a <;> simp [trees, Action.trees, reads, Action.reads, Value.reads]
  | branch i c yes no => simp [trees, reads, Condition.reads]
  | loop i c body => simp [trees, reads, Condition.reads]

theorem ownFound_targetName (h : s.Documented) : ownFound targetName? s = s.writes := by
  have ht : ∀ t ∈ s.trees, found targetName? t.toJson = [] := fun t ht =>
    Tree.found_targetName (h.plain t ht)
  rw [ownFound, targetName_toJson, List.flatMap_congr ht]
  simp

/-- The classifier that a step names beside its trees. -/
def namedModels : Step → List String
  | act _ (.analyze model _ _) => [model]
  | _ => []

theorem modelName_toJson (s : Step) : (modelName? s.toJson).toList = s.namedModels := by
  cases s with
  | act i a => cases a <;> rfl
  | branch i c yes no => rfl
  | loop i c body => rfl

theorem models_eq (h : s.Documented) :
    s.models = s.namedModels ++ s.trees.flatMap Tree.models := by
  cases s with
  | act i a =>
    cases a with
    | set target value => simp [models, Action.models, namedModels, trees, Action.trees, Value.models]
    | ret value => simp [models, Action.models, namedModels, trees, Action.trees, Value.models]
    | analyze model input target =>
      have hi : input.models = [] := h.2
      simp [models, Action.models, namedModels, trees, Action.trees, hi]
    | state name initial =>
      have hi : initial.models = [] := h.2
      simp [models, Action.models, namedModels, trees, Action.trees, hi]
    | _ => rfl
  | branch i c yes no =>
    have hc : c.tree.models = [] := h.2
    simp [models, namedModels, trees, hc]
  | loop i c body =>
    have hc : c.tree.models = [] := h.2
    simp [models, namedModels, trees, hc]

theorem ownFound_modelName (h : s.Documented) : ownFound modelName? s = s.models := by
  have ht : ∀ t ∈ s.trees, found modelName? t.toJson = t.models := fun t ht =>
    Tree.found_modelName (h.plain t ht)
  rw [ownFound, modelName_toJson, List.flatMap_congr ht, models_eq h]

/-- What the steps section says to be read is what the steps read. -/
theorem found_readName (h : AllDocumented ss) :
    found readName? (.array (toJsons ss)) = (walkAll 0 ss).flatMap fun visit => visit.1.reads :=
  found_toJsons ofSteps_readName (fun _ => ownFound_readName) 0 ss h

/-- What the steps section says to be assigned is what the steps assign. -/
theorem found_targetName (h : AllDocumented ss) :
    found targetName? (.array (toJsons ss)) = (walkAll 0 ss).flatMap fun visit => visit.1.writes :=
  found_toJsons ofSteps_targetName (fun _ => ownFound_targetName) 0 ss h

/-- What the steps section says to be asked is what the steps ask. -/
theorem found_modelName (h : AllDocumented ss) :
    found modelName? (.array (toJsons ss)) = (walkAll 0 ss).flatMap fun visit => visit.1.models :=
  found_toJsons ofSteps_modelName (fun _ => ownFound_modelName) 0 ss h

end Step

/-! ## Steps of a text -/

theorem inherent_documented : Step.Inherent (fun _ a => a.Documented) Condition.Documented where
  renamed := fun _ _ _ h => h
  act := by
    intro line verb c types types' a phrase id _ h
    cases h with
    | wait h hn => rfl
    | set ht hv => exact (Value.wellFormed_of_read hv).plain
    | ret hr hv => exact (Value.wellFormed_of_read hv).plain
    | analyze h => exact Expr.documented_of_read h
    | render component target => rfl
    | state h => exact Expr.documented_of_read h
    | _ => trivial
  first := fun _ _ _ => rfl
  next := fun _ _ _ => ⟨trivial, rfl⟩
  below := fun _ _ _ => ⟨⟨trivial, rfl⟩, rfl⟩
  condition := fun _ h => ⟨(Condition.wellFormed_of_parse h).plain, Condition.models_of_parse h⟩

/-- All steps of a text are shown in their documents. -/
theorem Workflow.documented_of_assemble {function text : String} {w : Workflow} {t : Session}
    (h : assemble function text {} = .ok w t) : Step.AllDocumented w.steps :=
  each_of_assemble inherent_documented h

end FlowScript
