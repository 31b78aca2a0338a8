import FlowScript.Proofs.Step.Walk

/-!
# What some steps have in common

A property of all actions in some steps, and one of the conditions of their branches and loops, is
stated along the steps inside each other. A walk meets the same actions, and copies keep what does
not look at the names of steps.

## Main definitions

* `Step.Each`, `Step.EachAll`: a property of all actions and one of all conditions of some steps.

## Main statements

* `Step.EachAll.each_of_mem_walkAll`: the steps that a walk meets have the properties.
* `Step.EachAll.renumberAll`: copies have the properties of their templates.
-/
namespace FlowScript.Step

variable {P : Info → Action → Prop} {Q : Condition → Prop}

mutual

/-- The actions in a step have a property, and the conditions of its branches and loops another. -/
def Each (P : Info → Action → Prop) (Q : Condition → Prop) : Step → Prop
  | act i a => P i a
  | branch _ c yes no => Q c ∧ EachAll P Q yes ∧ EachAll P Q no
  | loop _ c body => Q c ∧ EachAll P Q body
termination_by structural s => s

/-- The actions in some steps have a property, and the conditions of their branches and loops
another. -/
def EachAll (P : Info → Action → Prop) (Q : Condition → Prop) : List Step → Prop
  | [] => True
  | s :: ss => Each P Q s ∧ EachAll P Q ss
termination_by structural ss => ss

end

@[simp] theorem eachAll_nil : EachAll P Q [] := trivial

@[simp] theorem eachAll_append {ss ts : List Step} :
    EachAll P Q (ss ++ ts) ↔ EachAll P Q ss ∧ EachAll P Q ts := by
  induction ss with
  | nil => simp
  | cons s ss ih => simp [EachAll, ih, and_assoc]

theorem eachAll_iff {ss : List Step} : EachAll P Q ss ↔ ∀ s ∈ ss, Each P Q s := by
  induction ss with
  | nil => simp
  | cons s ss ih => simp [EachAll, ih]

mutual

theorem Each.imp {P' : Info → Action → Prop} (h : ∀ i a, P i a → P' i a) :
    (s : Step) → Each P Q s → Each P' Q s
  | act i a, hs => h i a hs
  | branch i c yes no, hs => by
    obtain ⟨hc, hy, hn⟩ := hs
    exact ⟨hc, EachAll.imp h yes hy, EachAll.imp h no hn⟩
  | loop i c body, hs => ⟨hs.1, EachAll.imp h body hs.2⟩
termination_by structural s => s

/-- A weaker property holds of the same actions. -/
theorem EachAll.imp {P' : Info → Action → Prop} (h : ∀ i a, P i a → P' i a) :
    (ss : List Step) → EachAll P Q ss → EachAll P' Q ss
  | [], _ => trivial
  | s :: ss, hs => ⟨Each.imp h s hs.1, EachAll.imp h ss hs.2⟩
termination_by structural ss => ss

end

/-! ## Walks -/

mutual

theorem Each.each_of_mem_walk (d : Nat) : (s : Step) → Each P Q s →
    ∀ visit ∈ walk d s, Each P Q visit.1
  | act i a, h, visit, hm => by
    rw [List.mem_singleton.1 hm]
    exact h
  | branch i c yes no, h, visit, hm => by
    rcases List.mem_cons.1 hm with rfl | hm
    · exact h
    · rcases List.mem_append.1 hm with hm | hm
      · exact EachAll.each_of_mem_walkAll (d + 1) yes h.2.1 visit hm
      · exact EachAll.each_of_mem_walkAll (d + 1) no h.2.2 visit hm
  | loop i c body, h, visit, hm => by
    rcases List.mem_cons.1 hm with rfl | hm
    · exact h
    · exact EachAll.each_of_mem_walkAll (d + 1) body h.2 visit hm
termination_by structural s => s

/-- A walk meets only steps with the properties. -/
theorem EachAll.each_of_mem_walkAll (d : Nat) : (ss : List Step) → EachAll P Q ss →
    ∀ visit ∈ walkAll d ss, Each P Q visit.1
  | [], _, visit, hm => by simp [walkAll] at hm
  | s :: ss, h, visit, hm => by
    rcases List.mem_append.1 hm with hm | hm
    · exact Each.each_of_mem_walk d s h.1 visit hm
    · exact EachAll.each_of_mem_walkAll d ss h.2 visit hm
termination_by structural ss => ss

end

/-- A walk meets only actions with the property. -/
theorem EachAll.of_mem_walkAll (d : Nat) (ss : List Step) (h : EachAll P Q ss) (i : Info)
    (a : Action) (e : Nat) (hm : (act i a, e) ∈ walkAll d ss) : P i a :=
  EachAll.each_of_mem_walkAll d ss h _ hm

/-! ## Copies -/

mutual

theorem Each.renumber (hP : ∀ i a id, P i a → P { i with id } a) (n : Int) :
    (s : Step) → Each P Q s → Each P Q (renumber n s).1
  | act i a, h => hP i a _ h
  | branch i c yes no, h => by
    obtain ⟨hc, hy, hn⟩ := h
    exact ⟨hc, EachAll.renumberAll hP _ yes hy, EachAll.renumberAll hP _ no hn⟩
  | loop i c body, h => ⟨h.1, EachAll.renumberAll hP _ body h.2⟩
termination_by structural s => s

/-- A copy has the properties of its template, if they do not look at names. -/
theorem EachAll.renumberAll (hP : ∀ i a id, P i a → P { i with id } a) (n : Int) :
    (ss : List Step) → EachAll P Q ss → EachAll P Q (renumberAll n ss).1
  | [], _ => trivial
  | s :: ss, h => ⟨Each.renumber hP n s h.1, EachAll.renumberAll hP _ ss h.2⟩
termination_by structural ss => ss

end

end FlowScript.Step
