import FlowScript.Proofs.Step.Walk

/-!
# Types that steps give

A step that assigns to a variable gives it a type: that of the value, that of text for an answer of
an endpoint, and that of a tensor for an answer of a classifier. A counted loop closes with a step
that increases its counter, and this step is put there without being carried out as a command. So
there are two lists for some steps: all that they give on a walk, and what they give when the steps
that close loops are left out.

## Main definitions

* `Step.written`: the types that are given on a walk, in order.
* `Step.recordedAll`: the same without the steps that close counted loops.

## Main statements

* `Step.filter_recordedAll`: the two lists differ in counters of loops only.
-/
namespace FlowScript

/-- The type that an action gives to the variable that it assigns to. -/
def Action.assigned : Action → List (String × String)
  | set target value => [(target, value.type.name)]
  | call target _ => [(target, ValueType.string.name)]
  | analyze _ _ target => [(target, ValueType.tensor.name)]
  | _ => []

namespace Step

/-- The type that a step gives itself. -/
def assigned : Step → List (String × String)
  | act _ a => a.assigned
  | _ => []

/-- The types that some steps and the steps inside them give, in the order of a walk. -/
def written (ss : List Step) : List (String × String) :=
  (walkAll 0 ss).flatMap fun visit => visit.1.assigned

@[simp] theorem written_nil : written [] = [] := rfl

@[simp] theorem written_append (ss ts : List Step) :
    written (ss ++ ts) = written ss ++ written ts :=
  gather_append assigned ss ts

theorem written_cons (s : Step) (ss : List Step) : written (s :: ss) = written [s] ++ written ss :=
  gather_cons assigned s ss

@[simp] theorem written_act (i : Info) (a : Action) : written [act i a] = a.assigned :=
  gather_act assigned i a

@[simp] theorem written_branch (i : Info) (c : Condition) (yes no : List Step) :
    written [branch i c yes no] = written yes ++ written no :=
  gather_branch assigned i c yes no

@[simp] theorem written_loop (i : Info) (c : Condition) (body : List Step) :
    written [loop i c body] = written body :=
  gather_loop assigned i c body

/-! ## Without the steps that close loops -/

mutual

/-- The types that a step and the steps inside it give, without the steps that close loops. -/
def recorded : Step → List (String × String)
  | act _ a => a.assigned
  | branch _ _ yes no => recordedAll yes ++ recordedAll no
  | loop _ _ body => recordedInside body
termination_by structural s => s

/-- The types that some steps and the steps inside them give, without the steps that close
loops. -/
def recordedAll : List Step → List (String × String)
  | [] => []
  | s :: ss => recorded s ++ recordedAll ss
termination_by structural ss => ss

/-- The types that the body of a loop gives, without its last step if that increases the counter of
a loop. -/
def recordedInside : List Step → List (String × String)
  | [] => []
  | s :: ss => (if ss.isEmpty && s.advances then [] else recorded s) ++ recordedInside ss
termination_by structural ss => ss

end

@[simp] theorem recordedAll_append (ss ts : List Step) :
    recordedAll (ss ++ ts) = recordedAll ss ++ recordedAll ts := by
  induction ss with
  | nil => rfl
  | cons s ss ih => simp [recordedAll, ih]

/-- What the body of a counted loop gives is what stands before its closing step. -/
theorem recordedInside_concat {s : Step} (h : s.advances) (ss : List Step) :
    recordedInside (ss ++ [s]) = recordedAll ss := by
  induction ss with
  | nil => simp [recordedInside, recordedAll, h]
  | cons t ss ih => simp [recordedInside, recordedAll, ih]

/-! ## Copies -/

theorem isEmpty_renumberAll (n : Int) (ss : List Step) :
    (renumberAll n ss).1.isEmpty = ss.isEmpty := by
  cases ss <;> rfl

theorem advances_renumber (n : Int) (s : Step) : (renumber n s).1.advances = s.advances := by
  cases s <;> rfl

mutual

theorem recorded_renumber (n : Int) : (s : Step) → recorded (renumber n s).1 = recorded s
  | act i a => rfl
  | branch i c yes no => by
    simp only [renumber, recorded, recordedAll_renumberAll (n + 1) yes,
      recordedAll_renumberAll (renumberAll (n + 1) yes).2 no]
  | loop i c body => by
    simp only [renumber, recorded, recordedInside_renumberAll (n + 1) body]
termination_by structural s => s

/-- A copy gives the same types as its template. -/
theorem recordedAll_renumberAll (n : Int) :
    (ss : List Step) → recordedAll (renumberAll n ss).1 = recordedAll ss
  | [] => rfl
  | s :: ss => by
    simp only [renumberAll, recordedAll, recorded_renumber n s,
      recordedAll_renumberAll (renumber n s).2 ss]
termination_by structural ss => ss

theorem recordedInside_renumberAll (n : Int) :
    (ss : List Step) → recordedInside (renumberAll n ss).1 = recordedInside ss
  | [] => rfl
  | s :: ss => by
    simp only [renumberAll, recordedInside, isEmpty_renumberAll, advances_renumber,
      recorded_renumber n s, recordedInside_renumberAll (renumber n s).2 ss]
termination_by structural ss => ss

end

/-! ## What the two lists have in common -/

/-- A step that closes a loop gives a type to the counter of a loop alone. -/
theorem isLoopCounter_of_advances {s : Step} (h : s.advances) :
    ∀ e ∈ recorded s, isLoopCounter e.1 := by
  cases s with
  | act i a =>
    cases a with
    | set target value =>
      cases value with
      | expr e =>
        simp only [advances, Action.advances, Bool.and_eq_true] at h
        simpa [recorded, Action.assigned] using h.1
      | cond c => simp [advances, Action.advances] at h
    | _ => simp [advances, Action.advances] at h
  | branch i c yes no => simp [advances] at h
  | loop i c body => simp [advances] at h

mutual

theorem filter_recorded : (s : Step) →
    (recorded s).filter (fun e => !isLoopCounter e.1) =
      (written [s]).filter fun e => !isLoopCounter e.1
  | act i a => by rw [recorded, written_act]
  | branch i c yes no => by
    rw [recorded, written_branch, List.filter_append, List.filter_append,
      filter_recordedAll yes, filter_recordedAll no]
  | loop i c body => by rw [recorded, written_loop, filter_recordedInside body]
termination_by structural s => s

/-- The two lists differ in counters of loops only. -/
theorem filter_recordedAll : (ss : List Step) →
    (recordedAll ss).filter (fun e => !isLoopCounter e.1) =
      (written ss).filter fun e => !isLoopCounter e.1
  | [] => rfl
  | s :: ss => by
    rw [recordedAll, written_cons, List.filter_append, List.filter_append, filter_recorded s,
      filter_recordedAll ss]
termination_by structural ss => ss

theorem filter_recordedInside : (ss : List Step) →
    (recordedInside ss).filter (fun e => !isLoopCounter e.1) =
      (written ss).filter fun e => !isLoopCounter e.1
  | [] => rfl
  | s :: ss => by
    rw [recordedInside, written_cons, List.filter_append, List.filter_append, ← filter_recorded s,
      filter_recordedInside ss]
    by_cases hc : ss.isEmpty && s.advances
    · have ha : s.advances := (Bool.and_eq_true _ _ ▸ hc).2
      have hf : (recorded s).filter (fun e => !isLoopCounter e.1) = [] := by
        rw [List.filter_eq_nil_iff]
        intro e he
        simp [isLoopCounter_of_advances ha e he]
      rw [if_pos hc, hf]
      rfl
    · rw [if_neg hc]
termination_by structural ss => ss

end

mutual

theorem recorded_subset : (s : Step) → recorded s ⊆ written [s]
  | act i a => by
    rw [recorded, written_act]
    exact List.Subset.refl _
  | branch i c yes no => by
    rw [recorded, written_branch]
    exact List.append_subset.2 ⟨List.subset_append_of_subset_left _ (recordedAll_subset yes),
      List.subset_append_of_subset_right _ (recordedAll_subset no)⟩
  | loop i c body => by
    rw [recorded, written_loop]
    exact recordedInside_subset body
termination_by structural s => s

/-- Without the steps that close loops, no other types are given. -/
theorem recordedAll_subset : (ss : List Step) → recordedAll ss ⊆ written ss
  | [] => List.Subset.refl _
  | s :: ss => by
    rw [recordedAll, written_cons]
    exact List.append_subset.2 ⟨List.subset_append_of_subset_left _ (recorded_subset s),
      List.subset_append_of_subset_right _ (recordedAll_subset ss)⟩
termination_by structural ss => ss

theorem recordedInside_subset : (ss : List Step) → recordedInside ss ⊆ written ss
  | [] => List.Subset.refl _
  | s :: ss => by
    rw [recordedInside, written_cons]
    refine List.append_subset.2 ⟨List.subset_append_of_subset_left _ ?_,
      List.subset_append_of_subset_right _ (recordedInside_subset ss)⟩
    by_cases hc : ss.isEmpty && s.advances
    · rw [if_pos hc]
      exact List.nil_subset _
    · rw [if_neg hc]
      exact recorded_subset s
termination_by structural ss => ss

end

end Step
end FlowScript
