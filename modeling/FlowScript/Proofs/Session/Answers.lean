import FlowScript.Proofs.Name
import FlowScript.Proofs.Session.Each
import FlowScript.Proofs.Session.Requests

/-!
# What requests are answered with

A property that does not look at names and holds of all that commands make holds of all steps that
a session answers with. The names of these steps are numbers. The steps of a text are such answers.

## Main statements

* `passedOn_each`, `passedOn_isNumbered`: what is inherent is passed on, and that names are numbers.
* `eachAll_of_answered`, `isNumbered_of_answered`: both hold of all steps among the answers of a
  fresh session.
* `answered_of_assemble`: the steps of a text are among such answers.
-/
namespace FlowScript

open Step

variable {P : Info → Action → Prop} {Q : Condition → Prop}

/-! ## What is inherent -/

/-- What is inherent is passed on. -/
theorem passedOn_each (hi : Inherent P Q) : PassedOn (Session.Each P Q) (EachAll P Q) where
  of_le hs hle ht := ⟨Int.le_trans hs.counter hle, ht ▸ hs.templates⟩
  run hr hs := by
    obtain ⟨ht, hsteps, -⟩ := hr.each hi hs
    exact ⟨ht, hsteps⟩
  copy hs hf :=
    EachAll.renumberAll hi.renamed _ _ (hs.templates _ (Registry.mem_entries_of_find? hf))
  nothing := trivial

/-- **What is inherent holds of all steps among the answers of a fresh session.** -/
theorem eachAll_of_answered (hi : Inherent P Q) {rs : List Request} {ss : List Step}
    (h : ss ⊆ (performAll rs {}).1.flatten) : EachAll P Q ss := by
  obtain ⟨-, hanswers⟩ := (passedOn_each hi).answers rs Session.each_initial
  rw [eachAll_iff]
  intro s hs
  obtain ⟨steps, hsteps, hm⟩ := List.mem_flatten.1 (h hs)
  exact eachAll_iff.1 (hanswers steps hsteps) s hm

/-! ## Names -/

theorem isNumbered_stepId {n : Int} (hn : 0 ≤ n) : IsNumbered (stepId n) :=
  ⟨Nat.toDigits 10 n.toNat, toList_stepId hn, Nat.toDigits_ne_nil,
    fun _ hc => Text.isDigit_toDigits hc⟩

theorem isNumbered_of_mem_idsBetween {a b : Int} (ha : 0 ≤ a) {id : String}
    (h : id ∈ idsBetween a b) : IsNumbered id := by
  obtain ⟨n, hn, -, rfl⟩ := mem_idsBetween.1 h
  exact isNumbered_stepId (Int.le_trans ha hn)

/-- That names are numbers is passed on. -/
theorem passedOn_isNumbered :
    PassedOn (fun s => 0 ≤ s.counter) (fun steps => ∀ id ∈ ids steps, IsNumbered id) where
  of_le hs hle _ := Int.le_trans hs hle
  run hr hs := by
    refine ⟨Int.le_trans hs hr.numbered.le, fun id hm => ?_⟩
    have hids := hr.numbered.perm.subset (List.mem_append_left _ hm)
    exact isNumbered_of_mem_idsBetween hs hids
  copy hs _ id hm := by
    rw [ids_renumberAll] at hm
    exact isNumbered_of_mem_idsBetween hs hm
  nothing := by simp

/-- **The names of all steps among the answers of a fresh session are numbers.** -/
theorem isNumbered_of_answered {rs : List Request} {ss : List Step}
    (h : ss ⊆ (performAll rs {}).1.flatten) : ∀ id ∈ ids ss, IsNumbered id := by
  obtain ⟨-, hanswers⟩ := passedOn_isNumbered.answers (s := {}) rs (by decide)
  intro id hm
  have hflat := ids_subset h hm
  rw [ids_flatten, List.mem_flatMap] at hflat
  obtain ⟨steps, hsteps, hm⟩ := hflat
  exact hanswers steps hsteps id hm

/-! ## Texts -/

/-- The steps of some lines are what a session answers with when it is asked line by line. -/
theorem Workflow.answers_of_stepsOf {lines : List String} {s t : Session} {steps : List Step}
    (h : stepsOf lines s = .ok steps t) :
    ∃ answers, performAll (lines.map fun line => .carry (.line line)) s = (answers, t) ∧
      answers.flatten = steps := by
  induction lines generalizing s steps with
  | nil =>
    obtain ⟨rfl, rfl⟩ := stepsOf_nil_eq_ok.1 h
    exact ⟨[], rfl, rfl⟩
  | cons line lines ih =>
    obtain ⟨first, u, others, hl, ho, rfl⟩ := stepsOf_cons_eq_ok.1 h
    obtain ⟨answers, hp, hs⟩ := ih ho
    refine ⟨first :: answers, ?_, ?_⟩
    · rw [List.map_cons, performAll_line hl, hp]
    · rw [List.flatten_cons, hs]

/-- **The steps of a text** are answers of a fresh session. -/
theorem answered_of_assemble {function text : String} {w : Workflow} {t : Session}
    (h : Workflow.assemble function text {} = .ok w t) :
    ∃ rs, w.steps ⊆ (performAll rs {}).1.flatten := by
  obtain ⟨steps, hs, rfl⟩ := Workflow.assemble_eq_ok.1 h
  obtain ⟨answers, hp, rfl⟩ := Workflow.answers_of_stepsOf hs
  refine ⟨(Text.commandLines text).map fun line => .carry (.line line), ?_⟩
  rw [hp]
  exact List.Subset.refl _

end FlowScript
