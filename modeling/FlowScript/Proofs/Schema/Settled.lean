import FlowScript.Proofs.Schema.Passes

/-!
# Names that are followed far enough

A check follows names only so often. In the schema of workflow documents every name that is
followed either leads on to a name of lower rank or to a part of the document, and so the allowance
that comes with a document is never used up. What the named schemas then say is a solution of their
own equations, and no allowance shows in it.

## Main definitions

* `Packaged.closed`: rules without references.
* `Packaged.loose`: the names that a rule refers to for the document itself and not for its parts.
* `Packaged.settled`: the violations of a named schema, with names followed as often as it takes.

## Main statements

* `Packaged.check_congr`: a check depends on its loose names, and on the other ones for parts only.
* `Packaged.settled_use`: what a named schema says is what its rule says.
* `Packaged.checkWithin_eq_settled`: the allowance of a document is enough for it.
-/
namespace FlowScript

namespace Json

variable {xs : List Json} {ms : Members}

theorem depth_le_depthItems {x : Json} (h : x ∈ xs) : x.depth ≤ depthItems xs := by
  induction xs with
  | nil => simp at h
  | cons y ys ih =>
    obtain rfl | h := List.mem_cons.1 h
    · exact Nat.le_max_left _ _
    · exact Nat.le_trans (ih h) (Nat.le_max_right _ _)

theorem depth_le_depthValues {m : String × Json} (h : m ∈ ms) : m.2.depth ≤ depthValues ms := by
  induction ms with
  | nil => simp at h
  | cons n ns ih =>
    obtain rfl | h := List.mem_cons.1 h
    · exact Nat.le_max_left _ _
    · exact Nat.le_trans (ih h) (Nat.le_max_right _ _)

/-- The items of an array are less deep than the array. -/
theorem depth_lt_array {x : Json} (h : x ∈ xs) : x.depth < (array xs).depth :=
  Nat.lt_succ_of_le (depth_le_depthItems h)

/-- The values of an object are less deep than the object. -/
theorem depth_lt_object {m : String × Json} (h : m ∈ ms) : m.2.depth < (object ms).depth :=
  Nat.lt_succ_of_le (depth_le_depthValues h)

end Json

namespace Packaged

open Schema

attribute [local simp] check

/-! ## Names in rules -/

mutual

/-- Whether a rule refers to no named schema. -/
def closed : Schema → Bool
  | all rules => allClosed rules
  | property _ rule => closed rule
  | others _ rule => closed rule
  | items rule => closed rule
  | anyOf options => allClosed options
  | when condition consequence => closed condition && closed consequence
  | ref _ => false
  | _ => true
termination_by structural s => s

/-- Whether some rules refer to no named schema. -/
def allClosed : List Schema → Bool
  | [] => true
  | s :: ss => closed s && allClosed ss
termination_by structural ss => ss

end

mutual

/-- The names that a rule refers to for a document itself. -/
def loose : Schema → List String
  | all rules => allLoose rules
  | anyOf options => allLoose options
  | when condition consequence => loose condition ++ loose consequence
  | ref name => [name]
  | _ => []
termination_by structural s => s

/-- The names that some rules refer to for a document itself. -/
def allLoose : List Schema → List String
  | [] => []
  | s :: ss => loose s ++ allLoose ss
termination_by structural ss => ss

end

mutual

theorem loose_of_closed : (rule : Schema) → closed rule → loose rule = []
  | .all rules, h => allLoose_of_closed rules h
  | .anyOf options, h => allLoose_of_closed options h
  | .when condition consequence, h => by
    simp only [closed, Bool.and_eq_true] at h
    simp [loose, loose_of_closed condition h.1, loose_of_closed consequence h.2]
  | .ref _, h => by simp [closed] at h
  | .nothing, _ => rfl
  | .type _, _ => rfl
  | .oneOf _, _ => rfl
  | .const _, _ => rfl
  | .pattern _ _, _ => rfl
  | .minLength _, _ => rfl
  | .minItems _, _ => rfl
  | .minimum _, _ => rfl
  | .required _, _ => rfl
  | .property _ _, _ => rfl
  | .others _ _, _ => rfl
  | .items _, _ => rfl
termination_by structural s => s

theorem allLoose_of_closed : (rules : List Schema) → allClosed rules → allLoose rules = []
  | [], _ => rfl
  | s :: ss, h => by
    simp only [allClosed, Bool.and_eq_true] at h
    simp [allLoose, loose_of_closed s h.1, allLoose_of_closed ss h.2]
termination_by structural ss => ss

end

variable {named named' : String → Json → List Violation}

/-- Two readings of names agree on all parts of a document. -/
def AgreeInside (named named' : String → Json → List Violation) (j : Json) : Prop :=
  ∀ name part, part.depth < j.depth → named name part = named' name part

/-- What agrees inside a document agrees on each part as far as a rule looks at it. -/
theorem AgreeInside.part (rule : Schema) {j part : Json}
    (hi : closed rule = false → AgreeInside named named' j) (hp : part.depth < j.depth) :
    (∀ name ∈ loose rule, named name part = named' name part) ∧
      (closed rule = false → AgreeInside named named' part) := by
  refine ⟨fun name hn => ?_, fun h name inner hl => hi h name inner (Nat.lt_trans hl hp)⟩
  cases hc : closed rule with
  | true => simp [loose_of_closed rule hc] at hn
  | false => exact hi hc name part hp

mutual

/-- A check depends on its loose names, and on the other ones for parts of the document only. -/
theorem check_congr : (rule : Schema) → (j : Json) →
    (∀ name ∈ loose rule, named name j = named' name j) →
    (closed rule = false → AgreeInside named named' j) →
    rule.check named j = rule.check named' j
  | .all rules, j, hl, hi => checkAll_congr rules j hl hi
  | .property key rule, j, _, hi => by
    cases j with
    | object ms =>
      simp only [check]
      split
      · rename_i v hv
        have h := AgreeInside.part rule hi (Json.depth_lt_object (mem_of_lookup? hv))
        rw [check_congr rule v h.1 h.2]
      · rfl
    | _ => rfl
  | .others known rule, j, _, hi => by
    cases j with
    | object ms =>
      by_cases hr : rule = .nothing
      · subst hr
        rfl
      · rw [check_others hr, check_others hr]
        refine List.flatMap_congr fun m hm => ?_
        have h := AgreeInside.part rule hi (Json.depth_lt_object (List.mem_filter.1 hm).1)
        rw [check_congr rule m.2 h.1 h.2]
    | _ => rfl
  | .items rule, j, _, hi => by
    cases j with
    | array xs =>
      by_cases hr : rule = .nothing
      · subst hr
        rfl
      · rw [check_items hr, check_items hr]
        refine List.flatMap_congr ?_
        rintro ⟨x, i⟩ hx
        have h := AgreeInside.part rule hi (Json.depth_lt_array (List.fst_mem_of_mem_zipIdx hx))
        simp only [check_congr rule x h.1 h.2]
    | _ => rfl
  | .anyOf options, j, hl, hi => by
    simp only [check, passesAny_congr options j hl hi]
  | .when condition consequence, j, hl, hi => by
    have hc := check_congr condition j (fun name hn => hl name (List.mem_append_left _ hn))
      fun h => hi (by simp [closed, h])
    have hs := check_congr consequence j (fun name hn => hl name (List.mem_append_right _ hn))
      fun h => hi (by simp [closed, h])
    simp only [check, hc, hs]
  | .ref name, j, hl, _ => hl name (by simp [loose])
  | .nothing, _, _, _ => rfl
  | .type _, _, _, _ => rfl
  | .oneOf _, _, _, _ => rfl
  | .const _, _, _, _ => rfl
  | .pattern _ _, j, _, _ => by cases j <;> rfl
  | .minLength _, j, _, _ => by cases j <;> rfl
  | .minItems _, j, _, _ => by cases j <;> rfl
  | .minimum _, j, _, _ => by cases j <;> rfl
  | .required _, j, _, _ => by cases j <;> rfl
termination_by structural s => s

theorem checkAll_congr : (rules : List Schema) → (j : Json) →
    (∀ name ∈ allLoose rules, named name j = named' name j) →
    (allClosed rules = false → AgreeInside named named' j) →
    checkAll named rules j = checkAll named' rules j
  | [], _, _, _ => rfl
  | s :: ss, j, hl, hi => by
    have hs := check_congr s j (fun name hn => hl name (List.mem_append_left _ hn))
      fun h => hi (by simp [allClosed, h])
    have hss := checkAll_congr ss j (fun name hn => hl name (List.mem_append_right _ hn))
      fun h => hi (by simp [allClosed, h])
    simp only [checkAll, hs, hss]
termination_by structural ss => ss

theorem passesAny_congr : (rules : List Schema) → (j : Json) →
    (∀ name ∈ allLoose rules, named name j = named' name j) →
    (allClosed rules = false → AgreeInside named named' j) →
    passesAny named rules j = passesAny named' rules j
  | [], _, _, _ => rfl
  | s :: ss, j, hl, hi => by
    have hs := check_congr s j (fun name hn => hl name (List.mem_append_left _ hn))
      fun h => hi (by simp [allClosed, h])
    have hss := passesAny_congr ss j (fun name hn => hl name (List.mem_append_right _ hn))
      fun h => hi (by simp [allClosed, h])
    simp only [passesAny, hs, hss]
termination_by structural ss => ss

end

/-- What a rule without references says does not depend on the named schemas. -/
theorem check_of_closed (rule : Schema) (h : closed rule) (j : Json) :
    rule.check named j = rule.check (fun _ _ => []) j :=
  check_congr rule j (by simp [loose_of_closed rule h]) (by simp [h])

/-! ## Allowances -/

/-- The names of higher rank refer to others for the same document. -/
def rank (name : String) : Nat :=
  if name = reference "value" then 1 else 0

/-- More names than this are not followed one into the other. -/
def need (name : String) (j : Json) : Nat :=
  2 * j.depth + rank name

theorem rank_le (name : String) : rank name ≤ 1 := by
  unfold rank
  split <;> omega

/-- Named schemas refer to names of lower rank for the same document. -/
theorem rank_lt_of_loose : ∀ entry ∈ root.named, ∀ name ∈ loose entry.2,
    rank name < rank entry.1 := by
  decide

/-- Following names any further changes nothing. -/
theorem follow_congr {name : String} {j : Json} {m n : Nat} (hm : need name j < m)
    (hn : need name j < n) : follow m name j = follow n name j := by
  induction hk : need name j using Nat.strongRecOn generalizing name j m n with
  | ind k ih =>
    obtain ⟨m, rfl⟩ := Nat.exists_eq_succ_of_ne_zero (Nat.ne_of_gt (Nat.zero_lt_of_lt hm))
    obtain ⟨n, rfl⟩ := Nat.exists_eq_succ_of_ne_zero (Nat.ne_of_gt (Nat.zero_lt_of_lt hn))
    unfold follow
    split
    · rename_i entry rule hf
      obtain rfl : entry = name := by simpa using List.find?_some hf
      have hr := rank_lt_of_loose _ (List.mem_of_find?_eq_some hf)
      rw [checkWithin_succ, checkWithin_succ]
      refine check_congr rule j (fun other ho => ?_) fun _ other part hp => ?_
      · have hlt : need other j < need entry j := by
          have : rank other < rank entry := hr other ho
          simp only [need]
          omega
        exact ih _ (hk ▸ hlt) (by omega) (by omega) rfl
      · have hlt : need other part < need entry j := by
          have := rank_le other
          simp only [need]
          omega
        exact ih _ (hk ▸ hlt) (by omega) (by omega) rfl
    · rfl

/-- The violations of the schema with a name in a document, with names followed as often as it
takes. -/
def settled (name : String) (j : Json) : List Violation :=
  follow (need name j + 1) name j

theorem follow_eq_settled {name : String} {j : Json} {n : Nat} (hn : need name j < n) :
    follow n name j = settled name j :=
  follow_congr hn (Nat.lt_succ_self _)

/-- A check of a document whose depth has been allowed for. -/
theorem check_follow {rule : Schema} {j : Json} {n : Nat} (hn : 2 * j.depth + 1 < n) :
    rule.check (follow n) j = rule.check settled j := by
  refine check_congr rule j (fun name _ => ?_) fun _ name part hp => ?_
  · have := rank_le name
    exact follow_eq_settled (by simp only [need]; omega)
  · have := rank_le name
    exact follow_eq_settled (by simp only [need]; omega)

/-- What a named schema says is what its rule says. -/
theorem settled_use {name : String} {rule : Schema}
    (hf : root.named.find? (·.1 == reference name) = some (reference name, rule)) (j : Json) :
    settled (reference name) j = rule.check settled j := by
  have hn : need (reference name) j < 2 * j.depth + 3 := by
    have := rank_le (reference name)
    simp only [need]
    omega
  rw [← follow_eq_settled hn, ← check_follow (Nat.lt_succ_self _)]
  simp only [follow, hf, checkWithin_succ]

/-- **The allowance of a document is enough for it.** -/
theorem checkWithin_eq_settled (j : Json) :
    Root.checkWithin root.named (root.allowance j) root.rule j = workflow.check settled j := by
  have hl : root.named.length = 7 := rfl
  rw [Root.allowance, checkWithin_succ, hl]
  exact check_follow (by omega)

end Packaged
end FlowScript
