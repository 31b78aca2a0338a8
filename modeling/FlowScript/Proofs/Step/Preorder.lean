import FlowScript.Proofs.Step.Shape
import FlowScript.Step.Walk

/-!
# The steps of a document in order

A document shows the steps inside a step as arrays under the keys of its branches. Whoever goes
through these arrays, an object before the objects inside it, meets the documents of the steps that
a walk meets, in the same order and at the same depths.

## Main definitions

* `Json.itemsAt`: the items of the array under a key.
* `Json.preorder`, `Json.preorderAll`: the objects in some arrays, with their depths.

## Main statements

* `Json.preorder_object`: an object comes before those under the keys of its branches.
* `Step.preorder_toJson`, `Step.preorderAll_toJsons`: the objects are the documents of a walk.
-/
namespace FlowScript

namespace Json

/-- The items of the array under a key, if there is one. -/
def itemsAt (key : String) (ms : Members) : List Json :=
  match lookup? key ms with
  | some (array xs) => xs
  | _ => []

mutual

/-- An object and the objects in the arrays under the keys of its branches, with their depths. -/
def preorder (depth : Nat) : Json → List (Json × Nat)
  | object ms =>
    (object ms, depth) :: branchKeys.flatMap fun key => preorderUnder (depth + 1) key ms
  | _ => []
termination_by structural j => j

/-- The objects in the array under a key. -/
def preorderUnder (depth : Nat) (key : String) : Members → List (Json × Nat)
  | [] => []
  | (k, v) :: ms => if k == key then preorderInside depth v else preorderUnder depth key ms
termination_by structural ms => ms

/-- The objects in an array. -/
def preorderInside (depth : Nat) : Json → List (Json × Nat)
  | array xs => preorderAll depth xs
  | _ => []
termination_by structural j => j

/-- Some objects, each with those inside it before the next one. -/
def preorderAll (depth : Nat) : List Json → List (Json × Nat)
  | [] => []
  | x :: xs => preorder depth x ++ preorderAll depth xs
termination_by structural xs => xs

end

theorem preorderUnder_eq (depth : Nat) (key : String) (ms : Members) :
    preorderUnder depth key ms = preorderAll depth (itemsAt key ms) := by
  induction ms with
  | nil => rfl
  | cons m ms ih =>
    obtain ⟨k, v⟩ := m
    rw [preorderUnder, itemsAt, lookup?_cons]
    by_cases hk : k == key
    · rw [if_pos hk, if_pos hk]
      cases v <;> rfl
    · rw [if_neg hk, if_neg hk]
      exact ih

/-- An object comes before those under the keys of its branches, key by key. -/
theorem preorder_object (depth : Nat) (ms : Members) : preorder depth (object ms) =
    (object ms, depth) ::
      branchKeys.flatMap fun key => preorderAll (depth + 1) (itemsAt key ms) := by
  simp only [preorder, preorderUnder_eq]

end Json

namespace Step

open Json

/-- Actions have no branches. -/
theorem preorder_act (d : Nat) (i : Info) (a : Action) :
    preorder d (act i a).toJson = [((act i a).toJson, d)] := by
  have hnone : ∀ key ∈ branchKeys, itemsAt key
      (("id", .string i.id) :: ("type", .string a.type) :: a.members ++ i.members) = [] := by
    intro key hk
    simp only [branchKeys, List.mem_cons, List.not_mem_nil, or_false] at hk
    rcases hk with rfl | rfl | rfl <;> cases a <;> rfl
  rw [toJson, document, preorder_object, List.flatMap_eq_nil_iff.2]
  intro key hk
  rw [hnone key hk, preorderAll]

mutual

/-- **The objects in the document of a step** are the documents of the steps that a walk meets. -/
theorem preorder_toJson (d : Nat) : (s : Step) →
    preorder d s.toJson = (walk d s).map fun visit => (visit.1.toJson, visit.2)
  | act i a => preorder_act d i a
  | branch i c yes no => by
    rw [toJson, document, preorder_object, walk, List.map_cons, List.map_append,
      ← preorderAll_toJsons (d + 1) yes, ← preorderAll_toJsons (d + 1) no]
    simp [branchKeys, itemsAt, lookup?, Info.members, preorderAll, toJson, document]
  | loop i c body => by
    rw [toJson, document, preorder_object, walk, List.map_cons,
      ← preorderAll_toJsons (d + 1) body]
    simp [branchKeys, itemsAt, lookup?, Info.members, preorderAll, toJson, document]
termination_by structural s => s

/-- **The objects in the documents of some steps** are those of the steps that a walk meets. -/
theorem preorderAll_toJsons (d : Nat) : (ss : List Step) →
    preorderAll d (toJsons ss) = (walkAll d ss).map fun visit => (visit.1.toJson, visit.2)
  | [] => rfl
  | s :: ss => by
    rw [toJsons, preorderAll, walkAll, List.map_append, preorder_toJson d s,
      preorderAll_toJsons d ss]
termination_by structural ss => ss

end

end Step
end FlowScript
