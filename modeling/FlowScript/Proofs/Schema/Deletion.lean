import FlowScript.Proofs.Json.Edit
import FlowScript.Proofs.Schema.Gate

/-!
# What the schema says when members of steps are missing

A document that is accepted has steps with all the members that they require. When some of these
are deleted, at any places, each of them is missed once, and nothing else is: a step is checked
wherever it is, and what is missing in it neither hides nor causes violations elsewhere.

## Main definitions

* `Packaged.Position`: places of steps in a document, also inside other steps.
* `Packaged.Field`: members of steps, with the violation that comes from their lack.

## Main statements

* `Packaged.check_delete`: what one more deletion adds to the violations of a document.
* `Packaged.errors_deleteAll`: the errors of an accepted document after some deletions.
-/
namespace FlowScript.Packaged

open Schema Json

/-! ## Places of steps -/

/-- Where steps lie inside a step. -/
inductive Branch where
  | yes
  | no
  | body
  deriving DecidableEq, Repr

/-- The key of a branch. -/
def Branch.key : Branch → String
  | yes => "then"
  | no => "else"
  | body => "body"

theorem Branch.key_mem (b : Branch) : b.key ∈ branchKeys := by
  cases b <;> decide

theorem Branch.key_injective : Function.Injective Branch.key := by
  intro b c h
  cases b <;> cases c <;> simp_all [Branch.key]

/-- The path from a step to a step inside it, through branches with the number of a step in each. -/
def insidePath (hops : List (Branch × Nat)) : List Segment :=
  hops.flatMap fun h => [.key h.1.key, .index h.2]

/-- A place of a step in a document: the number of a step, and the way to a step inside it. -/
structure Position where
  index : Nat
  inside : List (Branch × Nat)
  deriving DecidableEq, Repr

/-- The path to a step. -/
def Position.path (p : Position) : List Segment :=
  .key "steps" :: .index p.index :: insidePath p.inside

/-- A member of a step at a place. -/
structure Field where
  position : Position
  key : String
  deriving DecidableEq, Repr

namespace Field

/-- The path to a member. -/
def path (f : Field) : List Segment :=
  f.position.path ++ [.key f.key]

/-- The lack of a member. -/
def violation (f : Field) : Violation :=
  ⟨f.position.path, .missing f.key⟩

/-- A document without a member. -/
def delete (document : Json) (f : Field) : Json :=
  document.edit (.delete f.path)

end Field

/-- The members that every step requires and that say nothing about its type. -/
def descriptiveKeys : List String :=
  ["id", "nl_phrase", "nl_examples", "access_control"]

/-- A step has a member that it requires, other than its type. -/
def Requires (key : String) (j : Json) : Prop :=
  ∃ ms type fields, j = .object ms ∧ lookup? "type" ms = some (.string type) ∧
    stepFields? type = some fields ∧ key ∈ descriptiveKeys ++ fields ∧ (lookup? key ms).isSome

/-- There is a step at the place of a member, which has and requires it. -/
def Field.IsRequired (f : Field) (document : Json) : Prop :=
  ∃ s, document.at? f.position.path = some s ∧ Requires f.key s

variable {named : String → Json → List Violation} {rule item : Schema} {ms : Json.Members}
  {xs : List Json} {keys : List String} {members : List (String × Schema)} {key : String}

attribute [local simp] check

/-! ## One part of a document -/

/-- The violations of a record are those of one member, and others which do not depend on it. -/
theorem check_record_setMember (named : String → Json → List Violation) (keys : List String)
    (hn : (members.map (·.1)).Nodup) (hm : (key, rule) ∈ members) (hk : (lookup? key ms).isSome) :
    ∃ others, ∀ v,
      ((record keys members).check named (.object (setMember key v ms))).Perm
        (others ++ (rule.check named v).map (.under (.key key))) := by
  obtain ⟨front, back, rfl⟩ := List.append_of_mem hm
  have hfresh : ∀ m ∈ front ++ back, m.1 ≠ key := by
    rw [List.map_append, List.map_cons, List.nodup_middle, List.nodup_cons, ← List.map_append] at hn
    exact fun m hmem he => hn.1 (List.mem_map.2 ⟨m, hmem, he⟩)
  refine ⟨(required keys).check named (.object ms) ++ (front ++ back).flatMap fun m =>
    (property m.1 m.2).check named (.object ms), fun v => ?_⟩
  have hrequired : (required keys).check named (.object (setMember key v ms)) =
      (required keys).check named (.object ms) := by
    simp only [check, isNone_lookup?_setMember hk]
  have hothers : ((front ++ back).flatMap fun m =>
      (property m.1 m.2).check named (.object (setMember key v ms))) =
        (front ++ back).flatMap fun m => (property m.1 m.2).check named (.object ms) :=
    List.flatMap_congr fun m hmem => by
      simp only [check, lookup?_setMember_of_ne (hfresh m hmem)]
  rw [check_record_object, hrequired, List.append_assoc, ← hothers]
  refine List.Perm.append_left _ ?_
  have hone : (property key rule).check named (.object (setMember key v ms)) =
      (rule.check named v).map (.under (.key key)) :=
    check_property (lookup?_setMember_self key v ms)
  rw [List.flatMap_append, List.flatMap_append, List.flatMap_cons, hone, List.append_assoc]
  exact List.perm_append_comm.append_left _

/-- The violations of an array are those of one item, and others which do not depend on it. -/
theorem check_arrayOf_set (named : String → Json → List Violation) (hi : item ≠ nothing) {i : Nat}
    (hlt : i < xs.length) :
    ∃ others, ∀ y, ((arrayOf item).check named (.array (xs.set i y))).Perm
      (others ++ (item.check named y).map (.under (.index i))) := by
  refine ⟨((xs.take i).zipIdx.flatMap fun p => (item.check named p.1).map (.under (.index p.2))) ++
    ((xs.drop (i + 1)).zipIdx (i + 1)).flatMap fun p =>
      (item.check named p.1).map (.under (.index p.2)), fun y => ?_⟩
  have hsplit : xs.set i y = xs.take i ++ y :: xs.drop (i + 1) :=
    List.set_eq_take_append_cons_drop.trans (if_pos hlt)
  have hlen : (xs.take i).length = i := by simp [Nat.le_of_lt hlt]
  have ht : (type [.array]).check named (.array (xs.set i y)) = [] := rfl
  simp only [arrayOf, check.eq_1, checkAll, ht, check_items hi, List.nil_append, List.append_nil]
  rw [hsplit, List.zipIdx_append, List.zipIdx_cons, List.flatMap_append, List.flatMap_cons, hlen,
    Nat.zero_add, List.append_assoc]
  exact List.perm_append_comm.append_left _

theorem check_someOf_set (named : String → Json → List Violation) (hi : item ≠ nothing) {i : Nat}
    (hlt : i < xs.length) :
    ∃ others, ∀ y, ((someOf item).check named (.array (xs.set i y))).Perm
      (others ++ (item.check named y).map (.under (.index i))) := by
  obtain ⟨others, h⟩ := check_arrayOf_set named hi hlt
  refine ⟨others ++ (minItems 1).check named (.array xs), fun y => ?_⟩
  have hmin : (minItems 1).check named (.array (xs.set i y)) =
      (minItems 1).check named (.array xs) := by
    simp only [check, List.length_set]
    split
    · rfl
    · omega
  simp only [someOf, check.eq_1, checkAll, List.append_nil]
  rw [hmin, List.append_assoc]
  refine ((h y).append_right _).trans ?_
  rw [List.append_assoc]
  exact List.perm_append_comm.append_left _

/-- A rule for arrays whose items pass a rule. -/
def IsListOf (rule item : Schema) : Prop :=
  item ≠ nothing ∧ (rule = arrayOf item ∨ rule = someOf item)

/-- The violations of an object are those of one item of a member, and others which do not depend on
it. -/
theorem check_record_item (named : String → Json → List Violation) (keys : List String)
    (hn : (members.map (·.1)).Nodup) (hm : (key, rule) ∈ members)
    (hr : IsListOf rule item) {i : Nat} {x : Json} (hxs : lookup? key ms = some (.array xs))
    (hx : xs[i]? = some x) : ∃ others, ∀ y,
      ((record keys members).check named (.object (setMember key (.array (xs.set i y)) ms))).Perm
        (others ++ (item.check named y).map fun v => (v.under (.index i)).under (.key key)) := by
  obtain ⟨hlt, -⟩ := List.getElem?_eq_some_iff.1 hx
  have hitems : ∃ others, ∀ y, (rule.check named (.array (xs.set i y))).Perm
      (others ++ (item.check named y).map (.under (.index i))) := by
    obtain ⟨hi, rfl | rfl⟩ := hr
    · exact check_arrayOf_set named hi hlt
    · exact check_someOf_set named hi hlt
  obtain ⟨inner, hinner⟩ := hitems
  have hk : (lookup? key ms).isSome := by simp [hxs]
  obtain ⟨outer, houter⟩ := check_record_setMember named keys hn hm hk
  refine ⟨outer ++ inner.map (.under (.key key)), fun y => (houter _).trans ?_⟩
  rw [List.append_assoc]
  refine List.Perm.append_left _ (((hinner y).map _).trans ?_)
  rw [List.map_append, List.map_map]
  rfl

/-! ## One step -/

/-- The rules that depend on the type of a step. -/
def typeRules : List Schema :=
  (stepTypes.filter (!·.2.isEmpty)).map fun t => whenType t.1 [.required t.2]

/-- The rules that depend on the type look at the type and at which members there are. -/
theorem checkAll_typeRules_congr {ms' : Json.Members}
    (ht : lookup? "type" ms = lookup? "type" ms')
    (hk : ∀ key, (lookup? key ms).isNone = (lookup? key ms').isNone) :
    checkAll named typeRules (.object ms) = checkAll named typeRules (.object ms') := by
  rw [checkAll_eq_flatMap, checkAll_eq_flatMap]
  refine List.flatMap_congr fun rule hr => ?_
  obtain ⟨t, -, rfl⟩ := List.mem_map.1 hr
  simp only [whenType, check, checkAll, ht, hk]
  rfl

/-- The rules that depend on the type require the members that the type requires. -/
theorem checkAll_typeRules {own : String} {fields : List String}
    (ht : lookup? "type" ms = some (.string own)) (hf : stepFields? own = some fields) :
    checkAll named typeRules (.object ms) = (required fields).check named (.object ms) := by
  have hmem := stepFields?_eq_some_iff.1 hf
  simp only [stepTypes, List.mem_cons, Prod.mk.injEq, List.not_mem_nil, or_false] at hmem
  rcases hmem with ⟨rfl, rfl⟩ | ⟨rfl, rfl⟩ | ⟨rfl, rfl⟩ | ⟨rfl, rfl⟩ | ⟨rfl, rfl⟩ | ⟨rfl, rfl⟩ |
      ⟨rfl, rfl⟩ | ⟨rfl, rfl⟩ | ⟨rfl, rfl⟩ | ⟨rfl, rfl⟩ | ⟨rfl, rfl⟩ | ⟨rfl, rfl⟩ <;>
    simp [typeRules, stepTypes, checkAll, whenType, ht, Json.same]

/-- The members that every step requires. -/
def stepKeys : List String :=
  ["id", "type", "nl_phrase", "nl_examples", "access_control"]

theorem check_step_object : step.check named (.object ms) =
    (record stepKeys stepMembers).check named (.object ms) ++
      checkAll named typeRules (.object ms) :=
  rfl

/-- The violations of a step are those of one step inside it, and others which do not depend on
it. -/
theorem check_step_item (named : String → Json → List Violation) (hk : key ∈ branchKeys) {i : Nat}
    {x : Json} (hxs : lookup? key ms = some (.array xs)) (hx : xs[i]? = some x) : ∃ others, ∀ y,
      (step.check named (.object (setMember key (.array (xs.set i y)) ms))).Perm
        (others ++ ((use "step").check named y).map fun v => (v.under (.index i)).under
          (.key key)) := by
  have hmem : (key, arrayOf (use "step")) ∈ stepMembers := by
    simp only [branchKeys, List.mem_cons, List.not_mem_nil, or_false] at hk
    rcases hk with rfl | rfl | rfl <;> simp [stepMembers]
  have hne : "type" ≠ key := by
    rintro rfl
    simp [branchKeys] at hk
  have hlist : IsListOf (arrayOf (use "step")) (use "step") := ⟨by simp [use], .inl rfl⟩
  obtain ⟨others, h⟩ := check_record_item named stepKeys nodup_stepMembers hmem hlist hxs hx
  refine ⟨others ++ checkAll named typeRules (.object ms), fun y => ?_⟩
  have hpresent : (lookup? key ms).isSome := by simp [hxs]
  rw [check_step_object, checkAll_typeRules_congr (lookup?_setMember_of_ne hne _ _)
    fun k => isNone_lookup?_setMember hpresent k _, List.append_assoc]
  refine ((h y).append_right _).trans ?_
  rw [List.append_assoc]
  exact List.perm_append_comm.append_left _

/-- A required member that is deleted is missing once. -/
theorem check_required_eraseMember (hn : keys.Nodup) (hk : key ∈ keys)
    (hp : (lookup? key ms).isSome) :
    ((required keys).check named (.object (eraseMember key ms))).Perm
      (⟨[], .missing key⟩ :: (required keys).check named (.object ms)) := by
  obtain ⟨front, back, rfl⟩ := List.append_of_mem hk
  have hfresh : ∀ k ∈ front ++ back, k ≠ key := by
    rw [List.nodup_middle, List.nodup_cons] at hn
    rintro k hmem rfl
    exact hn.1 hmem
  have hothers : ((front ++ back).filter fun k => (lookup? k (eraseMember key ms)).isNone) =
      (front ++ back).filter fun k => (lookup? k ms).isNone :=
    List.filter_congr fun k hmem => by rw [lookup?_eraseMember_of_ne (hfresh k hmem)]
  simp only [List.filter_append] at hothers
  have hpresent : (lookup? key ms).isNone = false := by simpa using hp
  simp only [check, List.filter_append, List.filter_cons, lookup?_eraseMember_self, hpresent,
    Option.isNone_none, if_true, Bool.false_eq_true, if_false]
  refine List.Perm.trans (List.perm_middle.map _) ?_
  rw [hothers]
  rfl

/-- No member is required twice. -/
theorem nodup_stepKeys {own : String} {fields : List String} (hf : stepFields? own = some fields) :
    (stepKeys ++ fields).Nodup := by
  have hall : ∀ t ∈ stepTypes, (stepKeys ++ t.2).Nodup := by decide
  exact hall _ (stepFields?_eq_some_iff.1 hf)

/-- The members that are left have the same violations, which are all if the one that is deleted
was of its form. -/
theorem check_members_eraseMember
    (h : ∀ m ∈ members, m.1 = key → (property m.1 m.2).check named (.object ms) = []) :
    (members.flatMap fun m => (property m.1 m.2).check named (.object (eraseMember key ms))) =
      members.flatMap fun m => (property m.1 m.2).check named (.object ms) := by
  refine List.flatMap_congr fun m hm => ?_
  by_cases he : m.1 = key
  · rw [h m hm he]
    simp only [check, he, lookup?_eraseMember_self]
  · simp only [check, lookup?_eraseMember_of_ne he]

/-- The violations of a step are the lack of members that it requires, and those of its members. -/
theorem check_step_perm {own : String} {fields : List String}
    (ht : lookup? "type" ms = some (.string own)) (hf : stepFields? own = some fields) :
    (step.check named (.object ms)).Perm
      ((required (stepKeys ++ fields)).check named (.object ms) ++
        stepMembers.flatMap fun m => (property m.1 m.2).check named (.object ms)) := by
  rw [check_step_object, checkAll_typeRules ht hf, check_record_object]
  simp only [check, List.filter_append, List.map_append, List.append_assoc]
  exact List.perm_append_comm.append_left _

/-- A required member of a step that is deleted is missing, and if it was of its form, then there
are no other changes. -/
theorem check_step_eraseMember {own : String} {fields : List String}
    (ht : lookup? "type" ms = some (.string own)) (hf : stepFields? own = some fields)
    (hk : key ∈ descriptiveKeys ++ fields) (hp : (lookup? key ms).isSome)
    (hv : ∀ v ∈ step.check named (.object ms), ¬ [.key key] <+: v.path) :
    (step.check named (.object (eraseMember key ms))).Perm
      (⟨[], .missing key⟩ :: step.check named (.object ms)) := by
  have hn := nodup_stepKeys hf
  have hkey : key ∈ stepKeys ++ fields := by
    simp only [descriptiveKeys, stepKeys, List.cons_append, List.nil_append, List.mem_cons] at hk ⊢
    tauto
  have htype : "type" ≠ key := by
    rintro rfl
    have hfields : "type" ∉ fields := (List.nodup_append.1 hn).2.2 |> fun h hm =>
      h "type" (by simp [stepKeys]) "type" hm rfl
    simp [descriptiveKeys, hfields] at hk
  have ht' : lookup? "type" (eraseMember key ms) = some (.string own) := by
    rw [lookup?_eraseMember_of_ne htype, ht]
  have hform : ∀ m ∈ stepMembers, m.1 = key → (property m.1 m.2).check named (.object ms) = [] := by
    intro m hm he
    refine List.eq_nil_iff_forall_not_mem.2 fun v hmem => ?_
    have hin : v ∈ step.check named (.object ms) := (check_step_perm ht hf).mem_iff.2
      (List.mem_append_right _ (List.mem_flatMap.2 ⟨m, hm, hmem⟩))
    obtain ⟨w, hw⟩ := Option.isSome_iff_exists.1 (he ▸ hp : (lookup? m.1 ms).isSome)
    rw [check_property hw] at hmem
    obtain ⟨u, -, rfl⟩ := List.mem_map.1 hmem
    exact hv _ hin ⟨u.path, by rw [← he]; rfl⟩
  refine (check_step_perm ht' hf).trans ?_
  rw [check_members_eraseMember hform]
  refine ((check_required_eraseMember hn hkey hp).append_right _).trans ?_
  exact ((check_step_perm ht hf).symm.cons _)

/-! ## One deletion -/

/-- An object with an item of a member set to what it is. -/
theorem setMember_set_self {i : Nat} {x : Json} (hxs : lookup? key ms = some (.array xs))
    (hx : xs[i]? = some x) : setMember key (.array (xs.set i x)) ms = ms := by
  obtain ⟨hi, rfl⟩ := List.getElem?_eq_some_iff.1 hx
  rw [List.set_getElem_self, setMember_of_lookup? hxs]

/-- What a change adds to the violations of an item it adds to those of the whole, if these are the
ones of the item, under its place, and others. Where the whole has no violation at the path of the
change, the item has none there either. -/
theorem perm_cons_of_item {whole part : Json → List Violation} {change : Json → Json} {i : Nat}
    {x : Json} {others : List Violation} {path below : List Segment} {v : Violation}
    (hxs : lookup? key ms = some (.array xs)) (hx : xs[i]? = some x)
    (h : ∀ y, (whole (.object (setMember key (.array (xs.set i y)) ms))).Perm
      (others ++ (part y).map fun v => (v.under (.index i)).under (.key key)))
    (hv : ∀ v ∈ whole (.object ms), ¬ .key key :: .index i :: path <+: v.path)
    (hpart : (∀ v ∈ part x, ¬ path <+: v.path) →
      (part (x.modifyAt change below)).Perm (v :: part x)) :
    (whole ((Json.object ms).modifyAt change (.key key :: .index i :: below))).Perm
      ((v.under (.index i)).under (.key key) :: whole (.object ms)) := by
  have hsame := h x
  rw [setMember_set_self hxs hx] at hsame
  have hinner : ∀ v ∈ part x, ¬ path <+: v.path := fun v hm hpre =>
    hv _ (hsame.mem_iff.2 (List.mem_append_right _ (List.mem_map_of_mem hm)))
      (List.cons_prefix_cons.2 ⟨rfl, List.cons_prefix_cons.2 ⟨rfl, hpre⟩⟩)
  rw [modifyAt_key_index hxs hx]
  refine (h _).trans ((((hpart hinner).map _).append_left others).trans ?_)
  exact List.perm_middle.trans (hsame.symm.cons _)

theorem check_use_step (j : Json) : (use "step").check settled j = step.check settled j :=
  settled_use rfl j

/-- A required member is deleted in a step inside a step. -/
theorem check_delete_inside {hops : List (Branch × Nat)} {j s : Json}
    (hs : j.at? (insidePath hops) = some s) (hr : Requires key s)
    (hv : ∀ v ∈ step.check settled j, ¬ insidePath hops ++ [.key key] <+: v.path) :
    (step.check settled (j.modifyAt (·.deletePart (.key key)) (insidePath hops))).Perm
      (⟨insidePath hops, .missing key⟩ :: step.check settled j) := by
  induction hops generalizing j with
  | nil =>
    obtain ⟨ms, type, fields, rfl, ht, hf, hk, hp⟩ := hr
    obtain rfl := Option.some.inj hs
    exact check_step_eraseMember ht hf hk hp hv
  | cons hop hops ih =>
    obtain ⟨b, i⟩ := hop
    obtain ⟨ms, xs, x, rfl, hxs, hx, hs⟩ := at?_key_index hs
    obtain ⟨others, h⟩ := check_step_item settled b.key_mem hxs hx
    simp only [check_use_step] at h
    exact perm_cons_of_item hxs hx h hv fun hinner => ih hs hinner

/-- The violations of a document, in some order. -/
def violationsOf (document : Json) : List Violation :=
  workflow.check settled document

/-- **One deletion.** If the violations of a document are elsewhere, then the deletion of a required
member of a step adds its lack to them, and changes nothing else. -/
theorem check_delete {document : Json} {f : Field} (hf : f.IsRequired document)
    (hv : ∀ v ∈ violationsOf document, ¬ f.path <+: v.path) :
    (violationsOf (f.delete document)).Perm (f.violation :: violationsOf document) := by
  obtain ⟨⟨i, hops⟩, key⟩ := f
  obtain ⟨s, hs, hr⟩ := hf
  obtain ⟨ms, xs, x, rfl, hxs, hx, hs⟩ := at?_key_index hs
  have hlist : IsListOf (someOf (use "step")) (use "step") := ⟨by simp [use], .inr rfl⟩
  obtain ⟨others, h⟩ : ∃ others, ∀ y,
      (violationsOf (.object (setMember "steps" (.array (xs.set i y)) ms))).Perm
        (others ++ ((use "step").check settled y).map fun v =>
          (v.under (.index i)).under (.key "steps")) :=
    check_record_item settled _ (by decide) (by simp) hlist hxs hx
  simp only [check_use_step] at h
  rw [Field.delete, Field.path, edit_delete_key]
  exact perm_cons_of_item hxs hx h hv fun hinner => check_delete_inside hs hr hinner

/-! ## Many deletions -/

theorem insidePath_injective : Function.Injective insidePath := by
  intro hops hops' h
  induction hops generalizing hops' with
  | nil => cases hops' <;> simp_all [insidePath]
  | cons hop hops ih =>
    cases hops' with
    | nil => simp [insidePath] at h
    | cons hop' hops' =>
      simp only [insidePath, List.flatMap_cons, List.cons_append, List.nil_append, List.cons.injEq,
        Segment.key.injEq, Segment.index.injEq] at h
      obtain ⟨hb, hi, h⟩ := h
      rw [Prod.ext (Branch.key_injective hb) hi, ih h]

theorem Position.path_injective : Function.Injective Position.path := by
  rintro ⟨i, hops⟩ ⟨i', hops'⟩ h
  simp only [Position.path, List.cons.injEq, Segment.index.injEq, true_and] at h
  obtain ⟨rfl, h⟩ := h
  rw [insidePath_injective h]

/-- No path to a step leads through its type. -/
theorem Position.type_not_mem (p : Position) : .key "type" ∉ p.path := by
  simp only [Position.path, insidePath, List.mem_cons, List.mem_flatMap, not_or]
  refine ⟨by simp, by simp, ?_⟩
  rintro ⟨⟨b, i⟩, -, hm⟩
  cases b <;> simp [Branch.key] at hm

/-- The type of a step is not among the members in question. -/
theorem Requires.ne_type {j : Json} (h : Requires key j) : key ≠ "type" := by
  obtain ⟨ms, type, fields, -, -, hf, hk, -⟩ := h
  rintro rfl
  have hn := nodup_stepKeys hf
  have hfields : "type" ∉ fields := fun hm =>
    (List.nodup_append.1 hn).2.2 "type" (by simp [stepKeys]) "type" hm rfl
  simp [descriptiveKeys, hfields] at hk

/-- A step has a member after deletions of other members, and inside it. -/
theorem Requires.modifyAt {j : Json} (h : Requires key j) {path : List Segment} {other : String}
    (ht : .key "type" ∉ path) (ho : other ≠ "type") (hne : path = [] → other ≠ key) :
    Requires key (j.modifyAt (·.deletePart (.key other)) path) := by
  obtain ⟨ms, type, fields, rfl, htype, hf, hk, hp⟩ := h
  cases path with
  | nil =>
    refine ⟨_, type, fields, rfl, ?_, hf, hk, ?_⟩
    · rw [lookup?_eraseMember_of_ne ho.symm, htype]
    · rwa [lookup?_eraseMember_of_ne (hne rfl).symm]
  | cons step path =>
    cases hpart : (Json.object ms).part? step with
    | none =>
      simp only [Json.modifyAt, hpart]
      exact ⟨ms, type, fields, rfl, htype, hf, hk, hp⟩
    | some part =>
      cases step with
      | index i => simp [Json.part?] at hpart
      | key name =>
        have hname : "type" ≠ name := fun h => ht (by simp [h])
        simp only [Json.modifyAt, hpart, setPart]
        refine ⟨_, type, fields, rfl, ?_, hf, hk, isSome_lookup?_setMember hp⟩
        rw [lookup?_setMember_of_ne hname, htype]

/-- A member stays required when another one is deleted in which its step is not. -/
theorem Field.IsRequired.delete {document : Json} {f g : Field} (hg : g.IsRequired document)
    (hf : f.IsRequired document) (hne : f ≠ g) (hout : ¬ f.path <+: g.position.path) :
    g.IsRequired (f.delete document) := by
  obtain ⟨s, hs, hr⟩ := hg
  obtain ⟨s', -, hr'⟩ := hf
  rw [Field.IsRequired, Field.delete, Field.path, edit_delete_key]
  rcases at?_delete hs hout with h | ⟨rest, hrest, h⟩
  · exact ⟨s, h, hr⟩
  · refine ⟨_, h, hr.modifyAt (fun hm => ?_) hr'.ne_type fun hnil hkey => hne ?_⟩
    · exact f.position.type_not_mem (hrest ▸ List.mem_append_right _ hm)
    · obtain ⟨p, k⟩ := f
      obtain ⟨q, l⟩ := g
      rw [hnil, List.append_nil] at hrest
      rw [Field.mk.injEq]
      exact ⟨Position.path_injective hrest, hkey⟩

/-- The violations of a document after deletions, if before there are only lacks of members
elsewhere. -/
theorem check_deleteAll {document : Json} {missing fields : List Field}
    (hv : (violationsOf document).Perm (missing.map Field.violation))
    (hf : ∀ f ∈ fields, f.IsRequired document) (hn : fields.Nodup)
    (hout : ∀ f ∈ fields, ∀ g ∈ missing ++ fields, ¬ f.path <+: g.position.path) :
    (violationsOf (fields.foldl Field.delete document)).Perm
      ((missing ++ fields).map Field.violation) := by
  induction fields generalizing document missing with
  | nil => simpa using hv
  | cons f fields ih =>
    rw [List.nodup_cons] at hn
    have hf' := hf f (.head _)
    have helsewhere : ∀ v ∈ violationsOf document, ¬ f.path <+: v.path := by
      intro v hm
      obtain ⟨g, hg, rfl⟩ := List.mem_map.1 (hv.mem_iff.1 hm)
      exact hout f (.head _) g (List.mem_append_left _ hg)
    have hone : (violationsOf (f.delete document)).Perm ((missing ++ [f]).map Field.violation) := by
      rw [List.map_append]
      exact (check_delete hf' helsewhere).trans
        ((hv.cons _).trans (List.perm_append_singleton _ _).symm)
    have hall := ih hone (fun g hg => ?_) hn.2 fun g hg k hk => ?_
    · simpa using hall
    · have hne : f ≠ g := fun h => hn.1 (h ▸ hg)
      refine (hf g (.tail _ hg)).delete hf' hne ?_
      exact hout f (.head _) g (List.mem_append_right _ (.tail _ hg))
    · exact hout g (.tail _ hg) k (by simpa using hk)

/-! ## The errors -/

/-- The place of a missing member and what is said about it. -/
def Field.entry (f : Field) : String ×ₗ String :=
  toLex (Violation.pathText f.position.path,
    .join ["\x27", f.key, "\x27", " is a required property"])

/-- The errors of a document without some members, in their order: by the places of the steps, and
at one place by what is said. -/
def missingErrors (fields : List Field) : List String :=
  ((fields.map Field.entry).mergeSort (· ≤ ·)).map fun e =>
    .join ["Validation error: ", (ofLex e).1, ": ", (ofLex e).2]

theorem entry_violation {f : Field} (h : Text.quoted f.key = .join ["\x27", f.key, "\x27"]) :
    f.violation.report.entry = f.entry := by
  simp [Violation.report, Report.entry, Field.violation, Field.entry, Reason.message, h,
    String.append_assoc]

/-- The keys in question are quoted plainly. -/
theorem Requires.quoted {j : Json} (h : Requires key j) :
    Text.quoted key = .join ["\x27", key, "\x27"] := by
  obtain ⟨ms, type, fields, -, -, hf, hk, -⟩ := h
  have hall : ∀ t ∈ stepTypes, ∀ k ∈ descriptiveKeys ++ t.2,
      Text.quoted k = .join ["\x27", k, "\x27"] := by decide
  exact hall _ (stepFields?_eq_some_iff.1 hf) key hk

theorem errors_eq_listed_violationsOf (document : Json) :
    root.errors document = Report.listed ((violationsOf document).map Violation.report) := by
  rw [Root.errors_eq_listed, Root.found, checkWithin_eq_settled, violationsOf]

theorem violationsOf_of_errors {document : Json} (h : root.errors document = []) :
    violationsOf document = [] :=
  errors_eq_nil_iff.1 h

/-- What is listed are the entries of the missing members. -/
theorem listed_missing {document : Json} {fields : List Field}
    (hf : ∀ f ∈ fields, f.IsRequired document) :
    Report.listed ((fields.map Field.violation).map Violation.report) = missingErrors fields := by
  have hentries : ((fields.map Field.violation).map Violation.report).map Report.entry =
      fields.map Field.entry := by
    rw [List.map_map, List.map_map]
    refine List.map_congr_left fun f hm => ?_
    obtain ⟨s, -, hr⟩ := hf f hm
    exact entry_violation hr.quoted
  rw [Report.listed_eq, hentries, missingErrors]

/-- **The errors of an accepted document without some members.** When required members of steps are
deleted from an accepted document, and no step in question lies inside one of them, then there is
one error for each of them and no other one, and the document is refused with this list. -/
theorem errors_deleteAll {document : Json} {fields : List Field} (h : root.errors document = [])
    (hf : ∀ f ∈ fields, f.IsRequired document) (hn : fields.Nodup)
    (hout : ∀ f ∈ fields, ∀ g ∈ fields, ¬ f.path <+: g.position.path) :
    root.errors (fields.foldl Field.delete document) = missingErrors fields ∧
      root.enforce (fields.foldl Field.delete document) =
        if fields = [] then .ok () else .error (missingErrors fields) := by
  have hnone : (violationsOf document).Perm (([] : List Field).map Field.violation) := by
    rw [violationsOf_of_errors h]
    rfl
  have hperm := check_deleteAll hnone hf hn (by simpa using hout)
  have herrors : root.errors (fields.foldl Field.delete document) = missingErrors fields := by
    rw [errors_eq_listed_violationsOf, Report.listed_perm (hperm.map _), List.nil_append,
      listed_missing hf]
  refine ⟨herrors, ?_⟩
  rw [Root.enforce, herrors]
  cases fields with
  | nil => simp [missingErrors]
  | cons f fields =>
    have hne : missingErrors (f :: fields) ≠ [] := by
      rw [Ne, ← List.length_eq_zero_iff]
      simp [missingErrors]
    split
    · rename_i he
      exact absurd he hne
    · rw [if_neg (by simp)]

/-- A loop over a step that leaves it. -/
def leavingLoop : Step :=
  .loop (.of "step1" "while x" "" [] .execute) (.contains "x" "y") [.single "step2" .leave ""]

/-- Members of a step and of a step inside it. -/
def leavingFields : List Field :=
  [⟨⟨0, []⟩, "condition"⟩, ⟨⟨0, []⟩, "id"⟩, ⟨⟨0, [(.body, 0)]⟩, "nl_phrase"⟩]

theorem errors_of_leavingLoop :
    let document := (ofSteps "0123456789abcdef0123456789abcdef" [leavingLoop]).toJson {}
      "2024-01-02T03:04:05Z"
    root.errors document = [] ∧ (∀ f ∈ leavingFields, f.IsRequired document) ∧
      leavingFields.Nodup ∧
      (∀ f ∈ leavingFields, ∀ g ∈ leavingFields, ¬ f.path <+: g.position.path) ∧
      root.errors (leavingFields.foldl Field.delete document) =
        ["Validation error: $.steps[0]: \x27condition\x27 is a required property",
          "Validation error: $.steps[0]: \x27id\x27 is a required property",
          "Validation error: $.steps[0].body[0]: \x27nl_phrase\x27 is a required property"] := by
  have hloop : Step.AllWellFormed [leavingLoop] := by
    refine Step.allWellFormed_singleton.2 ⟨?_, ?_, ?_⟩
    · exact Step.Info.wellFormed_of (n := 1) (by decide) Access.wellFormed_execute
    · trivial
    · exact Step.allWellFormed_singleton.2
        (Step.wellFormed_single (n := 2) (by decide) (show Action.leave.WellFormed from trivial) "")
  have hseed : IsSeed "0123456789abcdef0123456789abcdef" := by decide
  have haccepted := errors_ofSteps hseed hloop (by simp) "2024-01-02T03:04:05Z"
  have hf : ∀ f ∈ leavingFields, f.IsRequired
      ((ofSteps "0123456789abcdef0123456789abcdef" [leavingLoop]).toJson {}
        "2024-01-02T03:04:05Z") := by
    intro f hm
    simp only [leavingFields, List.mem_cons, List.not_mem_nil, or_false] at hm
    rcases hm with rfl | rfl | rfl <;>
      exact ⟨_, rfl, _, _, _, rfl, rfl, rfl, by decide, rfl⟩
  have hn : leavingFields.Nodup := by decide
  have hout : ∀ f ∈ leavingFields, ∀ g ∈ leavingFields, ¬ f.path <+: g.position.path := by decide
  refine ⟨haccepted, hf, hn, hout, ?_⟩
  have hsorted : (leavingFields.map Field.entry).Pairwise (· ≤ ·) := by
    decide
  rw [(errors_deleteAll haccepted hf hn hout).1, missingErrors, List.mergeSort_of_pairwise]
  · rfl
  · simpa using hsorted

end FlowScript.Packaged
