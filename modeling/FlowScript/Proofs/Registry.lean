import FlowScript.Registry
import Mathlib.Data.List.Induction

/-!
# Names in order

The names of a list are kept by their first occurrences, so that each of them is there once and none
is added. A registry that is filled with different names keeps them as they come.

## Main definitions

* `lastOf?`: the last value that a list of entries gives to a name.

## Main statements

* `distinct_concat`: a further name counts unless it has occurred.
* `mem_distinct`, `nodup_distinct`: the names are the same, and each is there once.
* `Registry.entries_ofList`: different names are registered as they come.
-/
namespace FlowScript

/-! ## First occurrences -/

theorem mem_distinct {ns : List String} {name : String} : name ∈ distinct ns ↔ name ∈ ns := by
  suffices h : ∀ seen, name ∈ ns.foldl
      (fun seen name => if seen.contains name then seen else seen ++ [name]) seen ↔
        name ∈ seen ∨ name ∈ ns by
    rw [distinct, h, List.mem_nil_iff, false_or]
  induction ns with
  | nil => simp
  | cons n ns ih =>
    intro seen
    rw [List.foldl_cons, ih]
    by_cases hn : n ∈ seen
    · rw [if_pos (by simpa using hn)]
      constructor
      · rintro (h | h)
        · exact .inl h
        · exact .inr (List.mem_cons_of_mem _ h)
      · rintro (h | h)
        · exact .inl h
        · rcases List.mem_cons.1 h with rfl | h
          · exact .inl hn
          · exact .inr h
    · rw [if_neg (by simpa using hn)]
      simp [or_assoc]

/-- A further name counts unless it has occurred. -/
theorem distinct_concat (ns : List String) (name : String) :
    distinct (ns ++ [name]) = if name ∈ ns then distinct ns else distinct ns ++ [name] := by
  have hd : distinct (ns ++ [name]) =
      if (distinct ns).contains name then distinct ns else distinct ns ++ [name] := by
    rw [distinct, List.foldl_append]
    rfl
  rw [hd]
  simp only [List.contains_iff_mem, mem_distinct]

theorem nodup_distinct (ns : List String) : (distinct ns).Nodup := by
  induction ns using List.reverseRecOn with
  | nil => exact List.nodup_nil
  | append_singleton ns name ih =>
    rw [distinct_concat]
    by_cases h : name ∈ ns
    · rw [if_pos h]
      exact ih
    · rw [if_neg h, List.nodup_append]
      refine ⟨ih, List.pairwise_singleton _ _, ?_⟩
      intro n hn m hm heq
      rw [List.mem_singleton] at hm
      exact h (hm ▸ heq ▸ mem_distinct.1 hn)

/-- Names that are all different stay as they are. -/
theorem distinct_of_nodup {ns : List String} (h : ns.Nodup) : distinct ns = ns := by
  induction ns using List.reverseRecOn with
  | nil => rfl
  | append_singleton ns name ih =>
    rw [List.nodup_append] at h
    have hn : name ∉ ns := fun hn => h.2.2 name hn name (List.mem_singleton.2 rfl) rfl
    rw [distinct_concat, if_neg hn, ih h.1]

variable {α : Type}

/-! ## Last values -/

/-- The last value that a list of entries gives to a name. -/
def lastOf? (name : String) (es : List (String × α)) : Option α :=
  ((es.filter fun e => e.1 = name).getLast?).map (·.2)

@[simp] theorem lastOf?_nil (name : String) : lastOf? name ([] : List (String × α)) = none := rfl

theorem lastOf?_append (name : String) (es fs : List (String × α)) :
    lastOf? name (es ++ fs) = (lastOf? name fs).or (lastOf? name es) := by
  rw [lastOf?, List.filter_append, List.getLast?_append, Option.map_or]
  rfl

theorem lastOf?_singleton (name : String) (e : String × α) :
    lastOf? name [e] = if e.1 = name then some e.2 else none := by
  by_cases h : e.1 = name <;> simp [lastOf?, h]

/-- A name without entries has no last value. -/
theorem lastOf?_of_notMem {name : String} {es : List (String × α)} (h : name ∉ es.map (·.1)) :
    lastOf? name es = none := by
  have hf : es.filter (fun e => e.1 = name) = [] := by
    rw [List.filter_eq_nil_iff]
    intro e he hn
    rw [decide_eq_true_eq] at hn
    exact h (hn ▸ List.mem_map_of_mem he)
  rw [lastOf?, hf]
  rfl

theorem lastOf?_isSome {name : String} {es : List (String × α)} (h : name ∈ es.map (·.1)) :
    (lastOf? name es).isSome := by
  obtain ⟨e, he, rfl⟩ := List.mem_map.1 h
  have hm : e ∈ es.filter (fun f => f.1 = e.1) := by
    rw [List.mem_filter]
    exact ⟨he, by simp⟩
  have hne : es.filter (fun f => f.1 = e.1) ≠ [] := List.ne_nil_of_mem hm
  rw [lastOf?, Option.isSome_map, List.getLast?_isSome]
  exact hne

/-- Only the entries of a name count. -/
theorem lastOf?_filter {name : String} {p : String × α → Bool} (es : List (String × α))
    (hp : ∀ a, p (name, a)) : lastOf? name (es.filter p) = lastOf? name es := by
  rw [lastOf?, lastOf?, List.filter_filter]
  congr 2
  apply List.filter_congr
  intro e _
  by_cases h : e.1 = name
  · have he : p e := by
      rw [← h] at hp
      exact hp e.2
    simp [h, he]
  · simp [h]

/-! ## Registering different names -/

namespace Registry

theorem put_of_notMem {name : String} (value : α) {es : List (String × α)}
    (h : name ∉ es.map (·.1)) : put name value es = es ++ [(name, value)] := by
  induction es with
  | nil => rfl
  | cons e es ih =>
    simp only [List.map_cons, List.mem_cons, not_or] at h
    rw [put, if_neg (Ne.symm h.1), ih h.2]
    rfl

/-- Different names are registered as they come. -/
theorem entries_ofList {es : List (String × α)} (h : (es.map (·.1)).Nodup) :
    (ofList es).entries = es := by
  induction es using List.reverseRecOn with
  | nil => rfl
  | append_singleton es e ih =>
    rw [List.map_append, List.nodup_append] at h
    have he : e.1 ∉ es.map (·.1) := fun he => h.2.2 e.1 he e.1 (by simp) rfl
    have hc : (ofList (es ++ [e])).entries = put e.1 e.2 (ofList es).entries := by
      rw [ofList, List.foldl_append]
      rfl
    rw [hc, ih h.1, put_of_notMem e.2 he]

@[simp] theorem find?_empty (name : String) : (empty : Registry α).find? name = none := rfl

@[simp] theorem find?_erase_self (r : Registry α) (name : String) :
    (r.erase name).find? name = none := by
  simp [find?, erase, List.find?_filter]

/-- Forgetting a name leaves the others. -/
theorem find?_erase_of_ne {name other : String} (h : other ≠ name) (r : Registry α) :
    (r.erase name).find? other = r.find? other := by
  simp only [find?, erase, List.find?_filter]
  congr 2
  funext e
  by_cases he : e.1 = other
  · simp [he, h]
  · simp [he]

end Registry
end FlowScript
