import FlowScript.Json.Edit

/-!
# Parts of documents under edits

An edit is made at the part that a path leads to. The parts of the document that other paths lead to
stay what they are, unless the edit is made inside them or they are inside what it deletes.

## Main definitions

* `Json.at?`: the part of a document that a path leads to.

## Main statements

* `Json.modifyAt_key_index`: a change inside an item of an array that is a member of an object.
* `Json.at?_modifyAt`: a part that a change is not about.
-/
namespace FlowScript.Json

variable {ms : Members} {xs : List Json} {key other : String} {value : Json}

/-! ## Members -/

theorem setMember_of_lookup? (h : lookup? key ms = some value) : setMember key value ms = ms := by
  induction ms with
  | nil => simp [lookup?] at h
  | cons m ms ih =>
    obtain ⟨k, v⟩ := m
    by_cases hk : k = key
    · simp_all [setMember, lookup?]
    · have hl : lookup? key ms = some value := by simpa [lookup?, hk] using h
      simp [setMember, hk, ih hl]

@[simp] theorem lookup?_eraseMember_self (key : String) (ms : Members) :
    lookup? key (eraseMember key ms) = none := by
  simp [lookup?, eraseMember, List.find?_filter]

theorem lookup?_eraseMember_of_ne (h : other ≠ key) (ms : Members) :
    lookup? other (eraseMember key ms) = lookup? other ms := by
  have hp : (fun m : String × Json => decide ((m.1 != key) = true ∧ (m.1 == other) = true)) =
      fun m => m.1 == other := by
    funext m
    by_cases hm : m.1 = other <;> simp [hm, h]
  rw [lookup?, eraseMember, List.find?_filter, hp, lookup?]

/-- The same members are present when the value of one of them changes. -/
theorem isNone_lookup?_setMember (h : (lookup? key ms).isSome) (other : String) (value : Json) :
    (lookup? other (setMember key value ms)).isNone = (lookup? other ms).isNone := by
  by_cases hk : other = key
  · rw [hk, lookup?_setMember_self]
    simpa using h
  · rw [lookup?_setMember_of_ne hk]

/-- A member stays present when some value is set. -/
theorem isSome_lookup?_setMember (h : (lookup? other ms).isSome) :
    (lookup? other (setMember key value ms)).isSome := by
  by_cases hk : other = key
  · simp [hk]
  · rwa [lookup?_setMember_of_ne hk]

/-! ## Parts -/

/-- The part of a document that a path leads to. -/
def at? : List Segment → Json → Option Json
  | [], j => some j
  | step :: steps, j => (j.part? step).bind (at? steps)

theorem part?_key {j v : Json} (h : j.part? (.key key) = some v) :
    ∃ ms, j = object ms ∧ lookup? key ms = some v := by
  cases j <;> simp_all [part?]

theorem part?_index {i : Nat} {j x : Json} (h : j.part? (.index i) = some x) :
    ∃ xs, j = array xs ∧ xs[i]? = some x := by
  cases j <;> simp_all [part?]

/-- A path into an item of a member. -/
theorem at?_key_index {i : Nat} {path : List Segment} {j part : Json}
    (h : at? (.key key :: .index i :: path) j = some part) :
    ∃ ms xs x, j = object ms ∧ lookup? key ms = some (array xs) ∧ xs[i]? = some x ∧
      at? path x = some part := by
  simp only [at?, Option.bind_eq_some_iff] at h
  obtain ⟨v, hv, x, hx, h⟩ := h
  obtain ⟨ms, rfl, hv⟩ := part?_key hv
  obtain ⟨xs, rfl, hx⟩ := part?_index hx
  exact ⟨ms, xs, x, rfl, hv, hx, h⟩

/-- A change inside an item of a member. -/
theorem modifyAt_key_index {change : Json → Json} {i : Nat} {path : List Segment} {x : Json}
    (hxs : lookup? key ms = some (array xs)) (hx : xs[i]? = some x) :
    modifyAt change (.key key :: .index i :: path) (object ms) =
      object (setMember key (array (xs.set i (modifyAt change path x))) ms) := by
  have hi : i ≠ xs.length := Nat.ne_of_lt (List.getElem?_eq_some_iff.1 hx).1
  simp [modifyAt, part?, hxs, hx, setPart, hi]

theorem edit_delete_key {path : List Segment} {j : Json} :
    j.edit (.delete (path ++ [.key key])) = j.modifyAt (·.deletePart (.key key)) path := by
  simp [edit]

/-! ## Other parts -/

theorem part?_setPart_self {step : Segment} {j part : Json} (h : j.part? step = some part) :
    (j.setPart step value).part? step = some value := by
  cases step with
  | key key =>
    obtain ⟨ms, rfl, -⟩ := part?_key h
    simp [setPart, part?]
  | index i =>
    obtain ⟨xs, rfl, hx⟩ := part?_index h
    obtain ⟨hi, -⟩ := List.getElem?_eq_some_iff.1 hx
    simp [setPart, part?, Nat.ne_of_lt hi, hi]

theorem part?_setPart_of_ne {step step' : Segment} {j part : Json} (h : j.part? step' = some part)
    (hne : step ≠ step') : (j.setPart step' value).part? step = j.part? step := by
  cases step' with
  | key key =>
    obtain ⟨ms, rfl, -⟩ := part?_key h
    cases step with
    | key other => exact lookup?_setMember_of_ne (by simpa using hne) _ _
    | index i => rfl
  | index i =>
    obtain ⟨xs, rfl, hx⟩ := part?_index h
    have hi : i ≠ xs.length := Nat.ne_of_lt (List.getElem?_eq_some_iff.1 hx).1
    cases step with
    | key other => rfl
    | index k =>
      have hk : i ≠ k := fun h => hne (by rw [h])
      simp [setPart, part?, hi, hk]

theorem part?_deletePart_key {step : Segment} (j : Json) (hne : step ≠ .key key) :
    (j.deletePart (.key key)).part? step = j.part? step := by
  cases j with
  | object ms =>
    cases step with
    | key other => exact lookup?_eraseMember_of_ne (by simpa using hne) _
    | index i => rfl
  | _ => cases step <;> rfl

/-- What is found at a path after a member has been deleted elsewhere, unless the path leads into
the member: the same, or what became of it since the deletion was made inside it. -/
theorem at?_delete {path target : List Segment} {j part : Json} (h : at? path j = some part)
    (hout : ¬ target ++ [.key key] <+: path) :
    at? path (j.modifyAt (·.deletePart (.key key)) target) = some part ∨
      ∃ rest, target = path ++ rest ∧ at? path (j.modifyAt (·.deletePart (.key key)) target) =
        some (part.modifyAt (·.deletePart (.key key)) rest) := by
  induction path generalizing target j with
  | nil =>
    obtain rfl := Option.some.inj h
    exact .inr ⟨target, rfl, rfl⟩
  | cons step path ih =>
    obtain ⟨inner, hinner, h⟩ := Option.bind_eq_some_iff.1 h
    cases target with
    | nil =>
      have hne : step ≠ .key key := fun h => hout (by simp [h])
      left
      simp only [at?, modifyAt, part?_deletePart_key j hne, hinner]
      exact h
    | cons step' target =>
      cases hp : j.part? step' with
      | none =>
        left
        simp only [at?, modifyAt, hp, hinner]
        exact h
      | some part' =>
        by_cases hs : step = step'
        · subst hs
          obtain rfl := Option.some.inj (hinner.symm.trans hp)
          have hout' : ¬ target ++ [.key key] <+: path := fun h => hout (by simpa using h)
          simp only [at?, modifyAt, hp, part?_setPart_self hp, Option.bind_some, List.cons_append,
            List.cons.injEq, true_and]
          exact ih h hout'
        · left
          simp only [at?, modifyAt, hp, part?_setPart_of_ne hp hs, hinner]
          exact h

end FlowScript.Json
