/-!
# Registries

A registry gives values to names. Names keep the order in which they were first registered; a name
that is registered again keeps its place and takes the new value.

## Main definitions

* `Registry`: values by name, in order.
* `Registry.insert`, `Registry.find?`: registering a value and looking one up.
* `distinct`: the first occurrences of the names in a list.
-/
namespace FlowScript

/-- Values by name, in the order in which the names were first registered. -/
structure Registry (α : Type) where
  entries : List (String × α)
  deriving Repr, Inhabited

namespace Registry

variable {α : Type}

/-- The registry without names. -/
def empty : Registry α := ⟨[]⟩

/-- The names in order. -/
def names (r : Registry α) : List String :=
  r.entries.map (·.1)

/-- The value of a name. -/
def find? (r : Registry α) (name : String) : Option α :=
  (r.entries.find? (·.1 == name)).map (·.2)

/-- Entries with a name's value changed in place, or the name added at the end. -/
def put (name : String) (value : α) : List (String × α) → List (String × α)
  | [] => [(name, value)]
  | (n, v) :: es => if n = name then (name, value) :: es else (n, v) :: put name value es

/-- Registers a value under a name. -/
def insert (r : Registry α) (name : String) (value : α) : Registry α :=
  ⟨put name value r.entries⟩

/-- Forgets a name. -/
def erase (r : Registry α) (name : String) : Registry α :=
  ⟨r.entries.filter (·.1 != name)⟩

/-- The registry of some pairs, registered in order. -/
def ofList (es : List (String × α)) : Registry α :=
  es.foldl (fun r e => r.insert e.1 e.2) empty

@[simp] theorem find?_insert_self (r : Registry α) (name : String) (value : α) :
    (r.insert name value).find? name = some value := by
  obtain ⟨es⟩ := r
  simp only [insert, find?]
  induction es with
  | nil => simp [put]
  | cons e es ih => by_cases h : e.1 = name <;> simp [put, h, ih]

theorem find?_insert_of_ne {name other : String} (h : other ≠ name) (r : Registry α) (value : α) :
    (r.insert name value).find? other = r.find? other := by
  obtain ⟨es⟩ := r
  simp only [insert, find?]
  induction es with
  | nil => simp [put, Ne.symm h]
  | cons e es ih =>
    by_cases hn : e.1 = name
    · simp [put, hn, Ne.symm h]
    · by_cases ho : e.1 = other <;> simp [put, hn, ho, h, ih]

/-- A name's place: registering it again changes no names, and a new name comes last. -/
theorem names_insert (r : Registry α) (name : String) (value : α) :
    (r.insert name value).names =
      if name ∈ r.names then r.names else r.names ++ [name] := by
  obtain ⟨es⟩ := r
  simp only [insert, names]
  induction es with
  | nil => simp [put]
  | cons e es ih =>
    by_cases hn : e.1 = name
    · simp [put, hn]
    · by_cases hm : name ∈ es.map (·.1) <;> simp [put, hn, Ne.symm hn, ih, hm]

end Registry

/-- The first occurrences of the names in a list, in order. -/
def distinct (names : List String) : List String :=
  names.foldl (fun seen name => if seen.contains name then seen else seen ++ [name]) []

end FlowScript
