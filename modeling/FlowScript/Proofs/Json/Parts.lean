import FlowScript.Json.Basic

/-!
# Parts of documents

The parts of a document are the document itself and the parts of its items and members, in the order
in which they are written. What is said about a part by its type and one text beside it is found by
going through all parts, without knowing what the document stands for.

## Main definitions

* `Json.parts`: a document and the documents inside it, each before those inside it.
* `Json.found`: the texts that a reader of single parts finds in a document, in order.
* `Json.IsTyped`: readers that look only at parts with a type.
-/
namespace FlowScript.Json

mutual

/-- A document and the documents inside it, each before those inside it. -/
def parts : Json → List Json
  | array xs => array xs :: partsOfItems xs
  | object ms => object ms :: partsOfMembers ms
  | null => [null]
  | bool b => [bool b]
  | number n => [number n]
  | string s => [string s]
termination_by structural j => j

/-- The parts of the items of an array. -/
def partsOfItems : List Json → List Json
  | [] => []
  | x :: xs => parts x ++ partsOfItems xs
termination_by structural xs => xs

/-- The parts of the values of the members of an object. -/
def partsOfMembers : Members → List Json
  | [] => []
  | (_, v) :: ms => parts v ++ partsOfMembers ms
termination_by structural ms => ms

end

/-- The texts that a reader of single parts finds in a document, in order and with repetitions. -/
def found (f : Json → Option String) (j : Json) : List String :=
  j.parts.filterMap f

/-- The texts that a reader finds in the items of an array. -/
def foundInItems (f : Json → Option String) (xs : List Json) : List String :=
  (partsOfItems xs).filterMap f

/-- The texts that a reader finds in the members of an object. -/
def foundInMembers (f : Json → Option String) (ms : Members) : List String :=
  (partsOfMembers ms).filterMap f

/-- Readers that look only at parts with a type. -/
def IsTyped (f : Json → Option String) : Prop :=
  ∀ j, j.textOf? "type" = none → f j = none

variable {f : Json → Option String}

theorem found_object (f : Json → Option String) (ms : Members) :
    found f (object ms) = (f (object ms)).toList ++ foundInMembers f ms := by
  cases h : f (object ms) <;> simp [found, foundInMembers, parts, h]

theorem IsTyped.found_array (hf : IsTyped f) (xs : List Json) :
    found f (array xs) = foundInItems f xs := by
  simp [found, foundInItems, parts, hf (array xs) rfl]

@[simp] theorem foundInItems_nil : foundInItems f [] = [] := rfl

@[simp] theorem foundInItems_cons (x : Json) (xs : List Json) :
    foundInItems f (x :: xs) = found f x ++ foundInItems f xs := by
  simp [foundInItems, found, partsOfItems]

@[simp] theorem foundInMembers_nil : foundInMembers f [] = [] := rfl

@[simp] theorem foundInMembers_cons (key : String) (value : Json) (ms : Members) :
    foundInMembers f ((key, value) :: ms) = found f value ++ foundInMembers f ms := by
  simp [foundInMembers, found, partsOfMembers]

@[simp] theorem foundInMembers_append (ms ns : Members) :
    foundInMembers f (ms ++ ns) = foundInMembers f ms ++ foundInMembers f ns := by
  induction ms with
  | nil => rfl
  | cons m ms ih =>
    obtain ⟨key, value⟩ := m
    simp [ih]

/-! ## Parts without type -/

theorem IsTyped.found_string (hf : IsTyped f) (s : String) : found f (string s) = [] := by
  simp [found, parts, hf (string s) rfl]

theorem IsTyped.found_bool (hf : IsTyped f) (b : Bool) : found f (bool b) = [] := by
  simp [found, parts, hf (bool b) rfl]

theorem IsTyped.found_number (hf : IsTyped f) (n : Number) : found f (number n) = [] := by
  simp [found, parts, hf (number n) rfl]

theorem IsTyped.found_ofStrings (hf : IsTyped f) (ss : List String) :
    found f (ofStrings ss) = [] := by
  rw [ofStrings, hf.found_array]
  induction ss with
  | nil => rfl
  | cons s ss ih => simp [ih, hf.found_string]

/-- An object without type has only what its members have. -/
theorem IsTyped.found_untyped (hf : IsTyped f) {ms : Members}
    (h : (object ms).textOf? "type" = none) : found f (object ms) = foundInMembers f ms := by
  rw [found_object, hf _ h]
  rfl

end FlowScript.Json
