import FlowScript.Numeric.Number

/-!
# Documents

A workflow is written down as a document: a tree of nulls, truth values, numbers, texts, arrays and
objects. The members of an object keep the order in which they were added, and a key occurs once;
setting a key that is present changes its value in place.

## Main definitions

* `Json`: documents, whose equality is decided by `Json.identical`.
* `Json.setMember`, `Json.member?`: writing and reading one member.
* `Json.sorted`: the same document with the keys of all objects in order of code points.
* `Json.same`: equality by value, in which an integer equals a double that denotes it, truth values
  equal no numbers, and the order of members does not count.
-/
namespace FlowScript

/-- A document. -/
inductive Json where
  | null
  | bool (b : Bool)
  | number (n : Number)
  | string (s : String)
  | array (items : List Json)
  | object (members : List (String × Json))
  deriving Repr, Inhabited

namespace Json

/-- The members of an object, in the order in which they were added. -/
abbrev Members := List (String × Json)

mutual

/-- Whether two documents agree in every detail. -/
def identical : Json → Json → Bool
  | null, null => true
  | bool a, bool b => a == b
  | number m, number n => m == n
  | string s, string t => s == t
  | array xs, array ys => identicalItems xs ys
  | object ms, object ns => identicalMembers ms ns
  | _, _ => false
termination_by structural j => j

/-- Whether two arrays agree in every detail. -/
def identicalItems : List Json → List Json → Bool
  | [], [] => true
  | x :: xs, y :: ys => identical x y && identicalItems xs ys
  | _, _ => false
termination_by structural xs => xs

/-- Whether the members of two objects agree in every detail, their order included. -/
def identicalMembers : Members → Members → Bool
  | [], [] => true
  | (k, v) :: ms, (l, w) :: ns => k == l && identical v w && identicalMembers ms ns
  | _, _ => false
termination_by structural ms => ms

end

mutual

theorem identical_iff : (j k : Json) → (identical j k = true ↔ j = k)
  | null, k => by cases k <;> simp [identical]
  | bool _, k => by cases k <;> simp [identical]
  | number _, k => by cases k <;> simp [identical]
  | string _, k => by cases k <;> simp [identical]
  | array xs, k => by cases k <;> simp [identical, identicalItems_iff xs]
  | object ms, k => by cases k <;> simp [identical, identicalMembers_iff ms]
termination_by structural j => j

theorem identicalItems_iff : (xs ys : List Json) → (identicalItems xs ys = true ↔ xs = ys)
  | [], ys => by cases ys <;> simp [identicalItems]
  | x :: xs, ys => by
    cases ys <;> simp [identicalItems, identical_iff x, identicalItems_iff xs]
termination_by structural xs => xs

theorem identicalMembers_iff : (ms ns : Members) → (identicalMembers ms ns = true ↔ ms = ns)
  | [], ns => by cases ns <;> simp [identicalMembers]
  | (k, v) :: ms, ns => by
    cases ns <;>
      simp [identicalMembers, identical_iff v, identicalMembers_iff ms, Prod.ext_iff, and_assoc]
termination_by structural ms => ms

end

instance : DecidableEq Json := fun j k => decidable_of_iff _ (identical_iff j k)

/-- The integer as a document. -/
def ofInt (n : Int) : Json :=
  number (.int n)

/-- An array of texts. -/
def ofStrings (ss : List String) : Json :=
  array (ss.map string)

/-- The value of a member. -/
def lookup? (key : String) (ms : Members) : Option Json :=
  (ms.find? (·.1 == key)).map (·.2)

/-- The value of a member of a document that is an object. -/
def member? (key : String) : Json → Option Json
  | object ms => lookup? key ms
  | _ => none

/-- The text of a member of a document that is an object, if it is a text. -/
def textOf? (key : String) (j : Json) : Option String :=
  match j.member? key with
  | some (string s) => some s
  | _ => none

/-- The members with a key's value changed in place, or the key added at the end. -/
def setMember (key : String) (value : Json) : Members → Members
  | [] => [(key, value)]
  | (k, v) :: ms => if k = key then (key, value) :: ms else (k, v) :: setMember key value ms

/-- The members without a key. -/
def eraseMember (key : String) (ms : Members) : Members :=
  ms.filter (·.1 != key)

/-- Inserts a member before the first one with a larger key. -/
def insertSorted (m : String × Json) : Members → Members
  | [] => [m]
  | n :: ms => if m.1 ≤ n.1 then m :: n :: ms else n :: insertSorted m ms

/-- The members in order of their keys. -/
def sortMembers (ms : Members) : Members :=
  ms.foldr insertSorted []

mutual

/-- The document with the keys of all its objects in order of code points. -/
def sorted : Json → Json
  | array xs => array (sortedItems xs)
  | object ms => object (sortMembers (sortedValues ms))
  | null => null
  | bool b => bool b
  | number n => number n
  | string s => string s
termination_by structural j => j

/-- The documents of an array, each sorted. -/
def sortedItems : List Json → List Json
  | [] => []
  | x :: xs => sorted x :: sortedItems xs
termination_by structural xs => xs

/-- The members of an object with their values sorted. -/
def sortedValues : Members → Members
  | [] => []
  | (k, v) :: ms => (k, sorted v) :: sortedValues ms
termination_by structural ms => ms

end

mutual

/-- How many arrays and objects lie inside each other. -/
def depth : Json → Nat
  | array xs => depthItems xs + 1
  | object ms => depthValues ms + 1
  | null => 0
  | bool _ => 0
  | number _ => 0
  | string _ => 0
termination_by structural j => j

/-- The largest depth in an array. -/
def depthItems : List Json → Nat
  | [] => 0
  | x :: xs => max (depth x) (depthItems xs)
termination_by structural xs => xs

/-- The largest depth in an object. -/
def depthValues : Members → Nat
  | [] => 0
  | (_, v) :: ms => max (depth v) (depthValues ms)
termination_by structural ms => ms

end

mutual

/-- Equality by value. -/
def same : Json → Json → Bool
  | null, null => true
  | bool a, bool b => a == b
  | number m, number n => m.same n
  | string s, string t => s == t
  | array xs, array ys => sameItems xs ys
  | object ms, object ns => ms.length == ns.length && sameMembers ms ns
  | _, _ => false
termination_by structural j => j

/-- Equality by value of arrays, item by item. -/
def sameItems : List Json → List Json → Bool
  | [], [] => true
  | x :: xs, y :: ys => same x y && sameItems xs ys
  | _, _ => false
termination_by structural xs => xs

/-- Whether every member has a member of the same key and value on the other side. -/
def sameMembers : Members → Members → Bool
  | [], _ => true
  | (k, v) :: ms, ns =>
    (match lookup? k ns with
      | some w => same v w
      | none => false) && sameMembers ms ns
termination_by structural ms => ms

end

theorem lookup?_cons (key : String) (m : String × Json) (ms : Members) :
    lookup? key (m :: ms) = if m.1 == key then some m.2 else lookup? key ms := by
  by_cases h : m.1 == key <;> simp [lookup?, h]

@[simp] theorem lookup?_setMember_self (key : String) (value : Json) (ms : Members) :
    lookup? key (setMember key value ms) = some value := by
  induction ms with
  | nil => simp [setMember, lookup?]
  | cons m ms ih =>
    simp only [lookup?] at ih
    by_cases h : m.1 = key <;> simp [setMember, lookup?, h, ih]

theorem lookup?_setMember_of_ne {key other : String} (h : other ≠ key) (value : Json)
    (ms : Members) : lookup? other (setMember key value ms) = lookup? other ms := by
  induction ms with
  | nil => simp [setMember, lookup?, Ne.symm h]
  | cons m ms ih =>
    simp only [lookup?] at ih
    by_cases hk : m.1 = key
    · simp [setMember, lookup?, hk, Ne.symm h]
    · by_cases ho : m.1 = other <;> simp [setMember, lookup?, hk, ho, h, ih]

end Json
end FlowScript
