import FlowScript.Proofs.Schema.Patterns
import FlowScript.Proofs.Schema.Settled

/-!
# What rules accept

A rule accepts a document if there are no violations. For each form of a rule this is said in terms
of the document alone: what kind it is of, which members it has, and what is accepted of its parts.

## Main definitions

* `Packaged.Accepts`: a document breaks no rule, given what the named schemas say.

## Main statements

* `Packaged.accepts_record`, `Packaged.accepts_arrayOf`: objects and arrays, by their parts.
* `Packaged.accepts_whenType`: a rule for one type, of an object with a type.
* `Packaged.accepts_use`: a named schema accepts what its rule accepts.
-/
namespace FlowScript.Packaged

open Schema

attribute [local simp] check

variable {named : String → Json → List Violation} {rule : Schema} {rules : List Schema} {j : Json}
  {ms : Json.Members}

/-- A document breaks no rule, given what the named schemas say. -/
def Accepts (named : String → Json → List Violation) (rule : Schema) (j : Json) : Prop :=
  rule.check named j = []

theorem accepts_all : Accepts named (all rules) j ↔ ∀ rule ∈ rules, Accepts named rule j := by
  rw [Accepts, check, checkAll_eq_nil_iff]
  rfl

theorem accepts_both {first second : Schema} :
    Accepts named (all [first, second]) j ↔ Accepts named first j ∧ Accepts named second j := by
  simp [accepts_all]

theorem accepts_type {kinds : List Kind} :
    Accepts named (type kinds) j ↔ kinds.any (·.admits j) := by
  simp [Accepts]

theorem accepts_anyOf {options : List Schema} :
    Accepts named (anyOf options) j ↔ ∃ rule ∈ options, Accepts named rule j := by
  have hany : passesAny named options j ↔ ∃ rule ∈ options, Accepts named rule j := by
    induction options with
    | nil => simp [passesAny]
    | cons option options ih => simp [passesAny, ih, Accepts]
  simpa [Accepts] using hany

theorem accepts_when {condition : Schema} :
    Accepts named (when condition rule) j ↔ (Accepts named condition j → Accepts named rule j) := by
  simp [Accepts]

/-! ## Texts and numbers -/

theorem accepts_text : Accepts named text j ↔ ∃ s, j = .string s := by
  cases j <;> simp [text, accepts_type, Kind.admits]

theorem accepts_textLike {source : String} {p : Pattern} :
    Accepts named (textLike source p) j ↔ ∃ s, j = .string s ∧ p.occursIn s := by
  rw [textLike, accepts_both, accepts_text]
  constructor
  · rintro ⟨⟨s, rfl⟩, h⟩
    exact ⟨s, rfl, by simpa [Accepts] using h⟩
  · rintro ⟨s, rfl, h⟩
    exact ⟨⟨s, rfl⟩, by simpa [Accepts] using h⟩

theorem accepts_textOf {n : Nat} :
    Accepts named (textOf n) j ↔ ∃ s, j = .string s ∧ n ≤ s.length := by
  rw [textOf, accepts_both, accepts_text]
  constructor
  · rintro ⟨⟨s, rfl⟩, h⟩
    exact ⟨s, rfl, by simpa [Accepts] using h⟩
  · rintro ⟨s, rfl, h⟩
    exact ⟨⟨s, rfl⟩, by simpa [Accepts] using h⟩

theorem same_string {s : String} : j.same (.string s) ↔ j = .string s := by
  cases j <;> simp [Json.same]

theorem accepts_const_string {s : String} :
    Accepts named (const (.string s)) j ↔ j = .string s := by
  simp [Accepts, same_string]

theorem accepts_oneOfTexts {ss : List String} :
    Accepts named (oneOfTexts ss) j ↔ ∃ s ∈ ss, j = .string s := by
  simp [Accepts, oneOfTexts, same_string]

theorem accepts_textAmong {ss : List String} :
    Accepts named (textAmong ss) j ↔ ∃ s ∈ ss, j = .string s := by
  rw [textAmong, accepts_both, accepts_text, accepts_oneOfTexts]
  constructor
  · exact And.right
  · rintro ⟨s, hs, rfl⟩
    exact ⟨⟨s, rfl⟩, s, hs, rfl⟩

theorem accepts_integerFrom {n : Int} : Accepts named (integerFrom n) j ↔
    ∃ x, j = .number x ∧ x.isWhole ∧ x.less (.int n) = false := by
  rw [integerFrom, accepts_both, accepts_type]
  constructor
  · rintro ⟨hk, h⟩
    cases j <;> simp [Kind.admits] at hk
    exact ⟨_, rfl, hk, by simpa [Accepts] using h⟩
  · rintro ⟨x, rfl, hw, h⟩
    exact ⟨by simpa [Kind.admits] using hw, by simpa [Accepts] using h⟩

/-! ## Arrays -/

theorem accepts_items {xs : List Json} (hr : rule ≠ nothing) :
    Accepts named (items rule) (.array xs) ↔ ∀ x ∈ xs, Accepts named rule x := by
  rw [Accepts, check_items hr, List.flatMap_eq_nil_iff]
  constructor
  · intro h x hx
    obtain ⟨i, hi, rfl⟩ := List.getElem_of_mem hx
    have hm : (xs[i], i) ∈ xs.zipIdx := List.mk_mem_zipIdx_iff_getElem?.2 (by simp [hi])
    exact List.map_eq_nil_iff.1 (h _ hm)
  · rintro h ⟨x, i⟩ hx
    exact List.map_eq_nil_iff.2 (h x (List.fst_mem_of_mem_zipIdx hx))

theorem accepts_arrayOf (hr : rule ≠ nothing) : Accepts named (arrayOf rule) j ↔
    ∃ xs, j = .array xs ∧ ∀ x ∈ xs, Accepts named rule x := by
  rw [arrayOf, accepts_both, accepts_type]
  constructor
  · rintro ⟨hk, h⟩
    cases j <;> simp [Kind.admits] at hk
    exact ⟨_, rfl, (accepts_items hr).1 h⟩
  · rintro ⟨xs, rfl, h⟩
    exact ⟨rfl, (accepts_items hr).2 h⟩

theorem accepts_someOf (hr : rule ≠ nothing) : Accepts named (someOf rule) j ↔
    ∃ xs, j = .array xs ∧ xs ≠ [] ∧ ∀ x ∈ xs, Accepts named rule x := by
  rw [someOf, accepts_both, accepts_arrayOf hr]
  constructor
  · rintro ⟨⟨xs, rfl, h⟩, hl⟩
    exact ⟨xs, rfl, by simpa [Accepts, Nat.one_le_iff_ne_zero] using hl, h⟩
  · rintro ⟨xs, rfl, hne, h⟩
    exact ⟨⟨xs, rfl, h⟩, by simpa [Accepts, Nat.one_le_iff_ne_zero] using hne⟩

/-! ## Objects -/

theorem accepts_required {keys : List String} : Accepts named (required keys) (.object ms) ↔
    ∀ key ∈ keys, (Json.lookup? key ms).isSome := by
  simp [Accepts, Option.isSome_iff_ne_none]

theorem accepts_property {key : String} : Accepts named (property key rule) (.object ms) ↔
    ∀ v, Json.lookup? key ms = some v → Accepts named rule v := by
  cases h : Json.lookup? key ms <;> simp [Accepts, h]

/-- An object is accepted with its required members, if its members are. -/
theorem accepts_record_object {keys : List String} {members : List (String × Schema)} :
    Accepts named (record keys members) (.object ms) ↔
      (∀ key ∈ keys, (Json.lookup? key ms).isSome) ∧
        ∀ m ∈ members, ∀ v, Json.lookup? m.1 ms = some v → Accepts named m.2 v := by
  simp only [record, accepts_all, List.forall_mem_cons, List.forall_mem_map, accepts_required,
    accepts_property, accepts_type]
  exact and_iff_right rfl

theorem accepts_record {keys : List String} {members : List (String × Schema)} :
    Accepts named (record keys members) j ↔ ∃ ms, j = .object ms ∧
      (∀ key ∈ keys, (Json.lookup? key ms).isSome) ∧
      ∀ m ∈ members, ∀ v, Json.lookup? m.1 ms = some v → Accepts named m.2 v := by
  constructor
  · intro h
    have hk := accepts_type.1 (accepts_all.1 h (type [.object]) (by simp))
    cases j <;> simp [Kind.admits] at hk
    exact ⟨_, rfl, accepts_record_object.1 h⟩
  · rintro ⟨ms, rfl, h⟩
    exact accepts_record_object.2 h

/-- A rule for one type concerns the objects of this type only. -/
theorem accepts_whenType {type own : String} (ht : Json.lookup? "type" ms = some (.string own)) :
    Accepts named (whenType type rules) (.object ms) ↔
      (own = type → ∀ rule ∈ rules, Accepts named rule (.object ms)) := by
  have hc : Accepts named (property "type" (const (.string type))) (.object ms) ↔ own = type := by
    simp [accepts_property, ht, accepts_const_string]
  rw [whenType, accepts_when, hc, accepts_all]

/-! ## Named schemas -/

theorem accepts_use {name : String} (hf : root.named.find? (·.1 == reference name) =
    some (reference name, rule)) : Accepts settled (use name) j ↔ Accepts settled rule j := by
  rw [Accepts, use, check, settled_use hf]
  rfl

theorem accepts_expression : Accepts settled (use "expression") j ↔ Accepts settled expression j :=
  accepts_use rfl

theorem accepts_condition : Accepts settled (use "condition") j ↔ Accepts settled condition j :=
  accepts_use rfl

theorem accepts_value : Accepts settled (use "value") j ↔ Accepts settled value j :=
  accepts_use rfl

theorem accepts_step : Accepts settled (use "step") j ↔ Accepts settled step j :=
  accepts_use rfl

theorem accepts_identifier : Accepts settled (use "identifier") j ↔ Accepts settled identifier j :=
  accepts_use rfl

theorem accepts_accessControl :
    Accepts settled (use "accessControl") j ↔ Accepts settled accessControl j :=
  accepts_use rfl

end FlowScript.Packaged
