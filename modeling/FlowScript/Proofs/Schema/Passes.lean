import FlowScript.Schema.Packaged
import Mathlib.Data.List.Nodup

/-!
# Documents that pass the schema

The named schemas refer to one another, and a check follows names only so often. A document passes a
rule if there are no violations however often names are followed, so that what passes is proved rule
by rule, and by induction where a schema refers to itself.

## Main definitions

* `Packaged.follow`: the violations of the named schemas, with an allowance for further names.
* `Packaged.Passes`: a document passes a rule.
* `Packaged.Fit`: every member of an object passes a rule for its key.

## Main statements

* `Packaged.passes_record`, `Packaged.passes_mapOf`, `Packaged.passes_arrayOf`: objects and arrays
  pass if their parts do.
* `Packaged.passes_whenType`: a rule for one type concerns the documents of this type only.
* `Packaged.check_aligned`: the violations of a record, member by member.
-/
namespace FlowScript.Packaged

open Schema

attribute [local simp] check

/-- The violations of the schema with a name, with names in it followed a number of times. -/
def follow (n : Nat) (name : String) (j : Json) : List Violation :=
  match root.named.find? (·.1 == name) with
  | some (_, rule) => Root.checkWithin root.named n rule j
  | none => []

theorem checkWithin_succ (n : Nat) (rule : Schema) (j : Json) :
    Root.checkWithin root.named (n + 1) rule j = rule.check (follow n) j := rfl

/-- A document passes a rule, however often names are followed. -/
def Passes (rule : Schema) (j : Json) : Prop :=
  ∀ n, rule.check (follow n) j = []

variable {rule : Schema} {rules : List Schema} {j : Json} {ms : Json.Members}

theorem Passes.within (h : Passes rule j) (n : Nat) :
    Root.checkWithin root.named n rule j = [] := by
  cases n with
  | zero => rfl
  | succ n => exact h n

/-! ## Named schemas -/

/-- A document passes a named schema if it passes its rule. -/
theorem passes_use {name : String} (hf : root.named.find? (·.1 == reference name) =
    some (reference name, rule)) (h : Passes rule j) : Passes (use name) j := by
  intro n
  simp only [use, check, follow, hf]
  exact h.within n

theorem passes_use_expression (h : Passes expression j) : Passes (use "expression") j :=
  passes_use rfl h

theorem passes_use_condition (h : Passes condition j) : Passes (use "condition") j :=
  passes_use rfl h

theorem passes_use_value (h : Passes value j) : Passes (use "value") j :=
  passes_use rfl h

theorem passes_use_step (h : Passes step j) : Passes (use "step") j :=
  passes_use rfl h

theorem passes_use_identifier (h : Passes identifier j) : Passes (use "identifier") j :=
  passes_use rfl h

theorem passes_use_accessControl (h : Passes accessControl j) : Passes (use "accessControl") j :=
  passes_use rfl h

theorem passes_use_varType (h : Passes varType j) : Passes (use "varType") j :=
  passes_use rfl h

/-! ## Rules for all documents -/

theorem checkAll_eq_nil_iff {named : String → Json → List Violation} :
    checkAll named rules j = [] ↔ ∀ rule ∈ rules, rule.check named j = [] := by
  induction rules with
  | nil => simp [checkAll]
  | cons rule rules ih => simp [checkAll, ih]

theorem passes_all (h : ∀ rule ∈ rules, Passes rule j) : Passes (all rules) j := by
  intro n
  rw [check, checkAll_eq_nil_iff]
  exact fun rule hr => h rule hr n

theorem passes_both {first second : Schema} (h : Passes first j) (h' : Passes second j) :
    Passes (all [first, second]) j := by
  refine passes_all fun rule hr => ?_
  simp only [List.mem_cons, List.not_mem_nil, or_false] at hr
  rcases hr with rfl | rfl
  · exact h
  · exact h'

theorem passes_type {kinds : List Kind} (h : kinds.any (·.admits j)) : Passes (type kinds) j := by
  intro n
  simp only [check, h, if_true]

theorem passes_oneOf {values : List Json} (h : values.any j.same) : Passes (oneOf values) j := by
  intro n
  simp only [check, h, if_true]

theorem passes_const {value : Json} (h : j.same value) : Passes (const value) j := by
  intro n
  simp only [check, h, if_true]

theorem passesAny_of_mem {named : String → Json → List Violation} {options : List Schema}
    (hr : rule ∈ options) (h : rule.check named j = []) : passesAny named options j := by
  induction options with
  | nil => simp at hr
  | cons option options ih =>
    obtain rfl | hr := List.mem_cons.1 hr
    · simp [passesAny, h]
    · simp [passesAny, ih hr]

theorem passes_anyOf {options : List Schema} (hr : rule ∈ options) (h : Passes rule j) :
    Passes (anyOf options) j := by
  intro n
  simp only [check, passesAny_of_mem hr (h n), if_true]

theorem passes_when {condition : Schema}
    (h : (∀ n, condition.check (follow n) j ≠ []) ∨ Passes rule j) :
    Passes (when condition rule) j := by
  intro n
  simp only [check]
  split
  · rename_i hc
    rcases h with h | h
    · exact absurd (List.isEmpty_iff.1 hc) (h n)
    · exact h n
  · rfl

/-! ## Texts and numbers -/

theorem passes_text (s : String) : Passes text (.string s) :=
  passes_type rfl

theorem passes_textLike {source s : String} {p : Pattern} (h : p.occursIn s) :
    Passes (textLike source p) (.string s) := by
  refine passes_both (passes_text s) fun n => ?_
  simp only [check, h, if_true]

theorem passes_textOf {s : String} {k : Nat} (h : k ≤ s.length) :
    Passes (textOf k) (.string s) := by
  refine passes_both (passes_text s) fun n => ?_
  simp only [check, h, if_true]

theorem passes_oneOfTexts {s : String} {ss : List String} (h : s ∈ ss) :
    Passes (oneOfTexts ss) (.string s) := by
  refine passes_oneOf (List.any_eq_true.2 ⟨.string s, List.mem_map_of_mem h, ?_⟩)
  simp [Json.same]

theorem passes_textAmong {s : String} {ss : List String} (h : s ∈ ss) :
    Passes (textAmong ss) (.string s) :=
  passes_both (passes_text s) (passes_oneOfTexts h)

theorem passes_integerFrom {m n : Int} (h : m ≤ n) : Passes (integerFrom m) (.ofInt n) := by
  refine passes_both (passes_type rfl) fun k => ?_
  have hc : (Number.int n).compare? (.int m) = some (compare n m) := by
    simp [Number.compare?, Number.binary?, Number.compareBinary]
  have hl : (Number.int n).less (.int m) = false := by
    simp [Number.less, hc, Int.compare_eq_lt, Int.not_lt.2 h]
  simp [Json.ofInt, hl]

/-! ## Arrays -/

theorem check_items {named : String → Json → List Violation} {xs : List Json}
    (hr : rule ≠ nothing) : (items rule).check named (.array xs) =
      xs.zipIdx.flatMap fun (x, i) => (rule.check named x).map (.under (.index i)) := by
  cases rule
  case nothing => exact absurd rfl hr
  all_goals rfl

theorem passes_items {xs : List Json} (hr : rule ≠ nothing) (h : ∀ x ∈ xs, Passes rule x) :
    Passes (items rule) (.array xs) := by
  intro n
  rw [check_items hr, List.flatMap_eq_nil_iff]
  rintro ⟨x, i⟩ hx
  simp [h x (List.fst_mem_of_mem_zipIdx hx) n]

theorem passes_arrayOf {xs : List Json} (hr : rule ≠ nothing) (h : ∀ x ∈ xs, Passes rule x) :
    Passes (arrayOf rule) (.array xs) :=
  passes_both (passes_type rfl) (passes_items hr h)

theorem passes_someOf {xs : List Json} (hr : rule ≠ nothing) (hne : xs ≠ [])
    (h : ∀ x ∈ xs, Passes rule x) : Passes (someOf rule) (.array xs) := by
  refine passes_both (passes_arrayOf hr h) fun n => ?_
  have hl : 1 ≤ xs.length := List.length_pos_iff.2 hne
  simp only [check, hl, if_true]

/-- Some texts pass as an array of texts. -/
theorem passes_texts (ss : List String) : Passes (arrayOf text) (.ofStrings ss) := by
  refine passes_arrayOf (by simp [text]) fun x hx => ?_
  obtain ⟨s, -, rfl⟩ := List.mem_map.1 hx
  exact passes_text s

theorem passes_someTexts {ss : List String} (hne : ss ≠ []) :
    Passes (someOf text) (.ofStrings ss) := by
  refine passes_someOf (by simp [text]) (by simpa using hne) fun x hx => ?_
  obtain ⟨s, -, rfl⟩ := List.mem_map.1 hx
  exact passes_text s

/-! ## Objects -/

theorem mem_of_lookup? {key : String} {v : Json} (h : Json.lookup? key ms = some v) :
    (key, v) ∈ ms := by
  simp only [Json.lookup?, Option.map_eq_some_iff] at h
  obtain ⟨⟨k, w⟩, hf, rfl⟩ := h
  have hk := List.find?_some hf
  simp only [beq_iff_eq] at hk
  exact hk ▸ List.mem_of_find?_eq_some hf

theorem isSome_lookup? {key : String} (h : key ∈ ms.map (·.1)) : (Json.lookup? key ms).isSome := by
  obtain ⟨m, hm, rfl⟩ := List.mem_map.1 h
  simp only [Json.lookup?, Option.isSome_map, List.find?_isSome, beq_iff_eq]
  exact ⟨m, hm, rfl⟩

theorem check_property {named : String → Json → List Violation} {key : String} {v : Json}
    (h : Json.lookup? key ms = some v) :
    (property key rule).check named (.object ms) =
      (rule.check named v).map (.under (.key key)) := by
  simp only [check, h]

theorem passes_property_of {key : String} {v : Json} (hl : Json.lookup? key ms = some v)
    (hv : Passes rule v) : Passes (property key rule) (.object ms) := by
  intro n
  rw [check_property hl, hv n, List.map_nil]

theorem passes_property {key : String} (h : ∀ v, Json.lookup? key ms = some v → Passes rule v) :
    Passes (property key rule) (.object ms) := by
  intro n
  simp only [check]
  split
  · rename_i v hv
    rw [h v hv n, List.map_nil]
  · rfl

theorem check_required {named : String → Json → List Violation} {keys : List String}
    (h : keys ⊆ ms.map (·.1)) : (required keys).check named (.object ms) = [] := by
  simp only [check, List.map_eq_nil_iff, List.filter_eq_nil_iff]
  intro key hk
  have := isSome_lookup? (h hk)
  simp [Option.isSome_iff_ne_none.1 this]

theorem passes_required {keys : List String} (h : keys ⊆ ms.map (·.1)) :
    Passes (required keys) (.object ms) :=
  fun _ => check_required h

theorem checkAll_eq_flatMap {named : String → Json → List Violation} :
    checkAll named rules j = rules.flatMap fun rule => rule.check named j := by
  induction rules with
  | nil => rfl
  | cons rule rules ih => simp [checkAll, ih]

/-- The violations of a record are those of its members, after the required ones that lack. -/
theorem check_record_object {named : String → Json → List Violation} {keys : List String}
    {members : List (String × Schema)} : (record keys members).check named (.object ms) =
      (required keys).check named (.object ms) ++
        members.flatMap fun m => (property m.1 m.2).check named (.object ms) := by
  have ht : (type [.object]).check named (.object ms) = [] := rfl
  simp only [record, check.eq_1, checkAll, ht, List.nil_append, checkAll_eq_flatMap,
    List.flatMap_map]

/-- The violations of a record are those of its members, if the required ones are there. -/
theorem check_record {named : String → Json → List Violation} {keys : List String}
    {members : List (String × Schema)} (hr : keys ⊆ ms.map (·.1)) :
    (record keys members).check named (.object ms) =
      members.flatMap fun m => (property m.1 m.2).check named (.object ms) := by
  rw [check_record_object, check_required hr, List.nil_append]

theorem lookup?_of_mem {key : String} {v : Json} (hn : (ms.map (·.1)).Nodup) (h : (key, v) ∈ ms) :
    Json.lookup? key ms = some v := by
  obtain ⟨w, hw⟩ := Option.isSome_iff_exists.1 (isSome_lookup? (List.mem_map_of_mem h))
  obtain ⟨-, rfl⟩ := Prod.mk.inj (List.inj_on_of_nodup_map hn h (mem_of_lookup? hw) rfl)
  exact hw

/-- The violations of a record that lists the members of an object in their order. -/
theorem check_aligned {named : String → Json → List Violation} {keys : List String}
    {members : List (String × Schema)} (hn : (members.map (·.1)).Nodup)
    (ha : members.map (·.1) = ms.map (·.1)) (hr : keys ⊆ members.map (·.1)) :
    (record keys members).check named (.object ms) =
      (members.zip ms).flatMap fun p => (p.1.2.check named p.2.2).map (.under (.key p.1.1)) := by
  have hl : members.length = ms.length := by simpa using congrArg List.length ha
  rw [check_record (ha ▸ hr)]
  conv_lhs => rw [← List.map_fst_zip (Nat.le_of_eq hl), List.flatMap_map]
  refine List.flatMap_congr fun p hp => check_property (lookup?_of_mem (ha ▸ hn) ?_)
  -- the keys agree at every place
  have hk : p.1.1 = p.2.1 := by
    obtain ⟨i, hi, rfl⟩ := List.getElem_of_mem hp
    have := congrArg (·[i]?) ha
    simp only [List.length_zip] at hi
    simpa [show i < members.length by omega, show i < ms.length by omega] using this
  rw [hk]
  exact (List.of_mem_zip hp).2

/-- Every member passes a rule for its key. -/
def Fit (members : List (String × Schema)) (ms : Json.Members) : Prop :=
  ∀ m ∈ ms, ∃ rule, (m.1, rule) ∈ members ∧ Passes rule m.2

variable {members : List (String × Schema)}

theorem fit_nil : Fit members [] := by
  simp [Fit]

theorem Fit.cons {key : String} {v : Json} (h : Fit members ms)
    (hk : members.find? (·.1 == key) = some (key, rule)) (hv : Passes rule v) :
    Fit members ((key, v) :: ms) := by
  intro m hm
  obtain rfl | hm := List.mem_cons.1 hm
  · exact ⟨rule, List.mem_of_find?_eq_some hk, hv⟩
  · exact h m hm

theorem Fit.append {ms' : Json.Members} (h : Fit members ms) (h' : Fit members ms') :
    Fit members (ms ++ ms') := by
  intro m hm
  rcases List.mem_append.1 hm with hm | hm
  · exact h m hm
  · exact h' m hm

theorem passes_object (ms : Json.Members) : Passes (type [.object]) (.object ms) :=
  passes_type rfl

/-- An object passes if it has the required members and its members pass the rules for them. -/
theorem passes_record {keys : List String} (hn : (members.map (·.1)).Nodup)
    (hr : keys ⊆ ms.map (·.1)) (hf : Fit members ms) :
    Passes (record keys members) (.object ms) := by
  intro n
  rw [check_record hr, List.flatMap_eq_nil_iff]
  rintro ⟨key, rule⟩ hk
  refine passes_property (fun v hv => ?_) n
  obtain ⟨rule', hk', hv⟩ := hf _ (mem_of_lookup? hv)
  -- keys have one rule each
  obtain ⟨-, rfl⟩ := Prod.mk.inj (List.inj_on_of_nodup_map hn hk hk' rfl)
  exact hv

theorem check_others {named : String → Json → List Violation} {known : List String}
    (hr : rule ≠ nothing) : (others known rule).check named (.object ms) =
      (ms.filter fun m => !known.contains m.1).flatMap fun m =>
        (rule.check named m.2).map (.under (.key m.1)) := by
  cases rule
  case nothing => exact absurd rfl hr
  all_goals rfl

theorem passes_mapOf (hr : rule ≠ nothing) (h : ∀ m ∈ ms, Passes rule m.2) :
    Passes (mapOf rule) (.object ms) := by
  refine passes_both (passes_type rfl) fun n => ?_
  rw [check_others hr, List.flatMap_eq_nil_iff]
  intro m hm
  simp [h m ((List.mem_filter.1 hm).1) n]

/-- A rule for one type concerns the documents of this type only. -/
theorem passes_whenType {type own : String} (ht : Json.lookup? "type" ms = some (.string own))
    (h : own = type → ∀ rule ∈ rules, Passes rule (.object ms)) :
    Passes (whenType type rules) (.object ms) := by
  refine passes_when ?_
  by_cases ho : own = type
  · exact .inr (passes_all (h ho))
  · refine .inl fun n => ?_
    simp [ht, Json.same, ho]

end FlowScript.Packaged
