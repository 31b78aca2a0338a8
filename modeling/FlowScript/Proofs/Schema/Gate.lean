import FlowScript.Json.Edit
import FlowScript.Proofs.Schema.Accepts
import FlowScript.Proofs.Schema.Verdict
import FlowScript.Proofs.Step.Shape

/-!
# What the schema accepts as steps

The schema states the form of steps through references, conditional rules and alternatives. What it
accepts are exactly the well-formed documents of steps. The schemas for expressions, conditions and
steps refer to themselves for parts of a document, and so the proofs are by induction on its depth.

## Main statements

* `Packaged.accepts_expression_iff`, `Packaged.accepts_condition_iff`: what steps compute.
* `Packaged.accepts_step_iff`: steps.
* `Packaged.errors_edit_steps_iff`: a document is accepted with a step in place of its steps if and
  only if the step is well formed.
-/
namespace FlowScript.Packaged

open Schema Json

variable {ms : Json.Members} {j : Json}

/-! ## Simple forms -/

theorem accepts_isText : Accepts settled text j ↔ j.IsText :=
  accepts_text

theorem accepts_isSomeText : Accepts settled (textOf 1) j ↔ j.IsSomeText := by
  simp only [accepts_textOf, IsSomeText, Nat.one_le_iff_ne_zero, Ne, String.length_eq_zero_iff]

theorem accepts_isOneOf {ss : List String} : Accepts settled (oneOfTexts ss) j ↔ j.IsOneOf ss :=
  accepts_oneOfTexts

theorem accepts_isVariable : Accepts settled (use "identifier") j ↔ j.IsVariable := by
  simp only [accepts_identifier, identifier, accepts_textLike, identifier_occursIn_iff, IsVariable]

theorem accepts_isCount : Accepts settled (integerFrom 0) j ↔ j.IsCount :=
  accepts_integerFrom

theorem accepts_isArray : Accepts settled (type [.array]) j ↔ j.IsArray := by
  cases j <;> simp [accepts_type, Kind.admits, IsArray]

theorem accepts_isObject : Accepts settled (type [.object]) j ↔ j.IsObject := by
  cases j <;> simp [accepts_type, Kind.admits, IsObject]

theorem accepts_isTexts : Accepts settled (arrayOf text) j ↔ j.IsTexts := by
  simp only [accepts_arrayOf (show text ≠ nothing by simp [text]), accepts_isText, IsTexts]

theorem accepts_isSomeTexts : Accepts settled (someOf text) j ↔ j.IsSomeTexts := by
  simp only [accepts_someOf (show text ≠ nothing by simp [text]), accepts_isText, IsSomeTexts]

theorem accepts_isLiteral :
    Accepts settled (type [.number, .boolean, .string]) j ↔ j.isLiteral := by
  cases j <;> simp [accepts_type, Kind.admits, isLiteral]

/-! ## Trees -/

/-- A tree is accepted by the rules for its type. -/
theorem accepts_tree {types : List String} {rules : List Schema} :
    Accepts settled (tree types rules) j ↔ ∃ ms own, j = .object ms ∧ own ∈ types ∧
      lookup? "type" ms = some (.string own) ∧
        ∀ rule ∈ rules, Accepts settled rule (.object ms) := by
  simp only [tree, accepts_all, List.forall_mem_cons, accepts_record, List.not_mem_nil,
    false_implies, implies_true, and_true, accepts_oneOfTexts]
  constructor
  · rintro ⟨⟨ms, rfl, hs, ht⟩, hr⟩
    obtain ⟨v, hv⟩ := Option.isSome_iff_exists.1 hs
    obtain ⟨own, ho, rfl⟩ := ht v hv
    exact ⟨ms, own, rfl, ho, hv, hr⟩
  · rintro ⟨ms, own, rfl, ho, ht, hr⟩
    refine ⟨⟨ms, rfl, by simp [ht], fun v hv => ⟨own, ho, ?_⟩⟩, hr⟩
    exact Option.some.inj (hv.symm.trans ht)

/-- The members that a tree of a type requires, with their rules. -/
theorem accepts_fields {type own : String} {keys : List String} {rules : List Schema}
    (ht : lookup? "type" ms = some (.string own)) :
    Accepts settled (whenType type (.required keys :: rules)) (.object ms) ↔
      (own = type → (∀ key ∈ keys, (lookup? key ms).isSome) ∧
        ∀ rule ∈ rules, Accepts settled rule (.object ms)) := by
  rw [accepts_whenType ht, List.forall_mem_cons, accepts_required]

/-- What an expression of each type has. The expressions inside it are what the schema accepts. -/
theorem accepts_expression_cases : Accepts settled (use "expression") j ↔
    ∃ ms type, j = .object ms ∧ lookup? "type" ms = some (.string type) ∧
      (type = "Literal" ∧ Has ms "value" (·.isLiteral) ∨
        type = "VariableRef" ∧ Has ms "name" IsSomeText ∨
        type = "BinaryOp" ∧ Has ms "op" (IsOneOf ["add", "subtract", "multiply", "divide"]) ∧
          Has ms "left" (Accepts settled (use "expression")) ∧
          Has ms "right" (Accepts settled (use "expression")) ∨
        type = "Classify" ∧ Has ms "model" IsText ∧
          Has ms "input" (Accepts settled (use "expression"))) := by
  rw [accepts_expression, expression, accepts_tree]
  refine exists₂_congr fun ms type => and_congr_right fun _ => ?_
  rw [and_left_comm]
  refine and_congr_right fun ht => ?_
  simp only [List.forall_mem_cons, accepts_fields ht, List.not_mem_nil, false_implies, implies_true,
    and_true, accepts_property, accepts_isLiteral, accepts_isSomeText, accepts_isOneOf,
    accepts_isText]
  simp only [List.mem_cons, List.not_mem_nil, or_false, has_iff, May]
  constructor
  · rintro ⟨rfl | rfl | rfl | rfl, h⟩ <;> grind
  · rintro (⟨rfl, h⟩ | ⟨rfl, h⟩ | ⟨rfl, h⟩ | ⟨rfl, h⟩) <;> grind

/-- **What the schema accepts as expressions.** -/
theorem accepts_expression_iff : Accepts settled (use "expression") j ↔ j.IsExpression := by
  induction hk : j.depth using Nat.strongRecOn generalizing j with
  | ind k ih =>
    subst hk
    -- a member is less deep than the object
    have hless {ms : Members} {key : String} {v : Json} (hj : j = .object ms)
        (hv : lookup? key ms = some v) : Accepts settled (use "expression") v ↔ v.IsExpression :=
      ih _ (hj ▸ depth_lt_object (mem_of_lookup? hv)) rfl
    rw [accepts_expression_cases]
    constructor
    · rintro ⟨ms, type, hj, ht, h⟩
      rw [hj]
      rcases h with ⟨rfl, hv⟩ | ⟨rfl, hn⟩ | ⟨rfl, ho, ⟨left, hl, hil⟩, right, hr, hir⟩ |
        ⟨rfl, hm, input, hi, hii⟩
      · exact .literal ht hv
      · exact .var ht hn
      · exact .binary ht ho hl hr ((hless hj hl).1 hil) ((hless hj hr).1 hir)
      · exact .classify ht hm hi ((hless hj hi).1 hii)
    · intro h
      cases h with
      | literal ht hv => exact ⟨_, _, rfl, ht, .inl ⟨rfl, hv⟩⟩
      | var ht hn => exact ⟨_, _, rfl, ht, .inr (.inl ⟨rfl, hn⟩)⟩
      | binary ht ho hl hr hil hir =>
        exact ⟨_, _, rfl, ht, .inr (.inr (.inl ⟨rfl, ho, ⟨_, hl, (hless rfl hl).2 hil⟩,
          _, hr, (hless rfl hr).2 hir⟩))⟩
      | classify ht hm hi hii =>
        exact ⟨_, _, rfl, ht, .inr (.inr (.inr ⟨rfl, hm, _, hi, (hless rfl hi).2 hii⟩))⟩

/-- The members that the trees of some types require, with their rules. -/
theorem accepts_fields_among {types : List String} {own : String} {keys : List String}
    {rules : List Schema} (ht : lookup? "type" ms = some (.string own)) :
    Accepts settled (.when (.property "type" (oneOfTexts types))
      (.all (.required keys :: rules))) (.object ms) ↔
      (own ∈ types → (∀ key ∈ keys, (lookup? key ms).isSome) ∧
        ∀ rule ∈ rules, Accepts settled rule (.object ms)) := by
  have hc : Accepts settled (property "type" (oneOfTexts types)) (.object ms) ↔ own ∈ types := by
    simp [accepts_property, ht, accepts_oneOfTexts]
  rw [accepts_when, hc, accepts_all, List.forall_mem_cons, accepts_required]

/-- What a condition of each type has. The conditions inside it are what the schema accepts. -/
theorem accepts_condition_cases : Accepts settled (use "condition") j ↔
    ∃ ms type, j = .object ms ∧ lookup? "type" ms = some (.string type) ∧
      (type = "Compare" ∧
          Has ms "op" (IsOneOf [">=", "<=", "===", "!==", "==", "!=", ">", "<"]) ∧
          Has ms "left" IsExpression ∧ Has ms "right" IsExpression ∨
        type ∈ ["And", "Or"] ∧ Has ms "left" (Accepts settled (use "condition")) ∧
          Has ms "right" (Accepts settled (use "condition")) ∨
        type = "RegexContains" ∧ Has ms "input" IsText ∧ Has ms "pattern" IsText) := by
  rw [accepts_condition, condition, accepts_tree]
  refine exists₂_congr fun ms type => and_congr_right fun _ => ?_
  rw [and_left_comm]
  refine and_congr_right fun ht => ?_
  simp only [List.forall_mem_cons, accepts_fields ht, accepts_fields_among ht, List.not_mem_nil,
    false_implies, implies_true, and_true, accepts_property, accepts_expression_iff,
    accepts_isOneOf, accepts_isText]
  simp only [List.mem_cons, List.not_mem_nil, or_false, has_iff, May]
  constructor
  · rintro ⟨rfl | rfl | rfl | rfl, h⟩ <;> grind
  · rintro (⟨rfl, h⟩ | ⟨rfl | rfl, h⟩ | ⟨rfl, h⟩) <;> grind

/-- **What the schema accepts as conditions.** -/
theorem accepts_condition_iff : Accepts settled (use "condition") j ↔ j.IsCondition := by
  induction hk : j.depth using Nat.strongRecOn generalizing j with
  | ind k ih =>
    subst hk
    have hless {ms : Members} {key : String} {v : Json} (hj : j = .object ms)
        (hv : lookup? key ms = some v) : Accepts settled (use "condition") v ↔ v.IsCondition :=
      ih _ (hj ▸ depth_lt_object (mem_of_lookup? hv)) rfl
    rw [accepts_condition_cases]
    constructor
    · rintro ⟨ms, type, hj, ht, h⟩
      rw [hj]
      rcases h with ⟨rfl, ho, hl, hr⟩ | ⟨hj', ⟨left, hl, hil⟩, right, hr, hir⟩ | ⟨rfl, hi, hp⟩
      · exact .compare ht ho hl hr
      · exact .join ⟨_, ht, type, hj', rfl⟩ hl hr ((hless hj hl).1 hil) ((hless hj hr).1 hir)
      · exact .contains ht hi hp
    · intro h
      cases h with
      | compare ht ho hl hr => exact ⟨_, _, rfl, ht, .inl ⟨rfl, ho, hl, hr⟩⟩
      | join ht hl hr hil hir =>
        obtain ⟨_, ht, type, hj, rfl⟩ := ht
        exact ⟨_, _, rfl, ht, .inr (.inl ⟨hj, ⟨_, hl, (hless rfl hl).2 hil⟩,
          _, hr, (hless rfl hr).2 hir⟩)⟩
      | contains ht hi hp => exact ⟨_, _, rfl, ht, .inr (.inr ⟨rfl, hi, hp⟩)⟩

theorem accepts_value_iff :
    Accepts settled (use "value") j ↔ j.IsExpression ∨ j.IsCondition := by
  rw [accepts_value, value, accepts_anyOf, List.exists_mem_cons_iff, List.exists_mem_cons_iff,
    accepts_expression_iff, accepts_condition_iff]
  simp

/-! ## Records -/

theorem accepts_isAccess : Accepts settled (use "accessControl") j ↔ j.IsAccess := by
  simp only [accepts_accessControl, accessControl, accepts_record, List.forall_mem_cons,
    accepts_isSomeTexts, IsAccess, has_iff, May]
  grind

theorem accepts_isDuration : Accepts settled (record ["unit", "value"]
    [("unit", .const (.string "seconds")), ("value", integerFrom 0)]) j ↔ j.IsDuration := by
  simp only [accepts_record, List.forall_mem_cons, accepts_const_string, accepts_isCount,
    IsDuration, has_iff, May]
  grind

theorem accepts_isComponent : Accepts settled (record ["type"]
    [("type", text), ("props", .type [.object]), ("children", .type [.array]),
      ("hooks", .type [.array])]) j ↔ j.IsComponent := by
  simp only [accepts_record, List.forall_mem_cons, accepts_isText, accepts_isObject,
    accepts_isArray, IsComponent, has_iff, May]
  grind

theorem accepts_isState : Accepts settled (record ["name", "initial"]
    [("name", text), ("initial", use "expression")]) j ↔ j.IsState := by
  simp only [accepts_record, List.forall_mem_cons, accepts_isText, accepts_expression_iff,
    IsState, has_iff, May]
  grind

theorem accepts_isStyles : Accepts settled (record ["properties"]
    [("selector", text), ("properties", arrayOf text), ("framework", text)]) j ↔ j.IsStyles := by
  simp only [accepts_record, List.forall_mem_cons, accepts_isText, accepts_isTexts, IsStyles,
    has_iff, May]
  grind

theorem accepts_isEvent : Accepts settled (record ["type", "handler"]
    [("type", text), ("handler", text)]) j ↔ j.IsEvent := by
  simp only [accepts_record, List.forall_mem_cons, accepts_isText, IsEvent, has_iff, May]
  grind

/-! ## Steps -/

/-- The types of steps are those of the schema, with the same required members. -/
theorem stepFields?_eq_some_iff {type : String} {fields : List String} :
    stepFields? type = some fields ↔ (type, fields) ∈ stepTypes := by
  constructor
  · intro h
    unfold stepFields? at h
    split at h <;> simp_all [stepTypes]
  · intro h
    simp only [stepTypes, List.mem_cons, Prod.mk.injEq, List.not_mem_nil, or_false] at h
    rcases h with ⟨rfl, rfl⟩ | ⟨rfl, rfl⟩ | ⟨rfl, rfl⟩ | ⟨rfl, rfl⟩ | ⟨rfl, rfl⟩ | ⟨rfl, rfl⟩ |
      ⟨rfl, rfl⟩ | ⟨rfl, rfl⟩ | ⟨rfl, rfl⟩ | ⟨rfl, rfl⟩ | ⟨rfl, rfl⟩ | ⟨rfl, rfl⟩ <;> rfl

/-- The rules that come with the type of a step ask for the members that the type requires. -/
theorem accepts_typeRules {own : String} (ht : lookup? "type" ms = some (.string own)) :
    (∀ rule ∈ (stepTypes.filter (!·.2.isEmpty)).map fun t => whenType t.1 [.required t.2],
      Accepts settled rule (.object ms)) ↔
    ∀ fields, stepFields? own = some fields → ∀ key ∈ fields, (lookup? key ms).isSome := by
  simp only [List.forall_mem_map, accepts_fields ht, stepFields?_eq_some_iff]
  constructor
  · intro h fields hf key hk
    have hne : (own, fields) ∈ stepTypes.filter (!·.2.isEmpty) :=
      List.mem_filter.2 ⟨hf, by simpa using List.ne_nil_of_mem hk⟩
    exact (h _ hne rfl).1 key hk
  · rintro h ⟨type, fields⟩ hf rfl
    exact ⟨h fields (List.mem_filter.1 hf).1, by simp⟩

theorem accepts_isStepName : Accepts settled (textLike "^step[0-9]+$" stepPattern) j ↔
    ∃ s, j = .string s ∧ IsStepName s := by
  simp only [accepts_textLike, step_occursIn_iff]

/-- The members of a step are accepted if they are of their forms, which for the steps inside is
still to be said. -/
theorem accepts_stepMembers :
    (∀ m ∈ stepMembers, ∀ v, lookup? m.1 ms = some v → Accepts settled m.2 v) ↔
      (May ms "id" (fun v => ∃ s, v = .string s ∧ IsStepName s) ∧
        May ms "type" (IsOneOf (stepTypes.map (·.1))) ∧ May ms "nl_phrase" IsText ∧
        May ms "nl_examples" IsSomeTexts ∧ May ms "access_control" IsAccess) ∧
      HasForms ms ∧
      ∀ key ∈ branchKeys, May ms key (Accepts settled (arrayOf (use "step"))) := by
  simp only [stepMembers, List.forall_mem_cons, List.not_mem_nil, false_implies, implies_true,
    and_true, accepts_isStepName, accepts_textAmong, accepts_isText, accepts_isSomeTexts,
    accepts_isAccess, accepts_isVariable, accepts_value_iff, accepts_condition_iff,
    accepts_isDuration, accepts_isSomeText, accepts_expression_iff, accepts_isComponent,
    accepts_isState, accepts_isStyles, accepts_isEvent, branchKeys]
  constructor
  · rintro ⟨hid, ht, hp, he, ha, htarget, hv, hc, hthen, helse, hb, hd, hep, hmo, hi, hco, hs,
      hst, hev⟩
    exact ⟨⟨hid, ht, hp, he, ha⟩, ⟨htarget, hv, hc, hd, hep, hmo, hi, hco, hs, hst, hev⟩,
      hthen, helse, hb⟩
  · rintro ⟨⟨hid, ht, hp, he, ha⟩, ⟨htarget, hv, hc, hd, hep, hmo, hi, hco, hs, hst, hev⟩,
      hthen, helse, hb⟩
    exact ⟨hid, ht, hp, he, ha, htarget, hv, hc, hthen, helse, hb, hd, hep, hmo, hi, hco, hs,
      hst, hev⟩

/-- **What the schema accepts as steps.** -/
theorem accepts_step_iff : Accepts settled (use "step") j ↔ j.IsStep := by
  induction hk : j.depth using Nat.strongRecOn generalizing j with
  | ind k ih =>
    subst hk
    have hsteps : use "step" ≠ nothing := by simp [use]
    rw [accepts_step, step, accepts_all, List.forall_mem_cons, accepts_record]
    simp only [accepts_stepMembers, List.forall_mem_cons]
    constructor
    · rintro ⟨⟨ms, rfl, ⟨hid, ht, hp, he, ha, -⟩, ⟨mid, mt, mp, me, ma⟩, hf, hb⟩, hr⟩
      obtain ⟨_, htype, own, hown, rfl⟩ := has_iff.2 ⟨ht, mt⟩
      obtain ⟨⟨type, fields⟩, hmem, rfl⟩ := List.mem_map.1 hown
      have hknown := stepFields?_eq_some_iff.2 hmem
      refine .intro ⟨has_iff.2 ⟨hid, mid⟩, has_iff.2 ⟨hp, mp⟩, has_iff.2 ⟨he, me⟩,
        has_iff.2 ⟨ha, ma⟩⟩ htype hknown ((accepts_typeRules htype).1 hr _ hknown) hf ?_ ?_
      · intro key hkey v hv
        obtain ⟨xs, rfl, -⟩ := (accepts_arrayOf hsteps).1 (hb key hkey v hv)
        exact ⟨xs, rfl⟩
      · intro key hkey xs hxs x hx
        obtain ⟨ys, hys, hacc⟩ := (accepts_arrayOf hsteps).1 (hb key hkey _ hxs)
        cases hys
        have hlt := Nat.lt_trans (depth_lt_array hx) (depth_lt_object (mem_of_lookup? hxs))
        exact (ih _ hlt rfl).1 (hacc x hx)
    · rintro ⟨hd, htype, hknown, hr, hf, ha, hi⟩
      obtain ⟨hid, mid⟩ := has_iff.1 hd.id
      obtain ⟨hp, mp⟩ := has_iff.1 hd.phrase
      obtain ⟨he, me⟩ := has_iff.1 hd.examples
      obtain ⟨hac, mac⟩ := has_iff.1 hd.access
      have hmem := List.mem_map_of_mem (f := (·.1)) (stepFields?_eq_some_iff.1 hknown)
      have mt : May _ "type" (IsOneOf (stepTypes.map (·.1))) := fun v hv =>
        ⟨_, hmem, Option.some.inj (hv.symm.trans htype)⟩
      refine ⟨⟨_, rfl, ⟨hid, by simp [htype], hp, he, hac, by simp⟩, ⟨mid, mt, mp, me, mac⟩, hf,
        fun key hkey v hv => ?_⟩, (accepts_typeRules htype).2 fun fields hfields => ?_⟩
      · obtain ⟨xs, rfl⟩ := ha key hkey v hv
        refine (accepts_arrayOf hsteps).2 ⟨xs, rfl, fun x hx => ?_⟩
        have hlt := Nat.lt_trans (depth_lt_array hx) (depth_lt_object (mem_of_lookup? hv))
        exact (ih _ hlt rfl).2 (hi key hkey xs hv x hx)
      · rwa [← Option.some.inj (hknown.symm.trans hfields)]

/-! ## Documents -/

/-- A document has no errors if the schema accepts it. -/
theorem errors_eq_nil_iff : root.errors j = [] ↔ Accepts settled workflow j := by
  rw [Root.errors_eq_listed, Report.listed_eq_nil_iff, List.map_eq_nil_iff, Root.found,
    checkWithin_eq_settled, Accepts]

theorem accepts_oneStep {v : Json} :
    Accepts settled (someOf (use "step")) (.array [v]) ↔ v.IsStep := by
  simp [accepts_someOf (show use "step" ≠ nothing by simp [use]), accepts_step_iff]

/-- **The gate.** A document that the schema accepts is accepted with any value in place of its
steps if and only if the value is a well-formed step. -/
theorem errors_edit_steps_iff {document v : Json} (h : root.errors document = []) :
    root.errors (document.edit (.set [.key "steps"] (.array [v]))) = [] ↔ v.IsStep := by
  rw [errors_eq_nil_iff, workflow, accepts_record] at h
  obtain ⟨ms, rfl, hr, hm⟩ := h
  have he : (object ms).edit (.set [.key "steps"] (.array [v])) =
      .object (setMember "steps" (.array [v]) ms) := rfl
  rw [he, errors_eq_nil_iff, workflow, accepts_record_object]
  constructor
  · rintro ⟨-, hm⟩
    exact accepts_oneStep.1 (hm ("steps", someOf (use "step")) (by simp) _
      (lookup?_setMember_self _ _ _))
  · intro hv
    refine ⟨fun key hk => ?_, fun m hmem w hw => ?_⟩
    · by_cases hkey : key = "steps"
      · simp [hkey]
      · rw [lookup?_setMember_of_ne hkey]
        exact hr key hk
    · by_cases hkey : m.1 = "steps"
      · have hrule : m.2 = someOf (use "step") := by
          simp only [List.mem_cons, List.not_mem_nil, or_false] at hmem
          rcases hmem with rfl | rfl | rfl | rfl | rfl | rfl | rfl | rfl <;> simp at hkey ⊢
        rw [hkey, lookup?_setMember_self, Option.some.injEq] at hw
        rw [hrule, ← hw]
        exact accepts_oneStep.2 hv
      · rw [lookup?_setMember_of_ne hkey] at hw
        exact hm m hmem w hw

/-- A loop over a step that does nothing in particular. -/
def idleLoop : Step :=
  .loop (.of "step1" "while x" "" [] .execute) (.contains "x" "y") [.single "step2" .plain "idle"]

/-- A step inside a loop does not slip through: it is of no type. -/
theorem errors_of_idleLoop :
    let document := (ofSteps "0123456789abcdef0123456789abcdef" [.single "step1" .leave ""]).toJson
      {} "2024-01-02T03:04:05Z"
    root.errors document = [] ∧
      root.errors (document.edit (.set [.key "steps"] (.array [idleLoop.toJson]))) ≠ [] := by
  have hleave : Step.AllWellFormed [.single "step1" .leave ""] :=
    Step.allWellFormed_singleton.2
      (Step.wellFormed_single (n := 1) (by decide) (show Action.leave.WellFormed from trivial) "")
  have hseed : IsSeed "0123456789abcdef0123456789abcdef" := by decide
  have haccepted := errors_ofSteps hseed hleave (by simp) "2024-01-02T03:04:05Z"
  refine ⟨haccepted, fun h => ?_⟩
  have hloop : idleLoop.toJson.IsStep := (errors_edit_steps_iff haccepted).1 h
  obtain ⟨-, -, -, -, -, -, inside⟩ := hloop
  have hidle := inside "body" (by decide) _ rfl _ (.head _)
  obtain ⟨-, htype, hknown, -, -, -, -⟩ := hidle
  cases htype
  simp [stepFields?, Action.type] at hknown

end FlowScript.Packaged
