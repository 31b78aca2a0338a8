import FlowScript.Proofs.Schema.Passes
import FlowScript.Proofs.Schema.Patterns
import FlowScript.Proofs.Step.WellFormed

/-!
# Well-formed steps pass the schema

The documents of well-formed expressions, conditions and steps pass the named schemas for them. The
schemas refer to themselves where expressions, conditions and steps lie inside each other, and so
the proofs are by induction on these.

## Main statements

* `Packaged.passes_expression`, `Packaged.passes_condition`, `Packaged.passes_value`: what steps
  compute.
* `Packaged.fit_action`: the members that are an action's own.
* `Packaged.passes_step`: steps together with the steps inside them.
-/
namespace FlowScript.Packaged

open Schema

variable {ms : Json.Members}

/-! ## Trees -/

theorem passes_tree {types : List String} {rules : List Schema} {own : String}
    (ht : Json.lookup? "type" ms = some (.string own)) (ho : own ∈ types)
    (hr : ∀ rule ∈ rules, Passes rule (.object ms)) : Passes (tree types rules) (.object ms) := by
  have hk : ["type"] ⊆ ms.map (·.1) := by
    simpa using ⟨_, mem_of_lookup? ht⟩
  refine passes_all fun rule hm => ?_
  obtain rfl | hm := List.mem_cons.1 hm
  · intro n
    rw [check_record hk, List.flatMap_singleton, check_property ht, passes_oneOfTexts ho n,
      List.map_nil]
  · exact hr rule hm

/-- A rule for another type does not concern the document. -/
theorem passes_whenType_of_ne {type own : String} {rules : List Schema}
    (ht : Json.lookup? "type" ms = some (.string own)) (hne : own ≠ type) :
    Passes (whenType type rules) (.object ms) :=
  passes_whenType ht fun h => absurd h hne

theorem passes_literal {v : Json} (h : v.isLiteral) :
    Passes (.type [.number, .boolean, .string]) v := by
  cases v <;> first | exact passes_type rfl | simp [Json.isLiteral] at h

theorem passes_expression {e : Expr} (h : e.WellFormed) : Passes expression e.toJson := by
  induction e with
  | literal v =>
    refine passes_tree rfl (by decide) ?_
    simp only [List.forall_mem_cons]
    refine ⟨passes_whenType rfl fun _ => ?_, passes_whenType_of_ne rfl (by decide),
      passes_whenType_of_ne rfl (by decide), passes_whenType_of_ne rfl (by decide), by simp⟩
    simp only [List.forall_mem_cons]
    exact ⟨passes_required (by simp), passes_property_of rfl (passes_literal h), by simp⟩
  | var name =>
    refine passes_tree rfl (by decide) ?_
    simp only [List.forall_mem_cons]
    refine ⟨passes_whenType_of_ne rfl (by decide), passes_whenType rfl fun _ => ?_,
      passes_whenType_of_ne rfl (by decide), passes_whenType_of_ne rfl (by decide), by simp⟩
    simp only [List.forall_mem_cons]
    refine ⟨passes_required (by simp), passes_property_of rfl (passes_textOf ?_), by simp⟩
    exact Nat.pos_of_ne_zero (by simpa [Expr.WellFormed] using h)
  | binary op l r ihl ihr =>
    refine passes_tree rfl (by decide) ?_
    simp only [List.forall_mem_cons]
    refine ⟨passes_whenType_of_ne rfl (by decide), passes_whenType_of_ne rfl (by decide),
      passes_whenType rfl fun _ => ?_, passes_whenType_of_ne rfl (by decide), by simp⟩
    simp only [List.forall_mem_cons]
    refine ⟨passes_required (by simp), passes_property_of rfl ?_,
      passes_property_of rfl (passes_use_expression (ihl h.1)),
      passes_property_of rfl (passes_use_expression (ihr h.2)), by simp⟩
    exact passes_oneOfTexts (by cases op <;> decide)
  | classify model input ih =>
    refine passes_tree rfl (by decide) ?_
    simp only [List.forall_mem_cons]
    refine ⟨passes_whenType_of_ne rfl (by decide), passes_whenType_of_ne rfl (by decide),
      passes_whenType_of_ne rfl (by decide), passes_whenType rfl fun _ => ?_, by simp⟩
    simp only [List.forall_mem_cons]
    exact ⟨passes_required (by simp), passes_property_of rfl (passes_text model),
      passes_property_of rfl (passes_use_expression (ih h)), by simp⟩

theorem passes_condition {c : Condition} (h : c.WellFormed) : Passes condition c.toJson := by
  induction c with
  | compare l r s =>
    refine passes_tree rfl (by decide) ?_
    simp only [List.forall_mem_cons]
    refine ⟨passes_whenType rfl fun _ => ?_, passes_when (.inl fun n => ?_),
      passes_whenType_of_ne rfl (by decide), by simp⟩
    · simp only [List.forall_mem_cons]
      refine ⟨passes_required (by simp), passes_property_of rfl ?_,
        passes_property_of rfl (passes_use_expression (passes_expression h.1)),
        passes_property_of rfl (passes_use_expression (passes_expression h.2)), by simp⟩
      exact passes_oneOfTexts (by cases r <;> decide)
    · rw [check_property rfl]
      simp [check, oneOfTexts, Json.same]
  | join k l r ihl ihr =>
    cases k <;>
    · refine passes_tree rfl (by decide) ?_
      simp only [List.forall_mem_cons]
      refine ⟨passes_whenType_of_ne rfl (by decide), passes_when (.inr (passes_all ?_)),
        passes_whenType_of_ne rfl (by decide), by simp⟩
      simp only [List.forall_mem_cons]
      exact ⟨passes_required (by simp),
        passes_property_of rfl (passes_use_condition (ihl h.1)),
        passes_property_of rfl (passes_use_condition (ihr h.2)), by simp⟩
  | contains input piece =>
    refine passes_tree rfl (by decide) ?_
    simp only [List.forall_mem_cons]
    refine ⟨passes_whenType_of_ne rfl (by decide), passes_when (.inl fun n => ?_),
      passes_whenType rfl fun _ => ?_, by simp⟩
    · rw [check_property rfl]
      simp [check, oneOfTexts, Json.same]
    · simp only [List.forall_mem_cons]
      exact ⟨passes_required (by simp), passes_property_of rfl (passes_text input),
        passes_property_of rfl (passes_text _), by simp⟩

theorem passes_value {v : Value} (h : v.WellFormed) : Passes value v.toJson := by
  cases v with
  | expr e => exact passes_anyOf (by simp) (passes_use_expression (passes_expression h))
  | cond c =>
    exact passes_anyOf (List.mem_cons_of_mem _ (List.mem_singleton.2 rfl))
      (passes_use_condition (passes_condition h))

/-! ## Steps -/

theorem passes_accessControl {a : Access} (h : a.WellFormed) : Passes accessControl a.toJson := by
  refine passes_record (by decide) (by simp) ?_
  exact (fit_nil.cons rfl (passes_someTexts h.2)).cons rfl (passes_someTexts h.1)

theorem nodup_stepMembers : (stepMembers.map (·.1)).Nodup := by
  decide

theorem nodup_stepTypes : (stepTypes.map (·.1)).Nodup := by
  decide

/-- The descriptive part of a step. -/
theorem fit_info {i : Step.Info} (h : i.WellFormed) : Fit stepMembers i.members := by
  have ha := passes_use_accessControl (passes_accessControl h.access)
  exact ((fit_nil.cons rfl ha).cons rfl
    (passes_someTexts h.examples)).cons rfl (passes_text i.phrase)

/-- A step with a known type and the members that this type requires passes if its own members
do. -/
theorem passes_document {i : Step.Info} {type : String} {keys : List String} {own : Json.Members}
    (hi : i.WellFormed) (ht : (type, keys) ∈ stepTypes) (hk : keys ⊆ own.map (·.1))
    (ho : Fit stepMembers own) : Passes step (Step.document i type own) := by
  have hid : Passes (textLike "^step[0-9]+$" stepPattern) (.string i.id) := by
    obtain ⟨n, hn, hid⟩ := hi.id
    rw [hid]
    exact passes_textLike (step_occursIn_iff.2 (isStepName_stepId hn))
  refine passes_all fun rule hm => ?_
  obtain rfl | hm := List.mem_cons.1 hm
  · refine passes_record nodup_stepMembers (by simp [Step.Info.members]) ?_
    have hmem : type ∈ stepTypes.map (·.1) := List.mem_map_of_mem ht
    exact ((ho.append (fit_info hi)).cons rfl (passes_textAmong hmem)).cons
      rfl hid
  · obtain ⟨t, hf, rfl⟩ := List.mem_map.1 hm
    refine passes_whenType rfl fun he => ?_
    obtain rfl := List.inj_on_of_nodup_map nodup_stepTypes (List.mem_filter.1 hf).1 ht he.symm
    simp only [List.forall_mem_cons]
    refine ⟨passes_required fun key hkey => ?_, by simp⟩
    simp only [List.map_cons, List.map_append, List.mem_cons, List.mem_append]
    exact .inl (.inr (.inr (hk hkey)))

/-- The members that are an action's own. -/
theorem fit_action {a : Action} (h : a.WellFormed) : Fit stepMembers a.members := by
  have hid : ∀ {name : String}, isIdentifier name → Passes (use "identifier") (.string name) :=
    fun h => passes_use_identifier (passes_textLike (identifier_occursIn_iff.2 h))
  have htext : ∀ {s : String}, s ≠ "" → Passes (textOf 1) (.string s) :=
    fun h => passes_textOf (Nat.pos_of_ne_zero (by simpa using h))
  have hexpr : ∀ {t : Tree}, t.IsExpr → Passes (use "expression") t.toJson := by
    rintro _ ⟨e, he, rfl⟩
    exact passes_use_expression (passes_expression he)
  cases a with
  | set target v =>
    have hv := passes_use_value (passes_value h.2)
    exact (fit_nil.cons rfl hv).cons rfl (hid h.1)
  | wait seconds =>
    obtain ⟨n, hn, rfl⟩ := h
    refine fit_nil.cons rfl (passes_record (by decide) (by simp) ?_)
    exact (fit_nil.cons rfl (passes_integerFrom hn)).cons rfl (passes_const rfl)
  | ret v => exact fit_nil.cons rfl (passes_use_value (passes_value h))
  | leave => exact fit_nil
  | call target endpoint =>
    exact (fit_nil.cons rfl (htext h.2)).cons rfl (hid h.1)
  | analyze model input target =>
    obtain ⟨hm, hi, ht⟩ := h
    exact ((fit_nil.cons rfl (hid ht)).cons rfl
      (hexpr hi)).cons rfl (htext hm)
  | render component target props =>
    refine (fit_nil.cons rfl (hid h)).cons rfl (passes_record (by decide) (by simp) ?_)
    exact (((fit_nil.cons rfl (passes_type rfl)).cons rfl (passes_type rfl)).cons rfl
      (passes_type rfl)).cons rfl (passes_text component)
  | state name initial =>
    refine fit_nil.cons rfl (passes_record (by decide) (by simp) ?_)
    exact (fit_nil.cons rfl (hexpr h)).cons rfl (passes_text name)
  | style selector properties framework =>
    refine fit_nil.cons rfl (passes_record (by decide) (by simp) ?_)
    exact ((fit_nil.cons rfl (passes_text framework)).cons rfl (passes_texts properties)).cons rfl
      (passes_text selector)
  | listen event handler =>
    refine fit_nil.cons rfl (passes_record (by decide) (by simp) ?_)
    exact (fit_nil.cons rfl (passes_text handler)).cons rfl (passes_text event)
  | plain => exact h.elim

/-- The schema requires the members that an action has. -/
theorem mem_stepTypes {a : Action} (h : a.WellFormed) :
    (a.type, a.members.map (·.1)) ∈ stepTypes := by
  cases a with
  | plain => exact h.elim
  | _ => simp [Action.type, Action.members, stepTypes]

mutual

theorem passes_step : (s : Step) → s.WellFormed → Passes step s.toJson
  | .act i a, h =>
    passes_document h.1 (mem_stepTypes h.2) (List.Subset.refl _) (fit_action h.2)
  | .branch i c yes no, h => by
    obtain ⟨hi, hc, hy, ho⟩ := h
    have ht : ("if", ["condition", "then"]) ∈ stepTypes := by decide
    refine passes_document hi ht (by simp) ?_
    have hyes := passes_arrayOf (by simp [use]) (passes_steps yes hy)
    have hno := passes_arrayOf (by simp [use]) (passes_steps no ho)
    have hcond := passes_use_condition (passes_condition hc)
    exact ((fit_nil.cons rfl hno).cons rfl hyes).cons rfl hcond
  | .loop i c body, h => by
    obtain ⟨hi, hc, hb⟩ := h
    have ht : ("while", ["condition", "body"]) ∈ stepTypes := by decide
    refine passes_document hi ht (by simp) ?_
    have hbody := passes_arrayOf (by simp [use]) (passes_steps body hb)
    exact (fit_nil.cons rfl hbody).cons rfl (passes_use_condition (passes_condition hc))
termination_by structural s => s

/-- Steps pass together with the steps inside them. -/
theorem passes_steps : (ss : List Step) → Step.AllWellFormed ss →
    ∀ j ∈ Step.toJsons ss, Passes (use "step") j
  | [], _ => by simp [Step.toJsons]
  | s :: ss, h => by
    intro j hj
    obtain rfl | hj := List.mem_cons.1 hj
    · exact passes_use_step (passes_step s h.1)
    · exact passes_steps ss h.2 j hj
termination_by structural ss => ss

end

end FlowScript.Packaged
