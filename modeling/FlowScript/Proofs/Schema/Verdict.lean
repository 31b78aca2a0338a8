import FlowScript.Proofs.Schema.Listed
import FlowScript.Proofs.Schema.Settled
import FlowScript.Proofs.Schema.Steps
import FlowScript.Proofs.Session.WellFormed
import FlowScript.Workflow.Compile

/-!
# What the schema says about workflows

The document of a well-formed workflow can violate the schema in two ways only: the options hold a
text that the schema does not allow, or there are no steps. Errors are listed in the order of their
paths, and the steps come last, so that the whole list is known from the options and the steps.

## Main definitions

* `Packaged.optionViolations`, `Packaged.optionErrors`: what comes from the options.
* `Packaged.stepErrors`: what comes from a lack of steps.

## Main statements

* `Packaged.check_workflow`: the violations of a workflow.
* `Packaged.errors_eq`: the errors of a workflow, in their order.
-/
namespace FlowScript.Packaged

open Schema

variable {w : Workflow} {o : Options} {stamp : String}

/-! ## Parts that pass -/

theorem passes_varType {type : String} (h : IsTypeName type) :
    Passes (use "varType") (.string type) := by
  obtain ⟨t, rfl⟩ := h
  exact passes_use_varType (passes_textAmong (by cases t <;> decide))

theorem passes_modelEntry (name : String) : Passes modelEntry (Workflow.modelEntry name) := by
  refine passes_record (by decide) (by simp) ?_
  exact ((((fit_nil.cons rfl (passes_texts _)).cons rfl (passes_text _)).cons rfl
    (passes_text _)).cons rfl (passes_text _)).cons rfl (passes_text name)

theorem passes_byName {rule : Schema} (hr : rule ≠ nothing) {value : String → Json}
    (h : ∀ name, Passes rule (value name)) (names : List String) :
    Passes (mapOf rule) (Workflow.byName names value) := by
  refine passes_mapOf hr fun m hm => ?_
  obtain ⟨name, -, rfl⟩ := List.mem_map.1 hm
  exact h name

theorem passes_byVariable {rule : Schema} (hr : rule ≠ nothing) {r : Registry String}
    {value : String → String → Json} (h : ∀ e ∈ r.entries, Passes rule (value e.1 e.2)) :
    Passes (mapOf rule) (Workflow.byVariable r value) := by
  refine passes_mapOf hr fun m hm => ?_
  obtain ⟨e, he, rfl⟩ := List.mem_map.1 hm
  exact h e he

theorem passes_tests : Passes (arrayOf test) (.array [Workflow.smokeTest w]) := by
  refine passes_arrayOf (by simp [test, record]) fun x hx => ?_
  obtain rfl := List.mem_singleton.1 hx
  refine passes_record (by decide) (by simp) ?_
  exact (((fit_nil.cons rfl (passes_type rfl)).cons rfl (passes_type rfl)).cons rfl
    (passes_text _)).cons rfl (passes_text _)

theorem passes_prompts (w : Workflow) (o : Options) :
    ∀ x ∈ [Json.object [("language", .string o.language), ("text", .string w.prompt)]],
      Passes (record ["language", "text"] [("language", text), ("text", text)]) x := by
  intro x hx
  obtain rfl := List.mem_singleton.1 hx
  refine passes_record (by decide) (by simp) ?_
  exact (fit_nil.cons rfl (passes_text _)).cons rfl (passes_text _)

theorem passes_inputs (hw : w.WellFormed) :
    Passes (mapOf (record ["type", "required"]
       [("type", use "varType"), ("required", .type [.boolean]), ("description", text)]))
      (Workflow.byVariable w.inputs fun name type =>
        .object [("type", .string type), ("required", .bool true),
          ("description", .string (.join ["Input ", name]))]) := by
  refine passes_byVariable (by simp [record]) fun e he => ?_
  refine passes_record (by decide) (by simp) ?_
  exact ((fit_nil.cons rfl (passes_text _)).cons rfl (passes_type rfl)).cons rfl
    (passes_varType (hw.inputs e he))

theorem passes_outputs (hw : w.WellFormed) :
    Passes (mapOf (record ["type"] [("type", use "varType"), ("description", text)]))
      (Workflow.byVariable w.outputs fun name type =>
        .object [("type", .string type), ("description", .string (.join ["Output ", name]))]) := by
  refine passes_byVariable (by simp [record]) fun e he => ?_
  refine passes_record (by decide) (by simp) ?_
  exact (fit_nil.cons rfl (passes_text _)).cons rfl (passes_varType (hw.outputs e he))

theorem passes_entities (w : Workflow) :
    Passes (mapOf text) (Workflow.byVariable w.types fun _ type => .string type) :=
  passes_byVariable (by simp [text]) fun e _ => passes_text e.2

variable {named : String → Json → List Violation}

/-! ## Violations -/

/-- No named schemas. -/
def alone : String → Json → List Violation :=
  fun _ _ => []

/-- The rule for the tone of a workflow. -/
def sentiment : Schema :=
  textAmong ["positive", "negative", "neutral"]

/-- The violations in the metadata, which come from what the caller says. -/
def metadataViolations (o : Options) : List Violation :=
  (metadata.check alone (Workflow.metadata o "")).map (.under (.key "metadata"))

/-- The violations in the tone. -/
def sentimentViolations (o : Options) : List Violation :=
  (sentiment.check alone (.string o.sentiment)).map fun v =>
    ((v.under (.key "sentiment")).under (.key "nl_context")).under (.key "schema")

/-- The violations in how the workflow may be run. -/
def policyViolations (o : Options) : List Violation :=
  (executionPolicy.check alone (Workflow.executionPolicy o)).map (.under (.key "execution_policy"))

/-- The violations that come from the options of a workflow, whatever it does. -/
def optionViolations (o : Options) : List Violation :=
  metadataViolations o ++ sentimentViolations o ++ policyViolations o

/-- The violation of a workflow without steps. -/
def noSteps : Violation :=
  ⟨[.key "steps"], .tooShort (.array []) 1⟩

theorem check_metadata : metadata.check named (Workflow.metadata o stamp) =
    metadata.check alone (Workflow.metadata o "") := by
  rw [check_of_closed metadata (by decide)]
  rfl

theorem check_policy : executionPolicy.check named (Workflow.executionPolicy o) =
    executionPolicy.check alone (Workflow.executionPolicy o) :=
  check_of_closed executionPolicy (by decide) _

theorem check_sentiment :
    (textAmong ["positive", "negative", "neutral"]).check named (.string o.sentiment) =
      sentiment.check alone (.string o.sentiment) :=
  check_of_closed sentiment (by decide) _

/-- Of the signature of a workflow, only its tone can violate the schema. -/
theorem check_signature (hw : w.WellFormed) (n : Nat) :
    signature.check (follow n) (Workflow.signature w o) =
      (sentiment.check alone (.string o.sentiment)).map fun v =>
        (v.under (.key "sentiment")).under (.key "nl_context") := by
  have hprompts := passes_someOf (by simp [record]) (by simp) (passes_prompts w o) n
  have hentities := passes_entities w n
  have hin := passes_inputs hw n
  have hout := passes_outputs hw n
  rw [Workflow.signature, signature, check_aligned (by decide) rfl (by simp)]
  simp only [List.zip_cons_cons, List.zip_nil_left, List.flatMap_cons, List.flatMap_nil]
  rw [check_aligned (by decide) rfl (by simp)]
  simp only [List.zip_cons_cons, List.zip_nil_left, List.flatMap_cons, List.flatMap_nil]
  rw [hin, hout, hprompts, hentities, passes_text o.intent n, passes_object [] n]
  simp only [List.map_nil, List.nil_append, List.append_nil, List.map_map, Function.comp_def]
  rw [check_sentiment]

theorem check_steps (hw : w.WellFormed) (n : Nat) :
    (someOf (use "step")).check (follow n) (.array (Step.toJsons w.steps)) =
      if w.steps = [] then [⟨[], .tooShort (.array []) 1⟩] else [] := by
  have ha := passes_arrayOf (by simp [use]) (passes_steps w.steps hw.steps) n
  simp only [someOf, check, checkAll, ha, List.nil_append]
  cases hs : w.steps with
  | nil => rfl
  | cons s ss => simp [Step.toJsons]

/-- **Only the options of a workflow and a lack of steps can violate the schema.** -/
theorem check_workflow {seed : String} (hs : IsSeed seed) (hf : w.function = workflowName seed)
    (hw : w.WellFormed) (n : Nat) :
    workflow.check (follow n) (w.toJson o stamp) = metadataViolations o ++ (sentimentViolations o ++
      ((if w.steps = [] then [noSteps] else []) ++ policyViolations o)) := by
  have hfunction : Passes (textLike "^workflow_[0-9a-f]\x7b32\x7d$" functionPattern)
      (.string w.function) := by
    rw [hf]
    exact passes_textLike (function_occursIn hs)
  have haccess := passes_use_accessControl (passes_accessControl Access.wellFormed_execute)
  have hmodels := passes_byName (by simp [modelEntry, record]) passes_modelEntry w.models
  rw [Workflow.toJson, workflow, check_aligned (by decide) rfl (by simp)]
  simp only [List.zip_cons_cons, List.zip_nil_left, List.flatMap_cons, List.flatMap_nil]
  rw [hfunction n, check_metadata, check_signature hw, check_steps hw, haccess n, check_policy,
    hmodels n, passes_tests n]
  simp only [List.map_nil, List.nil_append, List.append_nil, List.map_map]
  split <;> rfl

/-! ## Where options lead -/

/-- The parts of a document to which the options lead. -/
def IsOptionPath (path : List Segment) : Prop :=
  [.key "metadata"] <+: path ∨ [.key "execution_policy"] <+: path ∨
    [.key "schema", .key "nl_context", .key "sentiment"] <+: path

theorem isOptionPath_of_mem {v : Violation} (h : v ∈ optionViolations o) : IsOptionPath v.path := by
  simp only [optionViolations, metadataViolations, sentimentViolations, policyViolations,
    List.mem_append, List.mem_map] at h
  rcases h with (⟨u, -, rfl⟩ | ⟨u, -, rfl⟩) | ⟨u, -, rfl⟩
  · exact .inl ⟨u.path, rfl⟩
  · exact .inr (.inr ⟨u.path, rfl⟩)
  · exact .inr (.inl ⟨u.path, rfl⟩)

theorem pathText_key (key : String) (path : List Segment) (h : Violation.isPlainKey key) :
    ∃ rest, (Violation.pathText (.key key :: path)).toList = '$' :: '.' :: key.toList ++ rest := by
  refine ⟨(String.join (path.map Violation.segmentText)).toList, ?_⟩
  simp [Violation.pathText, Violation.segmentText, h]

/-- The steps come after the parts to which the options lead. -/
theorem entry_le_noSteps {v : Violation} (h : IsOptionPath v.path) :
    v.report.entry ≤ noSteps.report.entry := by
  have hsteps : (Violation.pathText noSteps.path).toList = "$.steps".toList := rfl
  have hlt : Violation.pathText v.path < Violation.pathText noSteps.path := by
    obtain ⟨path, reason⟩ := v
    rw [String.lt_iff_toList_lt, hsteps]
    rcases h with ⟨rest, rfl⟩ | ⟨rest, rfl⟩ | ⟨rest, rfl⟩
    · obtain ⟨more, hm⟩ := pathText_key "metadata" rest rfl
      simp [hm, List.cons_lt_cons_iff]
    · obtain ⟨more, hm⟩ := pathText_key "execution_policy" rest rfl
      simp [hm, List.cons_lt_cons_iff]
    · obtain ⟨more, hm⟩ := pathText_key "schema" (.key "nl_context" :: .key "sentiment" :: rest) rfl
      simp [hm, List.cons_lt_cons_iff]
  exact Prod.Lex.toLex_le_toLex.2 (.inl hlt)

/-! ## The verdict on a workflow -/

/-- The errors that come from the options of a workflow, whatever it does. -/
def optionErrors (o : Options) : List String :=
  Report.listed ((optionViolations o).map Violation.report)

/-- The error of a workflow without steps. -/
def stepErrors (steps : List Step) : List String :=
  if steps = [] then ["Validation error: $.steps: [] should be non-empty"] else []

theorem optionErrors_default : optionErrors {} = [] := by
  have h : optionViolations {} = [] := rfl
  simp [optionErrors, h]

/-- The violations of a document, in some order. -/
theorem violations_perm {seed : String} (hs : IsSeed seed) (hf : w.function = workflowName seed)
    (hw : w.WellFormed) : (root.violations (w.toJson o stamp)).Perm
      (optionViolations o ++ if w.steps = [] then [noSteps] else []) := by
  refine (List.mergeSort_perm _ _).trans ?_
  rw [Root.found, show root.rule = workflow from rfl, Root.allowance, checkWithin_succ,
    check_workflow hs hf hw, optionViolations, List.append_assoc, List.append_assoc]
  exact (List.perm_append_comm.append_left _).append_left _

/-- The errors of a document: those of the options, and then the lack of steps. -/
theorem errors_eq {seed : String} (hs : IsSeed seed) (hf : w.function = workflowName seed)
    (hw : w.WellFormed) :
    root.errors (w.toJson o stamp) = optionErrors o ++ stepErrors w.steps := by
  have hp : (root.found (w.toJson o stamp)).Perm
      (optionViolations o ++ if w.steps = [] then [noSteps] else []) :=
    (List.mergeSort_perm _ _).symm.trans (violations_perm hs hf hw)
  have hlast : ∀ r ∈ (optionViolations o).map Violation.report, r.entry ≤ noSteps.report.entry := by
    rintro _ hr
    obtain ⟨v, hv, rfl⟩ := List.mem_map.1 hr
    exact entry_le_noSteps (isOptionPath_of_mem hv)
  rw [Root.errors_eq_listed, Report.listed_perm (hp.map _), List.map_append, optionErrors,
    stepErrors]
  split
  · exact Report.listed_concat hlast
  · simp

/-! ## Workflows of some steps -/

/-- A workflow that consists of some steps, without variables and classifiers. -/
def ofSteps (seed : String) (steps : List Step) : Workflow :=
  ⟨workflowName seed, steps, .empty, .empty, .empty, [], ""⟩

/-- Well-formed steps can be written as an accepted document. -/
theorem errors_ofSteps {seed : String} {steps : List Step} (hs : IsSeed seed)
    (hw : Step.AllWellFormed steps) (hne : steps ≠ []) (stamp : String) :
    root.errors ((ofSteps seed steps).toJson {} stamp) = [] := by
  have hof : (ofSteps seed steps).WellFormed :=
    ⟨hw, by simp [ofSteps, Registry.empty], by simp [ofSteps, Registry.empty]⟩
  rw [errors_eq hs rfl hof, optionErrors_default]
  exact if_neg hne

end FlowScript.Packaged
