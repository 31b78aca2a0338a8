import FlowScript.Proofs.Registry
import FlowScript.Proofs.Step.Document
import FlowScript.Proofs.Workflow.Verdict

/-!
# The signature in the document

A document says twice what its workflow reads, assigns and asks: in the schema and the registry of
classifiers, which come from a walk over the steps, and in the steps section itself. Both agree, so
that no input, output or classifier is lost and none is made up.

## Main statements

* `signature_of_assemble`: inputs and outputs are what the steps section reads and assigns.
* `registry_of_assemble`: the registered classifiers are those that the steps section asks.
-/
namespace FlowScript

open Json

namespace Workflow

variable {function text : String} {w : Workflow} {t : Session} {names : List String}

theorem entries_typed (types : Registry String) (h : names.Nodup) :
    (typed types names).entries =
      names.map fun name => (name, (types.find? name).getD ValueType.string.name) := by
  have hn : (names.map fun name =>
      (name, (types.find? name).getD ValueType.string.name)).map (·.1) = names := by
    rw [List.map_map]
    exact List.map_id names
  rw [typed, Registry.entries_ofList]
  rw [hn]
  exact h

/-- Different variables have a member each, in order, and each says the recorded type of its
variable, or that of text. -/
theorem byVariable_typed (types : Registry String) (h : names.Nodup)
    (value : String → String → Json)
    (hv : ∀ name type, (value name type).textOf? "type" = some type) :
    ∃ ms, byVariable (typed types names) value = .object ms ∧ ms.map (·.1) = names ∧
      ∀ e ∈ ms, e.2.textOf? "type" = some ((types.find? e.1).getD "string") := by
  refine ⟨_, rfl, ?_, ?_⟩
  · rw [entries_typed types h, List.map_map, List.map_map]
    exact List.map_id names
  · intro e he
    rw [entries_typed types h, List.map_map] at he
    obtain ⟨name, -, rfl⟩ := List.mem_map.1 he
    exact hv name _

/-- Different names have a member each, in order. -/
theorem byName_of_nodup (h : names.Nodup) (value : String → Json) :
    ∃ ms, byName names value = .object ms ∧ ms.map (·.1) = names := by
  refine ⟨_, rfl, ?_⟩
  rw [distinct_of_nodup h, List.map_map]
  exact List.map_id names

/-- The steps section of a document. -/
def stepsSection (w : Workflow) : Json :=
  .array (Step.toJsons w.steps)

/-- The signature of a text, told from the steps section. -/
theorem signature_eq (h : assemble function text {} = .ok w t) :
    w.inputs = typed t.types (distinct (found readName? w.stepsSection)) ∧
    w.outputs = typed t.types (distinct (found targetName? w.stepsSection)) ∧
    w.models = distinct (found modelName? w.stepsSection) := by
  have hd := documented_of_assemble h
  rw [stepsSection, Step.found_readName hd, Step.found_targetName hd, Step.found_modelName hd]
  obtain ⟨steps, -, rfl⟩ := assemble_eq_ok.1 h
  exact ⟨rfl, rfl, rfl⟩

end Workflow

variable {function text : String} {w : Workflow} {t : Session}

/-- **The signature agrees with the steps section.** The inputs are the variables that stand in
objects of the steps section that read one, and the outputs the targets of its `set` steps, both by
their first occurrences; each has the type that was recorded for it last, or that of text. -/
theorem signature_of_assemble (h : Workflow.assemble function text {} = .ok w t) (o : Options)
    (stamp : String) : ∃ steps schema inputs outputs,
      (w.toJson o stamp).member? "steps" = some steps ∧
      (w.toJson o stamp).member? "schema" = some schema ∧
      schema.member? "inputs" = some (.object inputs) ∧
      schema.member? "outputs" = some (.object outputs) ∧
      inputs.map (·.1) = distinct (found readName? steps) ∧
      outputs.map (·.1) = distinct (found targetName? steps) ∧
      (inputs.map (·.1)).Nodup ∧ (outputs.map (·.1)).Nodup ∧
      ∀ e ∈ inputs ++ outputs, e.2.textOf? "type" = some ((t.types.find? e.1).getD "string") := by
  obtain ⟨hi, ho, -⟩ := Workflow.signature_eq h
  have hr := nodup_distinct (found readName? w.stepsSection)
  have hw := nodup_distinct (found targetName? w.stepsSection)
  obtain ⟨inputs, hin, hinames, hitypes⟩ := Workflow.byVariable_typed t.types hr
    (fun name type => .object [("type", .string type), ("required", .bool true),
      ("description", .string (.join ["Input ", name]))]) fun _ _ => rfl
  obtain ⟨outputs, hout, honames, hotypes⟩ := Workflow.byVariable_typed t.types hw
    (fun name type => .object [("type", .string type),
      ("description", .string (.join ["Output ", name]))]) fun _ _ => rfl
  rw [← hi] at hin
  rw [← ho] at hout
  refine ⟨w.stepsSection, w.signature o, inputs, outputs, rfl, rfl, congrArg some hin,
    congrArg some hout, hinames, honames, hinames ▸ hr, honames ▸ hw, ?_⟩
  intro e he
  rcases List.mem_append.1 he with he | he
  · exact hitypes e he
  · exact hotypes e he

/-- The signature of a text of one line. -/
theorem signature_of_sum :
    ∃ w t, Workflow.assemble "f" "set x to y + 1" {} = .ok w t ∧
      ∃ steps schema inputs outputs,
        (w.toJson {} "").member? "steps" = some steps ∧
        (w.toJson {} "").member? "schema" = some schema ∧
        schema.member? "inputs" = some (.object inputs) ∧
        schema.member? "outputs" = some (.object outputs) ∧
        inputs.map (·.1) = distinct (found readName? steps) ∧
        outputs.map (·.1) = distinct (found targetName? steps) ∧
        (inputs.map (·.1)).Nodup ∧ (outputs.map (·.1)).Nodup ∧
        ∀ e ∈ inputs ++ outputs, e.2.textOf? "type" = some ((t.types.find? e.1).getD "string") := by
  obtain ⟨steps, t, hl⟩ : ∃ steps t, Compile.line "set x to y + 1" {} = .ok steps t := ⟨_, _, rfl⟩
  have ht : Text.commandLines "set x to y + 1" = ["set x to y + 1"] := by decide
  obtain ⟨w, ha, -⟩ : ∃ w, Workflow.assemble "f" "set x to y + 1" {} = .ok w t ∧ w.steps = steps :=
    assemble_of_line ht hl
  exact ⟨w, t, ha, signature_of_assemble ha {} ""⟩

/-- **The registered classifiers are those that the steps section asks**: in `ai_classify` steps, at
any depth, and in values. -/
theorem registry_of_assemble (h : Workflow.assemble function text {} = .ok w t) (o : Options)
    (stamp : String) : ∃ steps registry,
      (w.toJson o stamp).member? "steps" = some steps ∧
      (w.toJson o stamp).member? "model_registry" = some (.object registry) ∧
      registry.map (·.1) = distinct (found modelName? steps) ∧
      ∀ name, name ∈ registry.map (·.1) ↔ ∃ part ∈ steps.parts, modelName? part = some name := by
  obtain ⟨-, -, hm⟩ := Workflow.signature_eq h
  have hd := nodup_distinct (found modelName? w.stepsSection)
  obtain ⟨registry, hr, hnames⟩ := Workflow.byName_of_nodup hd Workflow.modelEntry
  rw [← hm] at hr
  refine ⟨w.stepsSection, registry, rfl, congrArg some hr, hnames, fun name => ?_⟩
  rw [hnames, mem_distinct, found, List.mem_filterMap]

/-- The classifier of a text of one line. -/
theorem registry_of_analysis :
    ∃ w t, Workflow.assemble "f" "analyze y with m" {} = .ok w t ∧
      ∃ steps registry,
        (w.toJson {} "").member? "steps" = some steps ∧
        (w.toJson {} "").member? "model_registry" = some (.object registry) ∧
        registry.map (·.1) = distinct (found modelName? steps) ∧
        ∀ name, name ∈ registry.map (·.1) ↔ ∃ part ∈ steps.parts, modelName? part = some name := by
  obtain ⟨steps, t, hl⟩ : ∃ steps t, Compile.line "analyze y with m" {} = .ok steps t :=
    ⟨_, _, rfl⟩
  have ht : Text.commandLines "analyze y with m" = ["analyze y with m"] := by decide
  obtain ⟨w, ha, -⟩ : ∃ w, Workflow.assemble "f" "analyze y with m" {} = .ok w t ∧ w.steps = steps :=
    assemble_of_line ht hl
  exact ⟨w, t, ha, registry_of_assemble ha {} ""⟩

end FlowScript
