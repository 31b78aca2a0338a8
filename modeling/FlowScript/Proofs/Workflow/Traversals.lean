import FlowScript.Proofs.Step.Preorder
import FlowScript.Proofs.Workflow.Verdict
import FlowScript.Proofs.Workflow.Visits

/-!
# Four ways through a workflow

The steps of an accepted text are gone through four times: by a walk, which visits them one by one;
by the records, of which there is one for each step; by the document, whose objects hold the objects
of their branches; and by the diagram, whose text declares the nodes of steps. Each goes by its own
rule, and all four meet the same steps in the same order.

## Main definitions

* `OfOneStep`: a record, a visit, an object and a node that belong to one step.

## Main statements

* `traversals_of_compile`: what stands at one place in the four orders belongs to one step.
-/
namespace FlowScript

open Step

/-! ## Documents of steps -/

namespace Step

theorem textOf?_id (s : Step) : s.toJson.textOf? "id" = some s.id := by
  cases s <;> rfl

theorem textOf?_type (s : Step) : s.toJson.textOf? "type" = some s.type := by
  cases s <;> rfl

theorem textOf?_phrase (s : Step) : s.toJson.textOf? "nl_phrase" = some s.info.phrase := by
  cases s with
  | act i a => cases a <;> rfl
  | branch i c yes no => rfl
  | loop i c body => rfl

end Step

/-! ## One step at each place -/

/-- A record, a visit of a walk, an object of a document with its depth, and a node of a diagram
with its label, all of one step. -/
structure OfOneStep (record : Workflow.Record) (visit : Step × Nat) (object : Json × Nat)
    (node : String × String) : Prop where
  document : object.1 = visit.1.toJson
  operation : object.1.textOf? "type" = some record.operation
  input : object.1.textOf? "nl_phrase" = some record.input
  output : object.1.canonical = record.output
  id : object.1.textOf? "id" = some record.step ∧ visit.1.id = record.step
  depth : object.2 = record.depth ∧ visit.2 = record.depth
  name : Diagram.lastPart node.1 = record.step
  label : node.2 = Diagram.escape (Diagram.label visit.1)

/-- What is recorded of a visit, the document of the visit and its node belong to one step. -/
theorem ofOneStep_record (function : String) (visit : Step × Nat) {node : String × String}
    (hname : Diagram.lastPart node.1 = visit.1.id)
    (hlabel : node.2 = Diagram.escape (Diagram.label visit.1)) :
    OfOneStep (Workflow.record function visit) visit (visit.1.toJson, visit.2) node where
  document := rfl
  operation := textOf?_type visit.1
  input := textOf?_phrase visit.1
  output := rfl
  id := ⟨textOf?_id visit.1, rfl⟩
  depth := ⟨rfl, rfl⟩
  name := hname
  label := hlabel

namespace Diagram

variable {ss : List Step}

theorem length_nodesIn (hi : ∀ id ∈ ids ss, IsNumbered id)
    (hl : ∀ visit ∈ walkAll 0 ss, '\n' ∉ (label visit.1).toList) :
    (nodesIn (render ss)).length = (walkAll 0 ss).length := by
  have hsteps := congrArg List.length (map_snd_placedAll "" 0 ss)
  rw [List.length_map, List.length_map] at hsteps
  rw [nodesIn_render hi hl, List.length_map, hsteps]

/-- The node at the place of a visit ends in the name of the step and shows its label. -/
theorem node_of_visit (hi : ∀ id ∈ ids ss, IsNumbered id)
    (hl : ∀ visit ∈ walkAll 0 ss, '\n' ∉ (label visit.1).toList) {i : Nat} {visit : Step × Nat}
    (hv : (walkAll 0 ss)[i]? = some visit) {node : String × String}
    (hn : (nodesIn (render ss))[i]? = some node) :
    lastPart node.1 = visit.1.id ∧ node.2 = escape (label visit.1) := by
  rw [nodesIn_render hi hl, List.getElem?_map, Option.map_eq_some_iff] at hn
  obtain ⟨p, hp, rfl⟩ := hn
  have hstep : p.2 = visit.1 := by
    have h := congrArg (fun steps => steps[i]?) (map_snd_placedAll "" 0 ss)
    simpa [hp, hv] using h
  obtain ⟨-, hlast⟩ := lastPart_placedAll hi (List.mem_of_getElem? hp)
  rw [← hstep]
  exact ⟨hlast, rfl⟩

end Diagram

/-- **Four ways through a workflow meet the same steps.** Whenever a text is accepted, there are as
many records, objects of steps in the document and nodes of steps in the text of the diagram as
there are visits of a walk, and at every place the record, the visit, the object and the node belong
to one step. -/
theorem traversals_of_compile {text : Option String} {function stamp : String} {o : Options}
    {schema : Except Unloaded Validator} {outcome : Outcome} {events : List Event} {w : Workflow}
    (h : compile text function stamp o schema = .ok (outcome, events))
    (hw : outcome.workflow? = some w) :
    ∃ (document : Json) (objects : List Json) (diagram : String),
      outcome.document? = some document ∧ document.member? "steps" = some (.array objects) ∧
      outcome.diagram? = some diagram ∧
      outcome.records.length = (walkAll 0 w.steps).length ∧
      (Json.preorderAll 0 objects).length = (walkAll 0 w.steps).length ∧
      (Diagram.nodesIn diagram).length = (walkAll 0 w.steps).length ∧
      ∀ (i : Nat) (record : Workflow.Record) (visit : Step × Nat) (object : Json × Nat)
        (node : String × String), outcome.records[i]? = some record →
        (walkAll 0 w.steps)[i]? = some visit → (Json.preorderAll 0 objects)[i]? = some object →
        (Diagram.nodesIn diagram)[i]? = some node → OfOneStep record visit object node := by
  obtain ⟨content, t, _, _, _, _, rfl, ha, rfl, -⟩ := assemble_of_compile h hw
  obtain ⟨rs, hanswered⟩ := answered_of_assemble ha
  have hi := isNumbered_of_answered hanswered
  have hl := Diagram.oneLine_of_answered hanswered
  have hrecords : (Outcome.accepted w (w.toJson o stamp) t.diagnostics).records =
      (walkAll 0 w.steps).map (Workflow.record w.function) := rfl
  refine ⟨_, toJsons w.steps, _, rfl, rfl, rfl, ?_, ?_, Diagram.length_nodesIn hi hl, ?_⟩
  · rw [hrecords, List.length_map]
  · rw [preorderAll_toJsons, List.length_map]
  · intro i record visit object node hr hv ho hn
    rw [hrecords, List.getElem?_map, hv, Option.map_some, Option.some.injEq] at hr
    rw [preorderAll_toJsons, List.getElem?_map, hv, Option.map_some, Option.some.injEq] at ho
    obtain ⟨hname, hlabel⟩ := Diagram.node_of_visit hi hl hv hn
    subst hr ho
    exact ofOneStep_record w.function visit hname hlabel

-- Otherwise the elaborator reads the line of a run whenever a run is given to a lemma.
attribute [local irreducible] Compile.Run

/-- The step inside a branch stands at the second place of all four. -/
theorem traversals_of_quotes : ∃ outcome events w document objects diagram record visit object node,
    compile (some "if x then return say \x22hi\x22 --> END")
        (workflowName "0123456789abcdef0123456789abcdef") "2024-01-02T03:04:05Z" {}
        (.ok Packaged.root.validate) = .ok (outcome, events) ∧
      outcome.workflow? = some w ∧ outcome.document? = some document ∧
      document.member? "steps" = some (.array objects) ∧ outcome.diagram? = some diagram ∧
      outcome.records[1]? = some record ∧ (walkAll 0 w.steps)[1]? = some visit ∧
      (Json.preorderAll 0 objects)[1]? = some object ∧
      (Diagram.nodesIn diagram)[1]? = some node ∧
      OfOneStep record visit object node ∧
      record.operation = "return" ∧ record.step = "step1" ∧ record.depth = 1 := by
  have hs : Packaged.IsSeed "0123456789abcdef0123456789abcdef" := by decide
  have ht : Text.commandLines "if x then return say \x22hi\x22 --> END" =
      ["if x then return say \x22hi\x22 --> END"] := by decide
  obtain ⟨i, j, t, hl, -, hj⟩ := Diagram.line_quotes
  obtain ⟨w, ha, hw⟩ := assemble_of_line ht hl
  have hne : w.steps ≠ [] := by simp [hw]
  obtain ⟨_, _, events, hc⟩ := accepted_of_assemble hs ha hne "2024-01-02T03:04:05Z"
  obtain ⟨document, objects, diagram, hd, ho, hg, hr, hp, hn, hall⟩ := traversals_of_compile hc rfl
  have htwo : (walkAll 0 w.steps).length = 2 := by simp [hw, walkAll, walk]
  have hvisit : (walkAll 0 w.steps)[1]? = some (.act j
      (.ret (.expr (.ofText "say \x22hi\x22 --> END"))), 1) := by
    simp [hw, walkAll, walk]
  have hrecord : (Workflow.records w)[1]? = some (Workflow.record w.function (.act j
      (.ret (.expr (.ofText "say \x22hi\x22 --> END"))), 1)) := by
    rw [Workflow.records, List.getElem?_map, hvisit, Option.map_some]
  have hobject := List.getElem?_eq_getElem (l := Json.preorderAll 0 objects) (i := 1) (by omega)
  have hnode := List.getElem?_eq_getElem (l := Diagram.nodesIn diagram) (i := 1) (by omega)
  exact ⟨_, events, w, document, objects, diagram, _, _, _, _, hc, rfl, hd, ho, hg, hrecord, hvisit,
    hobject, hnode, hall 1 _ _ _ _ hrecord hvisit hobject hnode, rfl, hj, rfl⟩

end FlowScript
