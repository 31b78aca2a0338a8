import FlowScript.Proofs.Step.Walk
import FlowScript.Workflow.Diagram

/-!
# The statements of a diagram

The text of a diagram is a heading and then one statement on each line. A statement may declare
nodes and edges. The nodes of steps are named after the branches that lead to them, and every branch
that is drawn has an anchor.

## Main definitions

* `Diagram.Statement`, `Diagram.statements`: the statements of the diagram of some steps.
* `Diagram.declared`, `Diagram.edges`: what statements declare.
* `Diagram.placedAll`: the names of the nodes of steps.
* `Diagram.branches`: the branches of a step that are drawn.

## Main statements

* `Diagram.render_eq`: the text of a diagram is made of its statements.
* `Diagram.nodes_statements`, `Diagram.anchors_statements`: which nodes and anchors there are.
-/
namespace FlowScript.Diagram

/-! ## Statements -/

/-- A statement of a diagram: where it starts, a line about steps, that there are no steps, or where
it ends. -/
inductive Statement where
  | start
  | line (l : Line)
  | nothing
  | finish (last : String)
  deriving DecidableEq, Repr

/-- The text of a statement. -/
def Statement.text : Statement → String
  | start => "    START([Start])"
  | line l => l.text
  | nothing => "    START --> EMPTY[No steps] --> END([End])"
  | finish last => "    " ++ last ++ " --> END([End])"

/-- The statements of the diagram of some steps. -/
def statements (steps : List Step) : List Statement :=
  .start :: if steps.isEmpty then [.nothing]
    else (chain "START" "" steps).map .line ++ [.finish (lastNode "START" "" steps)]

/-- **The text of a diagram** is a heading and its statements, one on each line. -/
theorem render_eq (steps : List Step) :
    render steps = "\n".intercalate ("graph TD" :: (statements steps).map Statement.text) := by
  have hl : Statement.text ∘ Statement.line = Line.text := rfl
  cases steps with
  | nil => rfl
  | cons s ss => simp [render, statements, Statement.text, hl]

/-! ## What statements declare -/

/-- The nodes that a line declares. -/
def Line.declared : Line → List String
  | node name _ => [name]
  | edge _ _ => []
  | anchor _ _ target => [target]

/-- The edges that a line declares. -/
def Line.edges : Line → List (String × String)
  | node _ _ => []
  | edge source target => [(source, target)]
  | anchor source _ target => [(source, target)]

/-- The node of a step that a line declares, with its label. -/
def Line.node? : Line → Option (String × String)
  | node name label => some (name, label)
  | _ => none

/-- The anchor that a line declares: its node, its label and its name. -/
def Line.anchor? : Line → Option (String × String × String)
  | anchor source label target => some (source, label, target)
  | _ => none

/-- The lines about steps among some statements. -/
def linesOf (ss : List Statement) : List Line :=
  ss.filterMap fun
    | .line l => some l
    | _ => none

/-- The nodes that a statement declares. -/
def Statement.declared : Statement → List String
  | start => ["START"]
  | line l => l.declared
  | nothing => ["EMPTY", "END"]
  | finish _ => ["END"]

/-- The edges that a statement declares. -/
def Statement.edges : Statement → List (String × String)
  | start => []
  | line l => l.edges
  | nothing => [("START", "EMPTY"), ("EMPTY", "END")]
  | finish last => [(last, "END")]

/-- The nodes that some statements declare. -/
def declared (ss : List Statement) : List String :=
  ss.flatMap Statement.declared

/-- The edges that some statements declare. -/
def edges (ss : List Statement) : List (String × String) :=
  ss.flatMap Statement.edges

/-- The nodes that lines declare are those of steps and anchors. -/
theorem declared_perm (lines : List Line) : (lines.flatMap Line.declared).Perm
    ((lines.filterMap Line.node?).map (·.1) ++ (lines.filterMap Line.anchor?).map (·.2.2)) := by
  induction lines with
  | nil => rfl
  | cons l ls ih =>
    cases l with
    | node name label => exact ih.cons name
    | edge source target => exact ih
    | anchor source label target => exact (ih.cons target).trans List.perm_middle.symm

/-! ## Nodes and anchors -/

/-- The branches of a step that are drawn, by their labels and by what names of anchors end in: an
alternative without steps is not drawn. -/
def branches : Step → List (String × String)
  | .act _ _ => []
  | .branch _ _ _ [] => [("Then", "THEN")]
  | .branch _ _ _ (_ :: _) => [("Then", "THEN"), ("Else", "ELSE")]
  | .loop _ _ _ => [("Body", "BODY")]

mutual

/-- The names of the nodes of a step and of the steps inside it, in a chain whose nodes have a
common beginning. -/
def placed (start : String) : Step → List (String × Step)
  | .act i a => [(start ++ i.id, .act i a)]
  | .branch i c yes no =>
    (start ++ i.id, .branch i c yes no) ::
      (placedAll (anchorName (start ++ i.id) "THEN" ++ "_") yes ++
        placedAll (anchorName (start ++ i.id) "ELSE" ++ "_") no)
  | .loop i c body =>
    (start ++ i.id, .loop i c body) :: placedAll (anchorName (start ++ i.id) "BODY" ++ "_") body
termination_by structural s => s

/-- The names of the nodes of some steps and of the steps inside them. -/
def placedAll (start : String) : List Step → List (String × Step)
  | [] => []
  | s :: ss => placed start s ++ placedAll start ss
termination_by structural ss => ss

end

/-- The anchors of the branches of a step, with their labels and names. -/
def anchorsOf (p : String × Step) : List (String × String × String) :=
  (branches p.2).map fun b => (p.1, b.1, anchorName p.1 b.2)

mutual

theorem map_snd_placed (start : String) (d : Nat) :
    (s : Step) → (placed start s).map (·.2) = (s.walk d).map (·.1)
  | .act i a => rfl
  | .branch i c yes no => by
    simp [placed, Step.walk, map_snd_placedAll _ (d + 1) yes, map_snd_placedAll _ (d + 1) no]
  | .loop i c body => by simp [placed, Step.walk, map_snd_placedAll _ (d + 1) body]
termination_by structural s => s

/-- Nodes are named in the order of a walk. -/
theorem map_snd_placedAll (start : String) (d : Nat) :
    (ss : List Step) → (placedAll start ss).map (·.2) = (Step.walkAll d ss).map (·.1)
  | [] => rfl
  | s :: ss => by
    simp [placedAll, Step.walkAll, map_snd_placed start d s, map_snd_placedAll start d ss]
termination_by structural ss => ss

end

mutual

theorem nodes_stepLines (before start : String) : (s : Step) →
    (stepLines before start s).filterMap Line.node? =
      (placed start s).map fun p => (p.1, escape (label p.2))
  | .act i a => rfl
  | .branch i c yes no => by
    have hyes := nodes_chain (anchorName (start ++ i.id) "THEN")
      (anchorName (start ++ i.id) "THEN" ++ "_") yes
    have hno := nodes_chain (anchorName (start ++ i.id) "ELSE")
      (anchorName (start ++ i.id) "ELSE" ++ "_") no
    cases no with
    | nil =>
      simp [stepLines, placed, placedAll, nodeLines, List.filterMap_cons, Line.node?, hyes, Step.id,
        Step.info]
    | cons s ss =>
      simp [stepLines, placed, nodeLines, List.filterMap_cons, Line.node?, hyes, hno, Step.id,
        Step.info]
  | .loop i c body => by
    simp [stepLines, placed, nodeLines, List.filterMap_cons, Line.node?, nodes_chain _ _ body,
      Step.id, Step.info]
termination_by structural s => s

/-- A chain declares one node for each of its steps and of the steps inside them. -/
theorem nodes_chain (before start : String) : (ss : List Step) →
    (chain before start ss).filterMap Line.node? =
      (placedAll start ss).map fun p => (p.1, escape (label p.2))
  | [] => rfl
  | s :: ss => by
    simp only [chain, placedAll, List.filterMap_append, List.map_append,
      nodes_stepLines before start s, nodes_chain _ start ss]
termination_by structural ss => ss

end

mutual

theorem anchors_stepLines (before start : String) : (s : Step) →
    ((stepLines before start s).filterMap Line.anchor?).Perm ((placed start s).flatMap anchorsOf)
  | .act i a => .nil
  | .branch i c yes no => by
    have hyes := anchors_chain (anchorName (start ++ i.id) "THEN")
      (anchorName (start ++ i.id) "THEN" ++ "_") yes
    have hno := anchors_chain (anchorName (start ++ i.id) "ELSE")
      (anchorName (start ++ i.id) "ELSE" ++ "_") no
    cases no with
    | nil =>
      simpa [stepLines, placed, placedAll, nodeLines, List.filterMap_cons, Line.anchor?, anchorsOf,
        branches] using hyes
    | cons s ss =>
      have hperm := ((hyes.append (hno.cons (start ++ i.id, "Else",
        anchorName (start ++ i.id) "ELSE"))).trans List.perm_middle)
      simpa [stepLines, placed, nodeLines, List.filterMap_cons, Line.anchor?, anchorsOf,
        branches] using hperm
  | .loop i c body => by
    simpa [stepLines, placed, nodeLines, List.filterMap_cons, Line.anchor?, anchorsOf, branches]
      using anchors_chain _ _ body
termination_by structural s => s

/-- A chain declares one anchor for each branch that is drawn. -/
theorem anchors_chain (before start : String) : (ss : List Step) →
    ((chain before start ss).filterMap Line.anchor?).Perm ((placedAll start ss).flatMap anchorsOf)
  | [] => .nil
  | s :: ss => by
    simp only [chain, placedAll, List.filterMap_append, List.flatMap_append]
    exact (anchors_stepLines before start s).append (anchors_chain _ start ss)
termination_by structural ss => ss

end

/-- The lines of a diagram about steps. -/
theorem linesOf_statements (steps : List Step) :
    linesOf (statements steps) = chain "START" "" steps := by
  cases steps with
  | nil => rfl
  | cons s ss =>
    simp only [linesOf, statements, List.isEmpty_cons, Bool.false_eq_true, if_false,
      List.filterMap_cons, List.filterMap_append, List.filterMap_map, List.filterMap_nil,
      List.append_nil]
    exact List.filterMap_some

theorem nodes_statements (steps : List Step) :
    (linesOf (statements steps)).filterMap Line.node? =
      (placedAll "" steps).map fun p => (p.1, escape (label p.2)) := by
  rw [linesOf_statements, nodes_chain]

theorem anchors_statements (steps : List Step) :
    ((linesOf (statements steps)).filterMap Line.anchor?).Perm
      ((placedAll "" steps).flatMap anchorsOf) := by
  rw [linesOf_statements]
  exact anchors_chain _ _ steps

end FlowScript.Diagram
