import FlowScript.Proofs.Session.Labels
import FlowScript.Proofs.Workflow.Rows

/-!
# Diagrams row by row

A traversal of some steps visits a step, and then each of its branches that are drawn, with the
steps inside it, before the next step. The diagram shows a step in two rows, its node and the edge
to it, and a branch in one row, the edge to its anchor. Nothing that steps are read from can add a
row, take one away, or turn one into another.

## Main definitions

* `Diagram.Visit`, `Diagram.visitsAll`: the depth-first traversal of some steps.
* `Diagram.Visit.lines`: the lines that show a visit.

## Main statements

* `Diagram.chain_eq_visits`: a chain shows the visits of a traversal in order.
* `Diagram.length_chain`: two lines for each step and one for each branch.
* `Diagram.rows_of_answered`: the rows of the diagram of any steps that a session answers with.
-/
namespace FlowScript.Diagram

open Text

/-! ## The traversal -/

/-- What a traversal meets: a step with its node, behind another node, or a branch of a node. -/
inductive Visit where
  | step (before name : String) (s : Step)
  | branch (node label kind : String)

namespace Visit

/-- The lines that show a visit. -/
def lines : Visit → List Line
  | step before name s => [.node name (escape (label s)), .edge before name]
  | branch node label kind => [.anchor node label (anchorName node kind)]

/-- The step that is visited, with the name of its node. -/
def placed? : Visit → Option (String × Step)
  | step _ name s => some (name, s)
  | branch _ _ _ => none

end Visit

mutual

/-- The traversal of a step behind a node, in a chain whose nodes have a common beginning. -/
def visits (before start : String) : Step → List Visit
  | .act i a => [.step before (start ++ i.id) (.act i a)]
  | .branch i c yes no =>
    let node := start ++ i.id
    let taken := anchorName node "THEN"
    let other := anchorName node "ELSE"
    .step before node (.branch i c yes no) ::
      .branch node "Then" "THEN" :: visitsAll taken (taken ++ "_") yes ++
      (if no.isEmpty then [] else .branch node "Else" "ELSE" :: visitsAll other (other ++ "_") no)
  | .loop i c body =>
    let node := start ++ i.id
    let inside := anchorName node "BODY"
    .step before node (.loop i c body) ::
      .branch node "Body" "BODY" :: visitsAll inside (inside ++ "_") body
termination_by structural s => s

/-- The traversal of some steps behind a node, in a chain whose nodes have a common beginning. -/
def visitsAll (before start : String) : List Step → List Visit
  | [] => []
  | s :: ss => visits before start s ++ visitsAll (start ++ s.id) start ss
termination_by structural ss => ss

end

mutual

theorem stepLines_eq_visits (before start : String) : (s : Step) →
    stepLines before start s = (visits before start s).flatMap Visit.lines
  | .act i a => rfl
  | .branch i c yes no => by
    have hyes := chain_eq_visits (anchorName (start ++ i.id) "THEN")
      (anchorName (start ++ i.id) "THEN" ++ "_") yes
    have hno := chain_eq_visits (anchorName (start ++ i.id) "ELSE")
      (anchorName (start ++ i.id) "ELSE" ++ "_") no
    cases no with
    | nil => simp [stepLines, visits, nodeLines, Visit.lines, hyes, Step.id, Step.info]
    | cons s ss => simp [stepLines, visits, nodeLines, Visit.lines, hyes, hno, Step.id, Step.info]
  | .loop i c body => by
    simp [stepLines, visits, nodeLines, Visit.lines, chain_eq_visits _ _ body, Step.id, Step.info]
termination_by structural s => s

/-- **A chain shows the visits of a traversal in order.** -/
theorem chain_eq_visits (before start : String) : (ss : List Step) →
    chain before start ss = (visitsAll before start ss).flatMap Visit.lines
  | [] => rfl
  | s :: ss => by
    rw [chain, visitsAll, List.flatMap_append, stepLines_eq_visits before start s,
      chain_eq_visits _ start ss]
termination_by structural ss => ss

end

mutual

theorem placed_visits (before start : String) : (s : Step) →
    (visits before start s).filterMap Visit.placed? = placed start s
  | .act i a => rfl
  | .branch i c yes no => by
    have hyes := placed_visitsAll (anchorName (start ++ i.id) "THEN")
      (anchorName (start ++ i.id) "THEN" ++ "_") yes
    have hno := placed_visitsAll (anchorName (start ++ i.id) "ELSE")
      (anchorName (start ++ i.id) "ELSE" ++ "_") no
    cases no with
    | nil => simp [visits, placed, placedAll, List.filterMap_cons, Visit.placed?, hyes]
    | cons s ss => simp [visits, placed, List.filterMap_cons, Visit.placed?, hyes, hno]
  | .loop i c body => by
    simp [visits, placed, List.filterMap_cons, Visit.placed?, placed_visitsAll _ _ body]
termination_by structural s => s

/-- A traversal visits every step once, in the order of a walk. -/
theorem placed_visitsAll (before start : String) : (ss : List Step) →
    (visitsAll before start ss).filterMap Visit.placed? = placedAll start ss
  | [] => rfl
  | s :: ss => by
    rw [visitsAll, placedAll, List.filterMap_append, placed_visits before start s,
      placed_visitsAll _ start ss]
termination_by structural ss => ss

end

/-! ## How many lines there are -/

theorem length_lines (vs : List Visit) : (vs.flatMap Visit.lines).length =
    2 * (vs.filterMap Visit.placed?).length +
      ((vs.flatMap Visit.lines).filterMap Line.anchor?).length := by
  induction vs with
  | nil => rfl
  | cons v vs ih =>
    cases v with
    | step before name s =>
      simp only [List.flatMap_cons, Visit.lines, List.filterMap_cons, Visit.placed?, Line.anchor?,
        List.filterMap_append, List.filterMap_nil, List.length_append, List.length_cons,
        List.length_nil] at ih ⊢
      omega
    | branch node label kind =>
      simp only [List.flatMap_cons, Visit.lines, List.filterMap_cons, Visit.placed?, Line.anchor?,
        List.filterMap_append, List.filterMap_nil, List.length_append, List.length_cons,
        List.length_nil] at ih ⊢
      omega

/-- There is one anchor for each branch that is drawn. -/
theorem length_anchors (start : String) (ss : List Step) :
    ((placedAll start ss).flatMap anchorsOf).length = (Step.gather branches ss).length := by
  have hsteps : Step.gather branches ss = ((placedAll start ss).map (·.2)).flatMap branches := by
    rw [map_snd_placedAll start 0, List.flatMap_map]
    rfl
  rw [hsteps, List.flatMap_map, List.length_flatMap, List.length_flatMap]
  simp [anchorsOf]

/-- **A chain has two lines for each step**, however deep it lies, **and one for each branch** that
is drawn. -/
theorem length_chain (before start : String) (ss : List Step) : (chain before start ss).length =
    2 * (Step.walkAll 0 ss).length + (Step.gather branches ss).length := by
  have hsteps := congrArg List.length (map_snd_placedAll start 0 ss)
  rw [List.length_map, List.length_map] at hsteps
  rw [chain_eq_visits, length_lines, placed_visitsAll, ← chain_eq_visits,
    (anchors_chain before start ss).length_eq, length_anchors, hsteps]

/-- The row of a node holds two quotes. -/
theorem count_quote_node {name label : String} (h : (Line.node name label).IsClean) :
    (Line.node name label).text.toList.count '\x22' = 2 := by
  have hname : '\x22' ∉ name.toList := fun hm => absurd (h.1.2 _ hm) (by decide)
  have hlabel := h.2.2
  simp [Line.text, List.count_eq_zero_of_not_mem hname, List.count_eq_zero_of_not_mem hlabel]

/-! ## Rows -/

/-- **No label can break a diagram.** Whatever a session has been asked, and whatever texts it has
been asked with, the diagram of any of the steps that it answers with has a heading, a row for the
start, two rows for each step and one row for each branch that is drawn, in the order of a
traversal, and a row for the end. The rows between the start and the end are read back as the lines
that show the visits of the traversal, and every row of a node holds two quotes. -/
theorem rows_of_answered (rs : List Request) (ss : List Step) (hne : ss ≠ [])
    (h : ss ⊆ (performAll rs {}).1.flatten) : ∃ body : List String,
      rows (render ss) = "graph TD" :: "    START([Start])" :: body ++
        ["    " ++ lastNode "START" "" ss ++ " --> END([End])"] ∧
      (rows (render ss)).length =
        3 + 2 * (Step.walkAll 0 ss).length + (Step.gather branches ss).length ∧
      body.map (fun row => Line.read? row.toList) =
        ((visitsAll "START" "" ss).flatMap Visit.lines).map some ∧
      ((visitsAll "START" "" ss).filterMap Visit.placed?).map (·.2) =
        (Step.walkAll 0 ss).map (·.1) ∧
      ∀ row ∈ body, ∀ name label, Line.read? row.toList = some (.node name label) →
        row.toList.count '\x22' = 2 := by
  have hi := isNumbered_of_answered h
  have hrows := rows_render hi (oneLine_of_answered h)
  have hstatements : (statements ss).map Statement.text = "    START([Start])" ::
      (chain "START" "" ss).map Line.text ++
        ["    " ++ lastNode "START" "" ss ++ " --> END([End])"] := by
    simp [statements, hne, Statement.text, Function.comp_def]
  rw [hstatements] at hrows
  refine ⟨(chain "START" "" ss).map Line.text, hrows, ?_, ?_, ?_, ?_⟩
  · rw [hrows]
    simp only [List.cons_append, List.length_cons, List.length_append, List.length_map,
      length_chain, List.length_nil]
    omega
  · rw [← chain_eq_visits, List.map_map]
    exact List.map_congr_left fun l hm => Line.read?_text (clean_of_isNumbered hi l hm)
  · rw [placed_visitsAll, map_snd_placedAll "" 0]
  · intro row hm name label hr
    obtain ⟨htext, hclean⟩ := Line.read?_eq_some_iff.1 hr
    rw [htext]
    exact count_quote_node hclean

-- Otherwise the elaborator reads the line of a run whenever a run is given to a lemma.
attribute [local irreducible] Compile.Run

/-- A branch around a step that returns a text with quotes and an arrow. -/
theorem line_quotes : ∃ i j t,
    Compile.line "if x then return say \x22hi\x22 --> END" {} =
      .ok [.branch i (.holds "x") [.act j (.ret (.expr (.ofText "say \x22hi\x22 --> END")))] []] t ∧
      i.id = stepId 2 ∧ j.id = stepId 1 := by
  have hbranch : Command.read? Command.rules (trimmed "if x then return say \x22hi\x22 --> END") =
      some ("if", .branch "x" "return say \x22hi\x22 --> END" none) := by decide
  have hreturn : Command.read? Command.rules (trimmed "return say \x22hi\x22 --> END") =
      some ("return", .ret "say \x22hi\x22 --> END") := by decide
  have hcondition : Condition.parse "x".toList = .ok (.holds "x") := by decide
  have hvalue : Value.read "say \x22hi\x22 --> END".toList =
      .ok (.expr (.ofText "say \x22hi\x22 --> END")) := by decide
  have hr := Compile.Run.of_command (n := 31) (s := {}) hbranch <| .taken hcondition <|
    .of_command (n := 30) hreturn <| .single <| .ret (by decide) hvalue
  exact ⟨_, _, _, Compile.line_of_run hr rfl, rfl, rfl⟩

theorem rows_of_quotes : ∃ ss, ss ≠ [] ∧
    ss ⊆ (performAll [.carry (.line "if x then return say \x22hi\x22 --> END")] {}).1.flatten ∧
    (rows (render ss)).length = 3 + 2 * 2 + 1 ∧
    ∃ row ∈ rows (render ss), Line.read? row.toList =
        some (.node "step2_THEN_step1" "Return #quot;say #quot;hi#quot; --> END#quot;") ∧
      row.toList.count '\x22' = 2 := by
  obtain ⟨i, j, t, hl, hi, hj⟩ := line_quotes
  have hsub : [Step.branch i (.holds "x")
      [.act j (.ret (.expr (.ofText "say \x22hi\x22 --> END")))] []] ⊆
      (performAll [.carry (.line "if x then return say \x22hi\x22 --> END")] {}).1.flatten := by
    rw [performAll_line hl]
    simp [performAll]
  obtain ⟨body, hrows, hlength, hread, -, hquotes⟩ := rows_of_answered _ _ (by simp) hsub
  have hname : anchorName ("" ++ i.id) "THEN" ++ "_" ++ j.id = "step2_THEN_step1" := by
    rw [hi, hj]
    decide
  have hlabel : escape (actionLabel j.id (.ret (.expr (.ofText "say \x22hi\x22 --> END")))) =
      "Return #quot;say #quot;hi#quot; --> END#quot;" := by
    rw [actionLabel]
    decide
  have hm : some (Line.node "step2_THEN_step1" "Return #quot;say #quot;hi#quot; --> END#quot;") ∈
      body.map fun row => Line.read? row.toList := by
    rw [hread, ← hname, ← hlabel]
    simp [visitsAll, visits, Visit.lines, label]
  obtain ⟨row, hrow, hr⟩ := List.mem_map.1 hm
  refine ⟨_, by simp, hsub, hlength, row, ?_, hr, hquotes row hrow _ _ hr⟩
  rw [hrows]
  simp [hrow]

end FlowScript.Diagram
