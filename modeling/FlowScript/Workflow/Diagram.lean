import FlowScript.Step.Basic

/-!
# Diagrams

A diagram shows steps as a graph. The steps of a workflow form a chain from the start to the end.
The steps inside a branch or a loop form chains of their own, which hang off an anchor and do not
lead back; an alternative without steps has no anchor. The node of a step is named by its step,
after the anchor that its chain hangs off.

## Main definitions

* `Diagram.Line`: the lines of a diagram.
* `Diagram.chain`: the lines of a chain of steps.
* `Diagram.render`: the text of the diagram of some steps.
-/
namespace FlowScript.Diagram

/-- A line of a diagram: a node with its label, an edge, or an anchor with the edge to it. -/
inductive Line where
  | node (name label : String)
  | edge (source target : String)
  | anchor (source label target : String)
  deriving DecidableEq, Repr, Inhabited

/-- The text of a line. -/
def Line.text : Line → String
  | node name label => .join ["    ", name, "[\x22", label, "\x22]"]
  | edge source target => .join ["    ", source, " --> ", target]
  | anchor source label target =>
    .join ["    ", source, " -->|", label, "| ", target, "[", label, "]"]

/-- A label without quotes, which would end it. -/
def escape (label : String) : String :=
  String.ofList (label.toList.flatMap fun c => if c = '\x22' then "#quot;".toList else [c])

/-- The label of an action with a name. -/
def actionLabel (id : String) : Action → String
  | .set target value => .join ["Set ", target, " = ", value.text]
  | .wait seconds => .join ["Wait ", seconds.plain, "s"]
  | .ret value => .join ["Return ", value.text]
  | .leave => "Break"
  | .call target endpoint => .join ["Call ", endpoint, " -> ", target]
  | .analyze model _ target => .join ["Analyze with ", model, " -> ", target]
  | .render component target _ => .join ["Render ", component, " -> ", target]
  | .state name _ => .join ["State ", name]
  | .style selector _ _ => .join ["Style ", selector]
  | .listen event handler => .join ["On ", event, " -> ", handler]
  | .plain => .join ["Step ", id]

/-- The label of a step. -/
def label : Step → String
  | .act i a => actionLabel i.id a
  | .branch _ c _ _ => .join ["If ", c.text]
  | .loop _ c _ => .join ["While ", c.text]

/-- The name of an anchor of a node. -/
def anchorName (node kind : String) : String :=
  node ++ "_" ++ kind

/-- The node of a step that follows another node, and the edge to it. -/
def nodeLines (before start : String) (s : Step) : List Line :=
  [.node (start ++ s.id) (escape (label s)), .edge before (start ++ s.id)]

mutual

/-- The lines of a step that follows a node, in a chain whose nodes have a common beginning. -/
def stepLines (before start : String) : Step → List Line
  | .act i a => nodeLines before start (.act i a)
  | .branch i c yes no =>
    let node := start ++ i.id
    let taken := anchorName node "THEN"
    let other := anchorName node "ELSE"
    nodeLines before start (.branch i c yes no) ++
      .anchor node "Then" taken :: chain taken (taken ++ "_") yes ++
      (if no.isEmpty then [] else .anchor node "Else" other :: chain other (other ++ "_") no)
  | .loop i c body =>
    let node := start ++ i.id
    let inside := anchorName node "BODY"
    nodeLines before start (.loop i c body) ++
      .anchor node "Body" inside :: chain inside (inside ++ "_") body
termination_by structural s => s

/-- The lines of a chain of steps that follows a node. -/
def chain (before start : String) : List Step → List Line
  | [] => []
  | s :: ss => stepLines before start s ++ chain (start ++ s.id) start ss
termination_by structural ss => ss

end

/-- The last node of a chain that follows a node. -/
def lastNode (before start : String) (steps : List Step) : String :=
  match steps.getLast? with
  | some s => start ++ s.id
  | none => before

/-- The text of the diagram of some steps. -/
def render (steps : List Step) : String :=
  let inside :=
    if steps.isEmpty then ["    START --> EMPTY[No steps] --> END([End])"]
    else (chain "START" "" steps).map Line.text ++
      ["    " ++ lastNode "START" "" steps ++ " --> END([End])"]
  "\n".intercalate (["graph TD", "    START([Start])"] ++ inside)

end FlowScript.Diagram
