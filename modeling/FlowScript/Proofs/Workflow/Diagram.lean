import FlowScript.Proofs.Name
import FlowScript.Proofs.Workflow.Statements
import Mathlib.Data.List.Nodup
import Mathlib.Logic.Relation

/-!
# Diagrams are trees

The name of a node ends in the name of its step or in the kind of its anchor, and what stands before
is the name of another anchor or of the anchor's own node. So different nodes have different names,
if the steps have. Every node follows one other node, and by following nodes backwards one comes to
the start.

## Main definitions

* `Diagram.lastPart`: what the name of a node ends in.
* `Diagram.IsTree`: what it means that the diagram of some steps is a tree.

## Main statements

* `Diagram.nodup_declared_chain`: different nodes have different names.
* `Diagram.reaches_chain`: every node of a chain can be reached.
* `Diagram.isTree_of_nodup`: diagrams are trees.
-/
namespace FlowScript.Diagram

/-! ## Names of nodes -/

/-- What the name of a node ends in, after the last underscore. -/
def lastPart (name : String) : String :=
  String.ofList (name.toList.reverse.takeWhile (· ≠ '_')).reverse

theorem takeWhile_reverse_append {s : String} (h : '_' ∉ s.toList) (rest : List Char) :
    (s.toList.reverse ++ rest).takeWhile (· ≠ '_') =
      s.toList.reverse ++ rest.takeWhile (· ≠ '_') := by
  refine List.takeWhile_append_of_pos fun c hc => ?_
  simp only [decide_eq_true_eq]
  rintro rfl
  exact h (List.mem_reverse.1 hc)

theorem lastPart_of_not_mem {s : String} (h : '_' ∉ s.toList) : lastPart s = s := by
  have hall := takeWhile_reverse_append h []
  simp only [List.append_nil, List.takeWhile_nil] at hall
  rw [lastPart, hall, List.reverse_reverse, String.ofList_toList]

theorem lastPart_append (name : String) {s : String} (h : '_' ∉ s.toList) :
    lastPart (name ++ "_" ++ s) = s := by
  have hrev : (name ++ "_" ++ s).toList.reverse =
      s.toList.reverse ++ '_' :: name.toList.reverse := by
    simp
  rw [lastPart, hrev, takeWhile_reverse_append h]
  simp

/-- The names of anchors tell their nodes and their kinds. -/
theorem anchorName_inj {node node' kind kind' : String} (hk : '_' ∉ kind.toList)
    (hk' : '_' ∉ kind'.toList) (h : anchorName node kind = anchorName node' kind') :
    node = node' ∧ kind = kind' := by
  have hkind : kind = kind' := by
    rw [← lastPart_append node hk, ← lastPart_append node' hk']
    exact congrArg lastPart h
  subst hkind
  refine ⟨?_, rfl⟩
  have hl := congrArg String.toList h
  simp only [anchorName, String.toList_append, List.append_assoc] at hl
  exact String.toList_injective (List.append_cancel_right hl)

/-- What the names of the nodes of a chain begin with: nothing, or the name of an anchor. -/
def IsBeginning (start : String) : Prop :=
  start = "" ∨ ∃ node, start = node ++ "_"

theorem lastPart_beginning {start s : String} (hs : IsBeginning start) (h : '_' ∉ s.toList) :
    lastPart (start ++ s) = s := by
  obtain rfl | ⟨node, rfl⟩ := hs
  · rw [String.empty_append, lastPart_of_not_mem h]
  · exact lastPart_append node h

theorem underscore_not_mem_of_isNumbered {id : String} (h : IsNumbered id) : '_' ∉ id.toList := by
  obtain ⟨digits, hid, -, hd⟩ := h
  rw [hid]
  intro hm
  rcases List.mem_append.1 hm with hm | hm
  · simp at hm
  · simpa using hd '_' hm

theorem head?_of_isNumbered {id : String} (h : IsNumbered id) : id.toList.head? = some 's' := by
  obtain ⟨digits, hid, -, -⟩ := h
  rw [hid]
  rfl

mutual

theorem beginning_placed {start : String} (hs : IsBeginning start) : (s : Step) →
    ∀ p ∈ placed start s, ∃ b, IsBeginning b ∧ p.1 = b ++ p.2.id
  | .act i a => by
    simp only [placed, List.forall_mem_singleton]
    exact ⟨start, hs, rfl⟩
  | .branch i c yes no => by
    simp only [placed, List.forall_mem_cons, List.forall_mem_append]
    exact ⟨⟨start, hs, rfl⟩, beginning_placedAll (.inr ⟨_, rfl⟩) yes,
      beginning_placedAll (.inr ⟨_, rfl⟩) no⟩
  | .loop i c body => by
    simp only [placed, List.forall_mem_cons]
    exact ⟨⟨start, hs, rfl⟩, beginning_placedAll (.inr ⟨_, rfl⟩) body⟩
termination_by structural s => s

/-- The name of a step stands at the end of the name of its node. -/
theorem beginning_placedAll {start : String} (hs : IsBeginning start) : (ss : List Step) →
    ∀ p ∈ placedAll start ss, ∃ b, IsBeginning b ∧ p.1 = b ++ p.2.id
  | [] => by simp [placedAll]
  | s :: ss => by
    simp only [placedAll, List.forall_mem_append]
    exact ⟨beginning_placed hs s, beginning_placedAll hs ss⟩
termination_by structural ss => ss

end

/-! ## Different nodes -/

variable {steps : List Step}

theorem ids_eq_map_placedAll (steps : List Step) :
    Step.ids steps = (placedAll "" steps).map fun p => p.2.id := by
  rw [Step.ids, ← map_snd_placedAll "" 0 steps, List.map_map]
  rfl

theorem lastPart_placedAll (hi : ∀ id ∈ Step.ids steps, IsNumbered id) {p : String × Step}
    (hp : p ∈ placedAll "" steps) : IsNumbered p.2.id ∧ lastPart p.1 = p.2.id := by
  have hid : IsNumbered p.2.id := by
    refine hi _ ?_
    rw [ids_eq_map_placedAll]
    exact List.mem_map_of_mem (f := fun p : String × Step => p.2.id) hp
  obtain ⟨b, hb, hname⟩ := beginning_placedAll (.inl rfl) steps p hp
  rw [hname]
  exact ⟨hid, lastPart_beginning hb (underscore_not_mem_of_isNumbered hid)⟩

/-- The nodes of different steps have different names. -/
theorem nodup_names (hn : (Step.ids steps).Nodup) (hi : ∀ id ∈ Step.ids steps, IsNumbered id) :
    ((placedAll "" steps).map (·.1)).Nodup := by
  refine List.Nodup.of_map lastPart ?_
  have hids : ((placedAll "" steps).map (·.1)).map lastPart = Step.ids steps := by
    rw [ids_eq_map_placedAll, List.map_map]
    exact List.map_congr_left fun p hp => (lastPart_placedAll hi hp).2
  rwa [hids]

/-- What the names of anchors end in. -/
def kinds : List String :=
  ["THEN", "ELSE", "BODY"]

theorem underscore_not_mem_of_kinds : ∀ kind ∈ kinds, '_' ∉ kind.toList := by
  decide

theorem mem_kinds_of_branches {s : Step} {b : String × String} (h : b ∈ branches s) :
    b.2 ∈ kinds := by
  match s with
  | .act _ _ => simp [branches] at h
  | .branch _ _ _ [] =>
    simp only [branches, List.mem_singleton] at h
    simp [h, kinds]
  | .branch _ _ _ (_ :: _) =>
    simp only [branches, List.mem_cons, List.not_mem_nil, or_false] at h
    rcases h with rfl | rfl <;> simp [kinds]
  | .loop _ _ _ =>
    simp only [branches, List.mem_singleton] at h
    simp [h, kinds]

/-- The branches of a step are of different kinds. -/
theorem nodup_kinds (s : Step) : ((branches s).map (·.2)).Nodup := by
  match s with
  | .act _ _ => exact List.nodup_nil
  | .branch _ _ _ [] => simp [branches]
  | .branch _ _ _ (_ :: _) => simp [branches]
  | .loop _ _ _ => simp [branches]

theorem mem_anchors {ps : List (String × Step)} {name : String} :
    name ∈ (ps.flatMap anchorsOf).map (·.2.2) ↔
      ∃ p ∈ ps, ∃ b ∈ branches p.2, name = anchorName p.1 b.2 := by
  simp only [List.mem_map, List.mem_flatMap, anchorsOf]
  constructor
  · rintro ⟨_, ⟨p, hp, b, hb, rfl⟩, rfl⟩
    exact ⟨p, hp, b, hb, rfl⟩
  · rintro ⟨p, hp, b, hb, rfl⟩
    exact ⟨_, ⟨p, hp, b, hb, rfl⟩, rfl⟩

/-- The anchors of different branches have different names. -/
theorem nodup_anchors {ps : List (String × Step)} (h : (ps.map (·.1)).Nodup) :
    ((ps.flatMap anchorsOf).map (·.2.2)).Nodup := by
  induction ps with
  | nil => simp
  | cons p ps ih =>
    rw [List.map_cons, List.nodup_cons] at h
    have hown : ((anchorsOf p).map (·.2.2)).Nodup := by
      have hnames :
          (anchorsOf p).map (·.2.2) = ((branches p.2).map (·.2)).map (anchorName p.1) := by
        simp [anchorsOf]
      rw [hnames]
      refine List.Nodup.map_on (fun kind hk kind' hk' he => ?_) (nodup_kinds p.2)
      obtain ⟨b, hb, rfl⟩ := List.mem_map.1 hk
      obtain ⟨b', hb', rfl⟩ := List.mem_map.1 hk'
      exact (anchorName_inj (underscore_not_mem_of_kinds _ (mem_kinds_of_branches hb))
        (underscore_not_mem_of_kinds _ (mem_kinds_of_branches hb')) he).2
    rw [List.flatMap_cons, List.map_append, List.nodup_append]
    refine ⟨hown, ih h.2, fun name hm name' hm' he => h.1 ?_⟩
    subst he
    have hm : name ∈ (([p].flatMap anchorsOf)).map (·.2.2) := by simpa using hm
    obtain ⟨p', hp', b, hb, rfl⟩ := mem_anchors.1 hm
    obtain rfl := List.mem_singleton.1 hp'
    obtain ⟨q, hq, b', hb', he⟩ := mem_anchors.1 hm'
    obtain ⟨hname, -⟩ := anchorName_inj (underscore_not_mem_of_kinds _ (mem_kinds_of_branches hb))
      (underscore_not_mem_of_kinds _ (mem_kinds_of_branches hb')) he
    exact hname ▸ List.mem_map_of_mem hq

/-- The nodes that a chain declares are those of its steps and their anchors. -/
theorem declared_chain_perm (steps : List Step) :
    ((chain "START" "" steps).flatMap Line.declared).Perm
      ((placedAll "" steps).map (·.1) ++ ((placedAll "" steps).flatMap anchorsOf).map (·.2.2)) := by
  refine (declared_perm _).trans ?_
  have hnodes : ((chain "START" "" steps).filterMap Line.node?).map (·.1) =
      (placedAll "" steps).map (·.1) := by
    rw [nodes_chain, List.map_map]
    rfl
  rw [hnodes]
  exact ((anchors_chain "START" "" steps).map _).append_left _

/-- The names of nodes end in the names of steps or in kinds. -/
theorem lastPart_declared (hi : ∀ id ∈ Step.ids steps, IsNumbered id) {name : String}
    (h : name ∈ (chain "START" "" steps).flatMap Line.declared) :
    IsNumbered (lastPart name) ∨ lastPart name ∈ kinds := by
  rcases List.mem_append.1 ((declared_chain_perm steps).mem_iff.1 h) with h | h
  · obtain ⟨p, hp, rfl⟩ := List.mem_map.1 h
    obtain ⟨hid, hl⟩ := lastPart_placedAll hi hp
    exact .inl (hl ▸ hid)
  · obtain ⟨p, -, b, hb, rfl⟩ := mem_anchors.1 h
    have hk := mem_kinds_of_branches hb
    right
    rwa [anchorName, lastPart_append _ (underscore_not_mem_of_kinds _ hk)]

theorem not_isNumbered {s : String} (h : s.toList.head? ≠ some 's') : ¬ IsNumbered s :=
  fun hn => h (head?_of_isNumbered hn)

/-- **Different nodes of a chain have different names.** -/
theorem nodup_declared_chain (hn : (Step.ids steps).Nodup)
    (hi : ∀ id ∈ Step.ids steps, IsNumbered id) :
    ((chain "START" "" steps).flatMap Line.declared).Nodup := by
  have hnames := nodup_names hn hi
  rw [(declared_chain_perm steps).nodup_iff, List.nodup_append]
  refine ⟨hnames, nodup_anchors hnames, fun name hm name' hm' he => ?_⟩
  subst he
  obtain ⟨p, hp, rfl⟩ := List.mem_map.1 hm
  obtain ⟨q, -, b, hb, he⟩ := mem_anchors.1 hm'
  obtain ⟨hid, hl⟩ := lastPart_placedAll hi hp
  have hk := mem_kinds_of_branches hb
  rw [he, anchorName, lastPart_append _ (underscore_not_mem_of_kinds _ hk)] at hl
  have hnot : ∀ kind ∈ kinds, kind.toList.head? ≠ some 's' := by decide
  exact not_isNumbered (hnot _ hk) (hl ▸ hid)

/-! ## Edges -/

mutual

theorem targets_stepLines (before start : String) : (s : Step) →
    ((stepLines before start s).flatMap Line.edges).map (·.2) =
      (stepLines before start s).flatMap Line.declared
  | .act i a => rfl
  | .branch i c yes no => by
    have hyes := targets_chain (anchorName (start ++ i.id) "THEN")
      (anchorName (start ++ i.id) "THEN" ++ "_") yes
    have hno := targets_chain (anchorName (start ++ i.id) "ELSE")
      (anchorName (start ++ i.id) "ELSE" ++ "_") no
    cases no with
    | nil => simp [stepLines, nodeLines, Line.edges, Line.declared, hyes, Step.id, Step.info]
    | cons s ss =>
      simp [stepLines, nodeLines, Line.edges, Line.declared, hyes, hno, Step.id, Step.info]
  | .loop i c body => by
    simp [stepLines, nodeLines, Line.edges, Line.declared, targets_chain _ _ body, Step.id,
      Step.info]
termination_by structural s => s

/-- The edges of a chain lead to the nodes that it declares, one to each. -/
theorem targets_chain (before start : String) : (ss : List Step) →
    ((chain before start ss).flatMap Line.edges).map (·.2) =
      (chain before start ss).flatMap Line.declared
  | [] => rfl
  | s :: ss => by
    simp only [chain, List.flatMap_append, List.map_append, targets_stepLines before start s,
      targets_chain _ start ss]
termination_by structural ss => ss

end

/-- One node can be reached from another one by edges of some lines. -/
def Reaches (lines : List Line) : String → String → Prop :=
  Relation.ReflTransGen fun a b => (a, b) ∈ lines.flatMap Line.edges

theorem Reaches.mono {lines lines' : List Line} (h : lines ⊆ lines') {a b : String}
    (hr : Reaches lines a b) : Reaches lines' a b := by
  induction hr with
  | refl => exact .refl
  | tail _ hbc ih =>
    obtain ⟨l, hl, he⟩ := List.mem_flatMap.1 hbc
    exact ih.tail (List.mem_flatMap.2 ⟨l, h hl, he⟩)

/-- Some lines hang off a node: what they declare can be reached from it, and their edges come from
it or from what they declare. -/
structure HangsOff (lines : List Line) (root : String) : Prop where
  reaches : ∀ name ∈ lines.flatMap Line.declared, Reaches lines root name
  sources : ∀ e ∈ lines.flatMap Line.edges, e.1 = root ∨ e.1 ∈ lines.flatMap Line.declared

theorem hangsOff_nil (root : String) : HangsOff [] root :=
  ⟨by simp, by simp⟩

/-- Lines hang off a node together with lines that hang off one of their own nodes. -/
theorem HangsOff.append {lines lines' : List Line} {root root' : String} (h : HangsOff lines root)
    (h' : HangsOff lines' root') (hr : root' = root ∨ root' ∈ lines.flatMap Line.declared) :
    HangsOff (lines ++ lines') root := by
  have hroot : Reaches (lines ++ lines') root root' := by
    rcases hr with rfl | hr
    · exact .refl
    · exact (h.reaches _ hr).mono (List.subset_append_left _ _)
  constructor
  · intro name hm
    rw [List.flatMap_append, List.mem_append] at hm
    rcases hm with hm | hm
    · exact (h.reaches _ hm).mono (List.subset_append_left _ _)
    · exact hroot.trans ((h'.reaches _ hm).mono (List.subset_append_right _ _))
  · intro e hm
    rw [List.flatMap_append, List.mem_append] at hm
    rw [List.flatMap_append, List.mem_append]
    rcases hm with hm | hm
    · exact (h.sources e hm).imp_right .inl
    · rcases h'.sources e hm with he | he
      · rw [he]
        exact hr.imp_right .inl
      · exact .inr (.inr he)

theorem hangsOff_nodeLines (before start : String) (s : Step) :
    HangsOff (nodeLines before start s) before := by
  refine ⟨fun name hm => ?_, by simp [nodeLines, Line.edges]⟩
  obtain rfl : name = start ++ s.id := by simpa [nodeLines, Line.declared] using hm
  exact .single (by simp [nodeLines, Line.edges])

theorem hangsOff_anchor (node label name : String) :
    HangsOff [.anchor node label name] node := by
  refine ⟨fun other hm => ?_, by simp [Line.edges]⟩
  obtain rfl : other = name := by simpa [Line.declared] using hm
  exact .single (by simp [Line.edges])

/-- An anchor hangs off its node together with the chain of its branch. -/
theorem HangsOff.anchor {node label name : String} {lines : List Line} (h : HangsOff lines name) :
    HangsOff (.anchor node label name :: lines) node :=
  (hangsOff_anchor node label name).append h (.inr (by simp [Line.declared]))

theorem node_mem_nodeLines (before start : String) (s : Step) :
    start ++ s.id ∈ (nodeLines before start s).flatMap Line.declared := by
  simp [nodeLines, Line.declared]

theorem node_mem_stepLines (before start : String) (s : Step) :
    start ++ s.id ∈ (stepLines before start s).flatMap Line.declared := by
  cases s <;> simp [stepLines, nodeLines, Line.declared]

mutual

theorem hangsOff_stepLines (before start : String) : (s : Step) →
    HangsOff (stepLines before start s) before
  | .act i a => hangsOff_nodeLines before start (.act i a)
  | .branch i c yes no => by
    have hnode := node_mem_nodeLines before start (.branch i c yes no)
    have hlines := hangsOff_nodeLines before start (.branch i c yes no)
    have hyes : HangsOff (.anchor (start ++ i.id) "Then" (anchorName (start ++ i.id) "THEN") ::
        chain (anchorName (start ++ i.id) "THEN") (anchorName (start ++ i.id) "THEN" ++ "_") yes)
        (start ++ i.id) := (hangsOff_chain _ _ yes).anchor
    have hno : HangsOff (if no.isEmpty then [] else
        .anchor (start ++ i.id) "Else" (anchorName (start ++ i.id) "ELSE") ::
          chain (anchorName (start ++ i.id) "ELSE") (anchorName (start ++ i.id) "ELSE" ++ "_") no)
        (start ++ i.id) := by
      split
      · exact hangsOff_nil _
      · exact (hangsOff_chain _ _ no).anchor
    refine (hlines.append hyes (.inr hnode)).append hno (.inr ?_)
    rw [List.flatMap_append]
    exact List.mem_append_left _ hnode
  | .loop i c body => by
    have hbody : HangsOff (.anchor (start ++ i.id) "Body" (anchorName (start ++ i.id) "BODY") ::
        chain (anchorName (start ++ i.id) "BODY") (anchorName (start ++ i.id) "BODY" ++ "_") body)
        (start ++ i.id) := (hangsOff_chain _ _ body).anchor
    exact (hangsOff_nodeLines before start (.loop i c body)).append hbody
      (.inr (node_mem_nodeLines before start (.loop i c body)))
termination_by structural s => s

/-- **A chain hangs off the node that it follows.** -/
theorem hangsOff_chain (before start : String) : (ss : List Step) →
    HangsOff (chain before start ss) before
  | [] => hangsOff_nil before
  | s :: ss => (hangsOff_stepLines before start s).append (hangsOff_chain _ start ss)
      (.inr (node_mem_stepLines before start s))
termination_by structural ss => ss

end

theorem node_mem_chain (before start : String) {s : Step} {ss : List Step} (h : s ∈ ss) :
    start ++ s.id ∈ (chain before start ss).flatMap Line.declared := by
  induction ss generalizing before with
  | nil => simp at h
  | cons t ss ih =>
    rw [chain, List.flatMap_append, List.mem_append]
    obtain rfl | h := List.mem_cons.1 h
    · exact .inl (node_mem_stepLines before start s)
    · exact .inr (ih _ h)

/-! ## Trees -/

/-- The diagram of some steps is a tree: its statements declare one node for each step and one
anchor for each branch that is drawn; these and the start and the end have different names; edges
join them; each has one edge that leads to it, except the start, from which all of them can be
reached; and the end follows the last step, or what stands for no steps. -/
structure IsTree (steps : List Step) : Prop where
  text : render steps = "\n".intercalate ("graph TD" :: (statements steps).map Statement.text)
  nodes : (linesOf (statements steps)).filterMap Line.node? =
    (placedAll "" steps).map fun p => (p.1, escape (label p.2))
  walked : (placedAll "" steps).map (·.2) = (Step.walkAll 0 steps).map (·.1)
  anchors : ((linesOf (statements steps)).filterMap Line.anchor?).Perm
    ((placedAll "" steps).flatMap anchorsOf)
  distinct : (declared (statements steps)).Nodup
  joined : ∀ e ∈ edges (statements steps),
    e.1 ∈ declared (statements steps) ∧ e.2 ∈ declared (statements steps)
  incoming : ∀ name ∈ declared (statements steps), name ≠ "START" →
    ∃ source, (edges (statements steps)).filter (·.2 = name) = [(source, name)]
  reachable : ∀ name ∈ declared (statements steps),
    Relation.ReflTransGen (fun a b => (a, b) ∈ edges (statements steps)) "START" name
  finish : (edges (statements steps)).filter (·.2 = "END") = [(lastNode "EMPTY" "" steps, "END")]

/-- Edges that lead to different nodes lead to each of them once. -/
theorem filter_target {es : List (String × String)} (h : (es.map (·.2)).Nodup) {e : String × String}
    (he : e ∈ es) : es.filter (·.2 = e.2) = [e] := by
  obtain ⟨front, back, rfl⟩ := List.append_of_mem he
  rw [List.map_append, List.map_cons, List.nodup_middle, List.nodup_cons, ← List.map_append] at h
  have hothers : ∀ f ∈ front ++ back, ¬ f.2 = e.2 := fun f hf heq =>
    h.1 (List.mem_map.2 ⟨f, hf, heq⟩)
  have hfront : front.filter (·.2 = e.2) = [] :=
    List.filter_eq_nil_iff.2 fun f hf => by simpa using hothers f (List.mem_append_left _ hf)
  have hback : back.filter (·.2 = e.2) = [] :=
    List.filter_eq_nil_iff.2 fun f hf => by simpa using hothers f (List.mem_append_right _ hf)
  rw [List.filter_append, List.filter_cons, hfront, hback]
  simp

theorem declared_statements (hne : steps ≠ []) : declared (statements steps) =
    "START" :: ((chain "START" "" steps).flatMap Line.declared ++ ["END"]) := by
  simp [declared, statements, hne, Statement.declared, List.flatMap_map]

theorem edges_statements (hne : steps ≠ []) : edges (statements steps) =
    (chain "START" "" steps).flatMap Line.edges ++ [(lastNode "START" "" steps, "END")] := by
  simp [edges, statements, hne, Statement.edges, List.flatMap_map]

/-- The edges of a diagram lead to all nodes but the first. -/
theorem targets_statements (steps : List Step) :
    (edges (statements steps)).map (·.2) = (declared (statements steps)).tail := by
  by_cases hne : steps = []
  · subst hne
    rfl
  · rw [edges_statements hne, declared_statements hne, List.map_append, targets_chain]
    rfl

/-- The nodes of a diagram have different names. -/
theorem nodup_declared_statements (hn : (Step.ids steps).Nodup)
    (hi : ∀ id ∈ Step.ids steps, IsNumbered id) : (declared (statements steps)).Nodup := by
  by_cases hne : steps = []
  · subst hne
    decide
  · have hend : ∀ name ∈ (chain "START" "" steps).flatMap Line.declared,
        name ≠ "START" ∧ name ≠ "END" := by
      intro name hm
      constructor <;> rintro rfl <;> rcases lastPart_declared hi hm with h | h
      · exact not_isNumbered (by decide) h
      · exact absurd h (by decide)
      · exact not_isNumbered (by decide) h
      · exact absurd h (by decide)
    rw [declared_statements hne, List.nodup_cons, List.mem_append, List.nodup_append]
    refine ⟨?_, nodup_declared_chain hn hi, by simp, ?_⟩
    · rintro (hm | hm)
      · exact (hend _ hm).1 rfl
      · simp at hm
    · intro name hm other ho
      rw [List.mem_singleton.1 ho]
      exact (hend _ hm).2

/-- The end follows the last step. -/
theorem lastNode_mem_declared (hne : steps ≠ []) :
    lastNode "START" "" steps ∈ (chain "START" "" steps).flatMap Line.declared := by
  obtain ⟨s, hs⟩ := Option.ne_none_iff_exists'.1 (mt List.getLast?_eq_none_iff.1 hne)
  have hlast : lastNode "START" "" steps = "" ++ s.id := by rw [lastNode, hs]
  rw [hlast]
  exact node_mem_chain _ _ (List.mem_of_getLast? hs)

theorem source_mem_declared {e : String × String} (he : e ∈ edges (statements steps)) :
    e.1 ∈ declared (statements steps) := by
  by_cases hne : steps = []
  · subst hne
    have hall : ∀ e ∈ edges (statements []), e.1 ∈ declared (statements []) := by decide
    exact hall e he
  · rw [declared_statements hne, List.mem_cons, List.mem_append]
    rw [edges_statements hne, List.mem_append] at he
    rcases he with he | he
    · exact ((hangsOff_chain "START" "" steps).sources e he).imp_right .inl
    · rw [List.mem_singleton.1 he]
      exact .inr (.inl (lastNode_mem_declared hne))

theorem target_mem_declared {e : String × String} (he : e ∈ edges (statements steps)) :
    e.2 ∈ declared (statements steps) := by
  refine List.mem_of_mem_tail ?_
  rw [← targets_statements]
  exact List.mem_map_of_mem he

/-- Everything that a diagram declares can be reached from the start. -/
theorem reachable_statements {name : String} (h : name ∈ declared (statements steps)) :
    Relation.ReflTransGen (fun a b => (a, b) ∈ edges (statements steps)) "START" name := by
  by_cases hne : steps = []
  · subst hne
    have hempty : ("START", "EMPTY") ∈ edges (statements []) := by decide
    have hend : ("EMPTY", "END") ∈ edges (statements []) := by decide
    have hnames : declared (statements []) = ["START", "EMPTY", "END"] := rfl
    rw [hnames] at h
    simp only [List.mem_cons, List.not_mem_nil, or_false] at h
    rcases h with rfl | rfl | rfl
    · exact .refl
    · exact .single hempty
    · exact .tail (.single hempty) hend
  · have hsub : ∀ e ∈ (chain "START" "" steps).flatMap Line.edges,
        e ∈ edges (statements steps) := by
      rw [edges_statements hne]
      exact fun e he => List.mem_append_left _ he
    have hchain : ∀ name ∈ (chain "START" "" steps).flatMap Line.declared,
        Relation.ReflTransGen (fun a b => (a, b) ∈ edges (statements steps)) "START" name :=
      fun name hm => Relation.ReflTransGen.mono (fun a b => hsub (a, b)) _ _
        ((hangsOff_chain "START" "" steps).reaches name hm)
    rw [declared_statements hne, List.mem_cons, List.mem_append] at h
    rcases h with rfl | h | h
    · exact .refl
    · exact hchain name h
    · obtain rfl := List.mem_singleton.1 h
      refine (hchain _ (lastNode_mem_declared hne)).tail ?_
      rw [edges_statements hne]
      exact List.mem_append_right _ (.head _)

theorem finish_mem_edges (steps : List Step) :
    (lastNode "EMPTY" "" steps, "END") ∈ edges (statements steps) := by
  by_cases hne : steps = []
  · subst hne
    decide
  · obtain ⟨s, hs⟩ := Option.ne_none_iff_exists'.1 (mt List.getLast?_eq_none_iff.1 hne)
    have hlast : lastNode "EMPTY" "" steps = lastNode "START" "" steps := by
      simp only [lastNode, hs]
    rw [hlast, edges_statements hne]
    exact List.mem_append_right _ (.head _)

/-- **Diagrams are trees**, if different steps have different names. -/
theorem isTree_of_nodup (hn : (Step.ids steps).Nodup) (hi : ∀ id ∈ Step.ids steps, IsNumbered id) :
    IsTree steps := by
  have hdistinct := nodup_declared_statements hn hi
  have htargets : ((edges (statements steps)).map (·.2)).Nodup := by
    rw [targets_statements]
    exact hdistinct.tail
  refine ⟨render_eq steps, nodes_statements steps, map_snd_placedAll "" 0 steps,
    anchors_statements steps, hdistinct,
    fun e he => ⟨source_mem_declared he, target_mem_declared he⟩, fun name hm hne => ?_,
    fun name hm => reachable_statements hm, filter_target htargets (finish_mem_edges steps)⟩
  have hm' : name ∈ (edges (statements steps)).map (·.2) := by
    rw [targets_statements]
    cases hd : declared (statements steps) with
    | nil => simp [hd] at hm
    | cons first rest =>
      have hfirst : first = "START" := by
        have hhead : (declared (statements steps)).head? = some "START" := by
          simp [declared, statements, Statement.declared]
        simpa [hd] using hhead
      rw [hd, List.mem_cons] at hm
      exact hm.resolve_left (hfirst ▸ hne)
  obtain ⟨e, he, rfl⟩ := List.mem_map.1 hm'
  exact ⟨e.1, filter_target htargets he⟩

/-- A branch with a loop inside it and an alternative. -/
def nestedSteps : List Step :=
  [.branch (.of "step1" "if x" "" [] .execute) (.contains "x" "y")
    [.loop (.of "step2" "while x" "" [] .execute) (.contains "x" "z") [.single "step3" .leave ""]]
    [.single "step4" .leave ""],
   .single "step5" .leave ""]

theorem isTree_of_nestedSteps :
    (Step.ids nestedSteps).Nodup ∧ (∀ id ∈ Step.ids nestedSteps, IsNumbered id) ∧
      declared (statements nestedSteps) = ["START", "step1", "step1_THEN", "step1_THEN_step2",
        "step1_THEN_step2_BODY", "step1_THEN_step2_BODY_step3", "step1_ELSE", "step1_ELSE_step4",
        "step5", "END"] ∧
      (edges (statements nestedSteps)).filter (·.2 = "END") = [("step5", "END")] := by
  have hn : (Step.ids nestedSteps).Nodup := by decide
  have hi : ∀ id ∈ Step.ids nestedSteps, IsNumbered id := by
    intro id hm
    have hids : Step.ids nestedSteps = ["step1", "step2", "step3", "step4", "step5"] := rfl
    rw [hids] at hm
    simp only [List.mem_cons, List.not_mem_nil, or_false] at hm
    rcases hm with rfl | rfl | rfl | rfl | rfl <;>
      exact ⟨_, rfl, by simp, List.all_eq_true.1 rfl⟩
  exact ⟨hn, hi, rfl, (isTree_of_nodup hn hi).finish⟩

end FlowScript.Diagram
