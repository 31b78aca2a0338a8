import FlowScript.Proofs.Text.Forms
import FlowScript.Proofs.Workflow.Diagram

/-!
# Diagrams that are read back

The text of a diagram is cut into rows at its line feeds. A row about steps is read back as the line
that it shows, because names are words of ASCII and no label holds a quote, and nothing else is read
as such a line.

## Main definitions

* `rows`: what stands between the line feeds of a text.
* `Diagram.Line.read?`: the line about steps that a row shows.
* `Diagram.Line.IsClean`: the lines that can be read back.

## Main statements

* `Diagram.Line.read?_eq_some_iff`: the rows that are read are the texts of clean lines.
* `Diagram.clean_chain`: the lines of a diagram are clean.
* `Diagram.rows_render`: the rows of a diagram.
-/
namespace FlowScript

open Text

/-! ## Rows -/

/-- What stands between the line feeds of a text, in order. -/
def rows (text : String) : List String :=
  (text.toList.splitOn '\n').map String.ofList

/-- Texts of one line each are cut apart again. -/
theorem rows_intercalate {texts : List String} (hne : texts ≠ [])
    (h : ∀ text ∈ texts, '\n' ∉ text.toList) : rows ("\n".intercalate texts) = texts := by
  have hlines : ∀ cs ∈ texts.map String.toList, '\n' ∉ cs := by simpa using h
  have hsep : "\n".toList = ['\n'] := rfl
  rw [rows, String.toList_intercalate, hsep,
    List.splitOn_intercalate '\n' hlines (by simpa using hne), List.map_map]
  simp [Function.comp_def]

/-! ## Reading parts of a row -/

namespace Text.Scan

variable {α : Type} {cs : List Char} {a : α}

/-- Some characters, exactly. -/
def exactly (word : String) (next : Scan α) : Scan α := fun cs =>
  (cs.dropPrefix? word.toList).bind next

/-- A nonempty run of characters of a class as a text. -/
def run (p : Char → Bool) (next : String → Scan α) : Scan α :=
  some1 p fun cs => next (String.ofList cs)

theorem exactly_eq_some_iff {word : String} {next : Scan α} :
    exactly word next cs = some a ↔ ∃ after, cs = word.toList ++ after ∧ next after = some a := by
  simp only [exactly, Option.bind_eq_some_iff, List.dropPrefix?_eq_some_iff, beq_iff_eq]
  constructor
  · rintro ⟨after, ⟨_, rfl, rfl⟩, h⟩
    exact ⟨after, rfl, h⟩
  · rintro ⟨after, rfl, h⟩
    exact ⟨after, ⟨_, rfl, rfl⟩, h⟩

theorem exactly_append (word : String) (next : Scan α) (cs : List Char) :
    exactly word next (word.toList ++ cs) = next cs := by
  rw [exactly, List.dropPrefix?_append_of_beq _ (by simp), Option.bind_some]

theorem run_eq_some {p : Char → Bool} {next : String → Scan α} (h : run p next cs = some a) :
    ∃ s after, cs = s.toList ++ after ∧ s.toList ≠ [] ∧ (∀ c ∈ s.toList, p c) ∧
      next s after = some a := by
  simp only [run, some1] at h
  split at h
  · simp at h
  · rename_i hne
    refine ⟨_, _, ?_, ?_, ?_, h⟩
    · rw [String.toList_ofList, List.takeWhile_append_dropWhile]
    · simpa using hne
    · rw [String.toList_ofList]
      exact List.all_eq_true.1 List.all_takeWhile

/-- A run is read up to the end of the text. -/
theorem run_all {p : Char → Bool} {s : String} (hne : s.toList ≠ []) (hs : ∀ c ∈ s.toList, p c)
    (next : String → Scan α) : run p next s.toList = next s [] := by
  have h := some1_append hne hs [] (by simp) fun cs => next (String.ofList cs)
  rwa [List.append_nil, String.ofList_toList] at h

/-- A run is read up to characters that do not begin in its class. -/
theorem run_append {p : Char → Bool} {s word : String} (hne : s.toList ≠ [])
    (hs : ∀ c ∈ s.toList, p c) (hw : word.toList.head?.map p = some false) (cs : List Char)
    (next : String → Scan α) :
    run p next (s.toList ++ (word.toList ++ cs)) = next s (word.toList ++ cs) := by
  obtain ⟨first, hfirst, hp⟩ := Option.map_eq_some_iff.1 hw
  have hhead : ∀ c ∈ (word.toList ++ cs).head?, p c = false := by
    intro c hc
    rw [List.head?_append, hfirst, Option.some_or, Option.mem_some_iff] at hc
    exact hc ▸ hp
  rw [run, some1_append hne hs _ hhead, String.ofList_toList]

end Text.Scan

/-! ## Reading lines -/

namespace Diagram

open Scan

/-- A name that nodes can have: a word of ASCII. -/
def IsName (s : String) : Prop :=
  s.toList ≠ [] ∧ ∀ c ∈ s.toList, isAsciiWord c

instance (s : String) : Decidable (IsName s) :=
  decidable_of_iff (s.toList ≠ [] ∧ s.toList.all isAsciiWord) (by rw [IsName, List.all_eq_true])

theorem IsName.oneLine {s : String} (h : IsName s) : '\n' ∉ s.toList :=
  fun hm => absurd (h.2 _ hm) (by decide)

namespace Line

/-- What stands behind the name of a node. -/
def nodeRest (name : String) : Scan Line :=
  exactly "[\x22" (run (· ≠ '\x22') fun label => exactly "\x22]" (done (node name label)))

/-- What stands behind the source of an edge. -/
def edgeRest (source : String) : Scan Line :=
  exactly " --> " (run isAsciiWord fun target => done (edge source target))

/-- What stands behind the node of an anchor. -/
def anchorRest (source : String) : Scan Line :=
  exactly " -->|" (run isAsciiWord fun label =>
    exactly "| " (run isAsciiWord fun target =>
      exactly "[" (exactly label (exactly "]" (done (anchor source label target))))))

/-- The line about steps that a row shows. -/
def read? : Scan Line :=
  exactly "    " (run isAsciiWord fun source =>
    either (nodeRest source) (either (edgeRest source) (anchorRest source)))

/-- A line whose names are words of ASCII and whose label holds no quote. -/
def IsClean : Line → Prop
  | node name label => IsName name ∧ label.toList ≠ [] ∧ '\x22' ∉ label.toList
  | edge source target => IsName source ∧ IsName target
  | anchor source label target => IsName source ∧ IsName label ∧ IsName target

variable {cs : List Char} {l : Line}

theorem clean_of_read? (h : read? cs = some l) : cs = l.text.toList ∧ l.IsClean := by
  obtain ⟨_, rfl, h₁⟩ := exactly_eq_some_iff.1 h
  obtain ⟨source, _, rfl, hne, hs, h₂⟩ := run_eq_some h₁
  rcases either_eq_some h₂ with h₃ | h₃
  · obtain ⟨_, rfl, h₄⟩ := exactly_eq_some_iff.1 h₃
    obtain ⟨label, _, rfl, hl, hq, h₅⟩ := run_eq_some h₄
    obtain ⟨_, rfl, h₆⟩ := exactly_eq_some_iff.1 h₅
    obtain ⟨rfl, rfl⟩ := done_eq_some.1 h₆
    refine ⟨by simp [text], ⟨hne, hs⟩, hl, fun hm => ?_⟩
    simpa using hq _ hm
  · rcases either_eq_some h₃ with h₄ | h₄
    · obtain ⟨_, rfl, h₅⟩ := exactly_eq_some_iff.1 h₄
      obtain ⟨target, _, rfl, ht, hw, h₆⟩ := run_eq_some h₅
      obtain ⟨rfl, rfl⟩ := done_eq_some.1 h₆
      exact ⟨by simp [text], ⟨hne, hs⟩, ht, hw⟩
    · obtain ⟨_, rfl, h₅⟩ := exactly_eq_some_iff.1 h₄
      obtain ⟨label, _, rfl, hl, hlw, h₆⟩ := run_eq_some h₅
      obtain ⟨_, rfl, h₇⟩ := exactly_eq_some_iff.1 h₆
      obtain ⟨target, _, rfl, ht, hw, h₈⟩ := run_eq_some h₇
      obtain ⟨_, rfl, h₉⟩ := exactly_eq_some_iff.1 h₈
      obtain ⟨_, rfl, h₁₀⟩ := exactly_eq_some_iff.1 h₉
      obtain ⟨_, rfl, h₁₁⟩ := exactly_eq_some_iff.1 h₁₀
      obtain ⟨rfl, rfl⟩ := done_eq_some.1 h₁₁
      exact ⟨by simp [text], ⟨hne, hs⟩, ⟨hl, hlw⟩, ht, hw⟩

theorem read?_text (h : l.IsClean) : read? l.text.toList = some l := by
  cases l with
  | node name label =>
    obtain ⟨⟨hne, hs⟩, hl, hq⟩ := h
    have hlabel : ∀ c ∈ label.toList, decide (c ≠ '\x22') := by
      intro c hc
      simp only [decide_eq_true_eq]
      rintro rfl
      exact hq hc
    have ht : (node name label).text.toList = "    ".toList ++ (name.toList ++
        ("[\x22".toList ++ (label.toList ++ ("\x22]".toList ++ [])))) := by
      simp [text]
    rw [ht, read?, exactly_append, run_append hne hs (by decide), either, nodeRest, exactly_append,
      run_append hl hlabel (by decide), exactly_append]
    rfl
  | edge source target =>
    obtain ⟨⟨hne, hs⟩, hn, ht⟩ := h
    have htext : (edge source target).text.toList = "    ".toList ++ (source.toList ++
        (" --> ".toList ++ target.toList)) := by
      simp [text]
    have hnode : nodeRest source (" --> ".toList ++ target.toList) = none := rfl
    rw [htext, read?, exactly_append, run_append hne hs (by decide), either, hnode, either,
      edgeRest, exactly_append, run_all hn ht]
    rfl
  | anchor source label target =>
    obtain ⟨⟨hne, hs⟩, ⟨hl, hlw⟩, hn, ht⟩ := h
    have htext : (anchor source label target).text.toList = "    ".toList ++ (source.toList ++
        (" -->|".toList ++ (label.toList ++ ("| ".toList ++ (target.toList ++
          ("[".toList ++ (label.toList ++ ("]".toList ++ [])))))))) := by
      simp [text]
    have hnode (cs : List Char) : nodeRest source (" -->|".toList ++ cs) = none := rfl
    have hedge (cs : List Char) : edgeRest source (" -->|".toList ++ cs) = none := rfl
    rw [htext, read?, exactly_append, run_append hne hs (by decide), either, hnode, either, hedge,
      anchorRest, exactly_append, run_append hl hlw (by decide), exactly_append,
      run_append hn ht (by decide), exactly_append, exactly_append, exactly_append]
    rfl

/-- **The rows that are read** are the texts of clean lines, each of one line alone. -/
theorem read?_eq_some_iff : read? cs = some l ↔ cs = l.text.toList ∧ l.IsClean := by
  constructor
  · exact clean_of_read?
  · rintro ⟨rfl, h⟩
    exact read?_text h

theorem IsClean.isName_declared (h : l.IsClean) : ∀ name ∈ l.declared, IsName name := by
  cases l with
  | node name label => simpa [declared] using h.1
  | edge source target => simp [declared]
  | anchor source label target => simpa [declared] using h.2.2

/-- Clean lines have one line, if the labels of nodes have. -/
theorem IsClean.oneLine (h : l.IsClean) (hl : ∀ p ∈ l.node?, '\n' ∉ p.2.toList) :
    '\n' ∉ l.text.toList := by
  cases l with
  | node name label =>
    have hlabel := hl (name, label) rfl
    simp [text, h.1.oneLine, hlabel]
  | edge source target => simp [text, h.1.oneLine, h.2.oneLine]
  | anchor source label target => simp [text, h.1.oneLine, h.2.1.oneLine, h.2.2.oneLine]

end Line

/-! ## Lines of diagrams -/

theorem mem_escape {s : String} {c : Char} (h : c ∈ (escape s).toList) :
    c ≠ '\x22' ∧ (c ∈ s.toList ∨ c ∈ "#quot;".toList) := by
  simp only [escape, String.toList_ofList, List.mem_flatMap] at h
  obtain ⟨d, hd, hc⟩ := h
  split at hc
  · have hall : ∀ c ∈ "#quot;".toList, c ≠ '\x22' := by simp
    exact ⟨hall c hc, .inr hc⟩
  · rename_i hne
    obtain rfl := List.mem_singleton.1 hc
    exact ⟨hne, .inl hd⟩

theorem escape_ne_nil {s : String} (h : s.toList ≠ []) : (escape s).toList ≠ [] := by
  obtain ⟨c, cs, hc⟩ := List.exists_cons_of_ne_nil h
  rw [escape, String.toList_ofList, hc, List.flatMap_cons]
  split
  · exact List.append_ne_nil_of_left_ne_nil (by decide) _
  · exact List.cons_ne_nil _ _

theorem label_ne_nil (s : Step) : (label s).toList ≠ [] := by
  cases s with
  | act i a => cases a <;> simp [label, actionLabel]
  | branch i c yes no => simp [label]
  | loop i c body => simp [label]

theorem IsName.append {start s : String} (hs : ∀ c ∈ start.toList, isAsciiWord c) (h : IsName s) :
    IsName (start ++ s) := by
  rw [IsName, String.toList_append]
  refine ⟨by simp [h.1], fun c hc => ?_⟩
  rcases List.mem_append.1 hc with hc | hc
  · exact hs c hc
  · exact h.2 c hc

theorem isName_of_isNumbered {s : String} (h : IsNumbered s) : IsName s := by
  obtain ⟨digits, hs, -, hd⟩ := h
  rw [IsName, hs]
  refine ⟨by simp, fun c hc => ?_⟩
  rcases List.mem_append.1 hc with hc | hc
  · have hstep : IsName "step" := by decide
    exact hstep.2 c hc
  · simp [isAsciiWord, Char.isAlphanum, hd c hc]

theorem IsName.anchorName {node kind : String} (h : IsName node) (hk : kind ∈ kinds) :
    IsName (anchorName node kind) := by
  have hkinds : ∀ kind ∈ kinds, IsName ("_" ++ kind) := by decide
  rw [Diagram.anchorName, String.append_assoc]
  exact (hkinds kind hk).append h.2

/-- The names of nodes go on behind the names of anchors. -/
theorem IsName.underscore {node : String} (h : IsName node) :
    ∀ c ∈ (node ++ "_").toList, isAsciiWord c := by
  intro c hc
  rw [String.toList_append, List.mem_append] at hc
  rcases hc with hc | hc
  · exact h.2 c hc
  · have hunderscore : IsName "_" := by decide
    exact hunderscore.2 c hc

theorem clean_nodeLines {before start : String} {s : Step} (hb : IsName before)
    (hn : IsName (start ++ s.id)) : ∀ l ∈ nodeLines before start s, l.IsClean := by
  simp only [nodeLines, List.forall_mem_cons, List.not_mem_nil, false_imp_iff, implies_true,
    and_true]
  exact ⟨⟨hn, escape_ne_nil (label_ne_nil s), fun hm => (mem_escape hm).1 rfl⟩, hb, hn⟩

mutual

theorem clean_stepLines {before start : String} (hb : IsName before)
    (hs : ∀ c ∈ start.toList, isAsciiWord c) : (s : Step) → (∀ id ∈ Step.ids [s], IsName id) →
      ∀ l ∈ stepLines before start s, l.IsClean
  | .act i a, hi => clean_nodeLines hb (.append hs (hi i.id (by simp)))
  | .branch i c yes no, hi => by
    simp only [Step.ids_branch, List.forall_mem_cons, List.forall_mem_append] at hi
    have hnode : IsName (start ++ i.id) := .append hs hi.1
    have hyes : IsName (anchorName (start ++ i.id) "THEN") := hnode.anchorName (by decide)
    have hno : IsName (anchorName (start ++ i.id) "ELSE") := hnode.anchorName (by decide)
    have hlines := clean_chain hno hno.underscore no hi.2.2
    simp only [stepLines, List.forall_mem_append, List.forall_mem_cons]
    refine ⟨⟨clean_nodeLines hb hnode, ⟨hnode, by decide, hyes⟩,
      clean_chain hyes hyes.underscore yes hi.2.1⟩, ?_⟩
    split
    · simp
    · rw [List.forall_mem_cons]
      exact ⟨⟨hnode, by decide, hno⟩, hlines⟩
  | .loop i c body, hi => by
    simp only [Step.ids_loop, List.forall_mem_cons] at hi
    have hnode : IsName (start ++ i.id) := .append hs hi.1
    have hbody : IsName (anchorName (start ++ i.id) "BODY") := hnode.anchorName (by decide)
    simp only [stepLines, List.forall_mem_append, List.forall_mem_cons]
    exact ⟨clean_nodeLines hb hnode, ⟨hnode, by decide, hbody⟩,
      clean_chain hbody hbody.underscore body hi.2⟩
termination_by structural s => s

/-- **The lines of a chain are clean**, if the names of steps can be names of nodes. -/
theorem clean_chain {before start : String} (hb : IsName before)
    (hs : ∀ c ∈ start.toList, isAsciiWord c) : (ss : List Step) → (∀ id ∈ Step.ids ss, IsName id) →
      ∀ l ∈ chain before start ss, l.IsClean
  | [], _ => by simp [chain]
  | s :: ss, hi => by
    rw [Step.ids_cons, List.forall_mem_append] at hi
    rw [chain, List.forall_mem_append]
    have hid : s.id ∈ Step.ids [s] := by
      cases s <;> simp [Step.id, Step.info]
    have hnode : IsName (start ++ s.id) := .append hs (hi.1 s.id hid)
    exact ⟨clean_stepLines hb hs s hi.1, clean_chain hnode hs ss hi.2⟩
termination_by structural ss => ss

end

/-! ## Rows of diagrams -/

section

variable {ss : List Step}

theorem clean_of_isNumbered (hi : ∀ id ∈ Step.ids ss, IsNumbered id) :
    ∀ l ∈ chain "START" "" ss, l.IsClean :=
  clean_chain (by decide) (by simp) ss fun id hm => isName_of_isNumbered (hi id hm)

theorem isName_lastNode (hne : ss ≠ []) (hi : ∀ id ∈ Step.ids ss, IsNumbered id) :
    IsName (lastNode "START" "" ss) := by
  obtain ⟨l, hl, hm⟩ := List.mem_flatMap.1 (lastNode_mem_declared hne)
  exact (clean_of_isNumbered hi l hl).isName_declared _ hm

/-- The labels of nodes have one line, if the labels of steps have. -/
theorem oneLine_of_node? (hl : ∀ visit ∈ Step.walkAll 0 ss, '\n' ∉ (label visit.1).toList)
    {l : Line} (hm : l ∈ chain "START" "" ss) : ∀ p ∈ l.node?, '\n' ∉ p.2.toList := by
  intro p hp
  have hnode : p ∈ (chain "START" "" ss).filterMap Line.node? := List.mem_filterMap.2 ⟨l, hm, hp⟩
  rw [nodes_chain, List.mem_map] at hnode
  obtain ⟨q, hq, rfl⟩ := hnode
  have hstep : q.2 ∈ (Step.walkAll 0 ss).map (·.1) := by
    rw [← map_snd_placedAll "" 0 ss]
    exact List.mem_map_of_mem hq
  obtain ⟨visit, hv, he⟩ := List.mem_map.1 hstep
  intro hn
  rcases (mem_escape hn).2 with hn | hn
  · exact hl visit hv (he ▸ hn)
  · exact absurd hn (by decide)

/-- **The rows of a diagram** are a heading and its statements. -/
theorem rows_render (hi : ∀ id ∈ Step.ids ss, IsNumbered id)
    (hl : ∀ visit ∈ Step.walkAll 0 ss, '\n' ∉ (label visit.1).toList) :
    rows (render ss) = "graph TD" :: (statements ss).map Statement.text := by
  rw [render_eq]
  refine rows_intercalate (by simp) ?_
  rw [List.forall_mem_cons, List.forall_mem_map]
  refine ⟨by decide, ?_⟩
  rw [statements, List.forall_mem_cons]
  refine ⟨by decide, ?_⟩
  cases hss : ss.isEmpty with
  | true => simp [Statement.text]
  | false =>
    have hne : ss ≠ [] := by simpa using hss
    rw [if_neg (by simp), List.forall_mem_append, List.forall_mem_map, List.forall_mem_singleton]
    constructor
    · intro l hm
      exact (clean_of_isNumbered hi l hm).oneLine (oneLine_of_node? hl hm)
    · simp [Statement.text, (isName_lastNode hne hi).oneLine]

/-! ## Nodes in a text -/

theorem Line.read?_finish {last : String} (h : IsName last) :
    Line.read? (Statement.finish last).text.toList = none := by
  have ht : (Statement.finish last).text.toList = "    ".toList ++ (last.toList ++
      (" --> END([End])".toList ++ [])) := by
    simp [Statement.text]
  rw [ht, Line.read?, exactly_append, run_append h.1 h.2 (by decide)]
  rfl

/-- The lines that the rows of a diagram are read as. -/
theorem Line.read?_statements (hi : ∀ id ∈ Step.ids ss, IsNumbered id) :
    (statements ss).filterMap (fun s => Line.read? s.text.toList) = chain "START" "" ss := by
  have hstart : Line.read? Statement.start.text.toList = none := by decide
  have hnothing : Line.read? Statement.nothing.text.toList = none := by decide
  rw [statements, List.filterMap_cons, hstart]
  cases hss : ss.isEmpty with
  | true =>
    obtain rfl := List.isEmpty_iff.1 hss
    simp [hnothing, chain]
  | false =>
    have hne : ss ≠ [] := by simpa using hss
    have hfinish := Line.read?_finish (isName_lastNode hne hi)
    have hlines : ∀ l ∈ chain "START" "" ss, Line.read? l.text.toList = some l :=
      fun l hm => Line.read?_text (clean_of_isNumbered hi l hm)
    simp only [Bool.false_eq_true, if_false, List.filterMap_append, List.filterMap_map,
      List.filterMap_cons, hfinish, List.filterMap_nil, List.append_nil]
    exact (List.filterMap_congr hlines).trans List.filterMap_some

/-- The nodes of steps that a text declares, with their labels, in order. -/
def nodesIn (text : String) : List (String × String) :=
  (rows text).filterMap fun row => (Line.read? row.toList).bind Line.node?

/-- **The nodes in the text of a diagram** are those of its steps, in the order of a walk. -/
theorem nodesIn_render (hi : ∀ id ∈ Step.ids ss, IsNumbered id)
    (hl : ∀ visit ∈ Step.walkAll 0 ss, '\n' ∉ (label visit.1).toList) :
    nodesIn (render ss) = (placedAll "" ss).map fun p => (p.1, escape (label p.2)) := by
  have htitle : Line.read? "graph TD".toList = none := by decide
  have hlines := congrArg (List.filterMap Line.node?) (Line.read?_statements hi)
  rw [List.filterMap_filterMap, nodes_chain] at hlines
  rw [nodesIn, rows_render hi hl, List.filterMap_cons, htitle, Option.bind_none,
    List.filterMap_map]
  exact hlines

end

end Diagram
end FlowScript
