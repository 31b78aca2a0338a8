import FlowScript.Proofs.Session.Types
import FlowScript.Proofs.Workflow.Signature

/-!
# Types of inputs and outputs

The types in a signature are those that were recorded when the commands of the text were carried
out. A walk over the steps tells the same for every variable to which no definition assigns. A
definition records its types where it stands, whether it is called or not, and calls record nothing,
so that a walk may tell another type for a variable of a template.

## Main statements

* `types_of_assemble`: the types of inputs and outputs.
* `last_written_not_recorded`: a text whose steps tell other types than its signature.
-/
namespace FlowScript

open Step

-- Otherwise the elaborator reads the line of a run whenever a run is given to a lemma.
attribute [local irreducible] Compile.Run

namespace Workflow

variable {name : String} {lines : List String} {s t : Session} {steps : List Step}
  {defs : List Definition}

theorem Run.records (h : Run lines s steps defs t) : s.Recording t [] := by
  induction h with
  | nil => exact ⟨[], [], by simp, .nil, rfl⟩
  | cons h ho ih =>
    obtain ⟨es, rs, hj, hr, ht⟩ := h.records
    obtain ⟨fs, qs, hj', hr', ht'⟩ := ih
    refine ⟨es ++ fs, rs ++ qs, ?_, hr.append hr', ?_⟩
    · rw [hj', hj, List.append_assoc]
    · rw [ht', ht, ← Registry.register_append]
      rfl

/-- The steps of some lines tell the type of a variable to which no definition assigns. -/
theorem Run.types (h : Run lines s steps defs t) (hs : s.Spares name)
    (hd : ∀ d ∈ defs, Unwritten name d.2) : s.Types name steps t := by
  induction h with
  | nil => rfl
  | cons h ho ih =>
    obtain ⟨ht, hu⟩ := h.types hs fun d hm => hd d (List.mem_append_left _ hm)
    have hi := ih hu fun d hm => hd d (List.mem_append_right _ hm)
    rw [Session.Types] at ht hi ⊢
    rw [recordedAll_append, lastOf?_append, Option.or_assoc, ← ht]
    exact hi

/-- All variables that the steps of some lines assign to have a type. -/
theorem Run.covers (h : Run lines s steps defs t) (hs : s.Typed) : s.Covers steps t := by
  induction h with
  | nil => exact ⟨trivial, hs, fun _ hn => hn⟩
  | cons h ho ih =>
    obtain ⟨hfirst, hu, hm⟩ := h.covers hs
    obtain ⟨hothers, ht, hm'⟩ := ih hu
    exact ⟨eachAll_append.2 ⟨hm'.knowsAll hfirst, hothers⟩, ht, hm'.trans hm⟩

/-- What `set` steps assign to is written by them. -/
theorem mem_written_of_mem_allWrites {ss : List Step} (h : name ∈ allWrites ss) :
    name ∈ (written ss).map (·.1) := by
  rw [allWrites, Step.allNames, mem_distinct] at h
  obtain ⟨visit, hv, hn⟩ := List.mem_flatMap.1 h
  obtain ⟨step, depth⟩ := visit
  cases step with
  | act i a =>
    cases a with
    | set target value =>
      rw [List.mem_singleton.1 hn]
      have he : (target, value.type.name) ∈ written ss :=
        List.mem_flatMap.2 ⟨_, hv, List.mem_singleton.2 rfl⟩
      exact List.mem_map_of_mem he
    | _ => exact absurd hn List.not_mem_nil
  | branch i c yes no => exact absurd hn List.not_mem_nil
  | loop i c body => exact absurd hn List.not_mem_nil

theorem mem_entries_typed {types : Registry String} {names : List String} (h : names.Nodup)
    {e : String × String} : e ∈ (typed types names).entries ↔
      e.1 ∈ names ∧ e.2 = (types.find? e.1).getD ValueType.string.name := by
  rw [entries_typed types h, List.mem_map]
  constructor
  · rintro ⟨name, hn, rfl⟩
    exact ⟨hn, rfl⟩
  · rintro ⟨hn, he⟩
    exact ⟨e.1, hn, by rw [← he]⟩

/-- Every output has the type that was recorded for it last. -/
theorem Run.find?_output (h : Run lines {} steps defs t) {e : String × String}
    (he : e ∈ (typed t.types (allWrites steps)).entries) : t.types.find? e.1 = some e.2 := by
  obtain ⟨hn, he⟩ := (mem_entries_typed (nodup_distinct _)).1 he
  obtain ⟨f, hf, hfe⟩ := List.mem_map.1 (mem_written_of_mem_allWrites hn)
  have hknown : t.KnowsAll steps := (h.covers fun e he => absurd he List.not_mem_nil).steps
  have hk : t.Knows e.1 := hfe ▸ Session.KnowsAll.knows hknown f hf
  obtain ⟨type, htype⟩ := Option.isSome_iff_exists.1 hk
  rw [he, htype]
  rfl

/-- The steps of a text tell the type of a variable to which no definition assigns. -/
theorem Run.find?_unwritten (h : Run lines {} steps defs t) (hd : ∀ d ∈ defs, Unwritten name d.2) :
    t.types.find? name = lastOf? name (recordedAll steps) := by
  have hi : Session.Spares {} name := fun e he => absurd he List.not_mem_nil
  rw [h.types hi hd]
  exact Option.or_none

/-- The steps that close counted loops tell nothing about other variables. -/
theorem lastOf?_written (hc : isLoopCounter name = false) (ss : List Step) :
    lastOf? name (written ss) = lastOf? name (recordedAll ss) := by
  have hf (es : List (String × String)) :
      lastOf? name (es.filter fun e => !isLoopCounter e.1) = lastOf? name es := by
    apply lastOf?_filter
    intro type
    simp [hc]
  rw [← hf, ← filter_recordedAll, hf]

end Workflow

variable {function text : String} {w : Workflow} {t : Session}

/-- **The types of inputs and outputs** are the last ones that the commands of the text recorded, in
the order in which they were carried out; every output has one. For a variable to which no
definition assigns, this is the type that the last of the steps gives to it on a walk, the steps
that close counted loops left out; and an input to which no step and no definition assigns is
text. -/
theorem types_of_assemble (h : Workflow.assemble function text {} = .ok w t) :
    ∃ rs defs, Records t.journal rs ∧ Workflow.Run (Text.commandLines text) {} w.steps defs t ∧
      (∀ e ∈ w.outputs.entries, lastOf? e.1 rs = some e.2) ∧
      (∀ e ∈ w.inputs.entries, e.2 = (lastOf? e.1 rs).getD "string") ∧
      (∀ e ∈ w.outputs.entries, (∀ d ∈ defs, Unwritten e.1 d.2) →
        lastOf? e.1 (recordedAll w.steps) = some e.2 ∧
        (isLoopCounter e.1 = false → lastOf? e.1 (written w.steps) = some e.2)) ∧
      ∀ e ∈ w.inputs.entries, Unwritten e.1 w.steps → (∀ d ∈ defs, Unwritten e.1 d.2) →
        e.2 = "string" := by
  obtain ⟨steps, hs, rfl⟩ := Workflow.assemble_eq_ok.1 h
  obtain ⟨defs, hr⟩ := Workflow.exists_run_of_stepsOf hs
  obtain ⟨es, rs, hj, hrs, ht⟩ := hr.records
  have hlast : ∀ name, t.types.find? name = lastOf? name rs := by
    intro name
    rw [ht, Registry.find?_register]
    exact Option.or_none
  refine ⟨rs, defs, ?_, hr, ?_, ?_, ?_, ?_⟩
  · rw [hj]
    exact hrs
  · intro e he
    rw [← hlast]
    exact hr.find?_output he
  · intro e he
    rw [← hlast]
    exact ((Workflow.mem_entries_typed (nodup_distinct _)).1 he).2
  · intro e he hd
    have hl : lastOf? e.1 (recordedAll steps) = some e.2 := by
      rw [← hr.find?_unwritten hd]
      exact hr.find?_output he
    exact ⟨hl, fun hc => (Workflow.lastOf?_written hc steps).trans hl⟩
  · intro e he hu hd
    have ht := ((Workflow.mem_entries_typed (nodup_distinct _)).1 he).2
    have hu : Unwritten e.1 steps := hu
    rw [hr.find?_unwritten hd, hu.lastOf] at ht
    exact ht

/-- The types of a text of one line. -/
theorem types_of_sum :
    ∃ w t, Workflow.assemble "f" "set x to y + 1" {} = .ok w t ∧
      ∃ rs defs, Records t.journal rs ∧
        Workflow.Run (Text.commandLines "set x to y + 1") {} w.steps defs t ∧
        (∀ e ∈ w.outputs.entries, lastOf? e.1 rs = some e.2) ∧
        (∀ e ∈ w.inputs.entries, e.2 = (lastOf? e.1 rs).getD "string") ∧
        (∀ e ∈ w.outputs.entries, (∀ d ∈ defs, Unwritten e.1 d.2) →
          lastOf? e.1 (recordedAll w.steps) = some e.2 ∧
          (isLoopCounter e.1 = false → lastOf? e.1 (written w.steps) = some e.2)) ∧
        ∀ e ∈ w.inputs.entries, Unwritten e.1 w.steps → (∀ d ∈ defs, Unwritten e.1 d.2) →
          e.2 = "string" := by
  obtain ⟨steps, t, hl⟩ : ∃ steps t, Compile.line "set x to y + 1" {} = .ok steps t := ⟨_, _, rfl⟩
  have ht : Text.commandLines "set x to y + 1" = ["set x to y + 1"] := by decide
  obtain ⟨w, ha, -⟩ : ∃ w, Workflow.assemble "f" "set x to y + 1" {} = .ok w t ∧ w.steps = steps :=
    assemble_of_line ht hl
  exact ⟨w, t, ha, types_of_assemble ha⟩

/-! ## Where a walk tells other types -/

namespace Compile

/-- A line at the outermost level that defines a template by a single action. -/
theorem line_of_definition {name body verb verb' phrase : String} {c : Command} {a : Action}
    {types : Registry String} {s : Session} (hs : s.nesting = 0)
    (hread : Command.read? Command.rules (Text.trimmed text) = some (verb, .define name body))
    (hbody : Command.read? Command.rules (Text.trimmed body) = some (verb', c))
    (h : c.Performs s.types a phrase types) :
    ∃ t, Compile.line text s = .ok [] t ∧ t.types = types ∧ t.nesting = 0 := by
  have ha : allowance s.nesting = 30 + 1 + 1 := allowance_outermost hs
  obtain ⟨t, hr, ht, -⟩ := run_of_definition (n := 30) hread hbody h
  exact ⟨t, line_of_run hr ha, ht, by rw [hr.nesting_eq, hs]⟩

end Compile

/-- A loop whose body assigns to the counter of the loop, an assignment with a definition after it
that assigns to the same variable, and a definition that is not called. -/
def strayLines : List String :=
  ["repeat set _loop_counter_step1 to y 3 times", "set x to 1", "macro m set x to y",
    "macro n set z to 1", "return z"]

/-- The steps of these lines, but for the names of the last two. -/
def straySteps (id id' : String) : List Step :=
  [Command.firstCount "_loop_counter_step1" "step2",
    Command.counted "repeat set _loop_counter_step1 to y 3 times" "step1" 3
      [.single "step3" (.set "_loop_counter_step1" (.expr (.var "y")))
        "set _loop_counter_step1 to y"] "step4",
    .single id (.set "x" (.expr (.ofInt 1))) "set x to 1",
    .single id' (.ret (.expr (.var "z"))) "return z"]

theorem stepsOf_strayLines : ∃ id id' t,
    Workflow.stepsOf strayLines {} = .ok (straySteps id id') t ∧
      t.types = ⟨[("_loop_counter_step1", "string"), ("x", "string"), ("z", "number")]⟩ := by
  obtain ⟨u₁, h₁, hn₁, ht₁⟩ : ∃ u, Compile.line "repeat set _loop_counter_step1 to y 3 times" {} =
      .ok [Command.firstCount "_loop_counter_step1" "step2",
        Command.counted "repeat set _loop_counter_step1 to y 3 times" "step1" 3
          [.single "step3" (.set "_loop_counter_step1" (.expr (.var "y")))
            "set _loop_counter_step1 to y"] "step4"] u ∧
      u.nesting = 0 ∧ u.types = ⟨[("_loop_counter_step1", "string")]⟩ := ⟨_, rfl, rfl, rfl⟩
  have hone : Value.read "1".toList = .ok (.expr (.ofInt 1)) := rfl
  have hy : Value.read "y".toList = .ok (.expr (.var "y")) := rfl
  have hz : Value.read "z".toList = .ok (.expr (.var "z")) := rfl
  have hset : Command.read? Command.rules (Text.trimmed "set x to 1") =
      some ("set", .set "x" "1") := by decide
  have hdefine : Command.read? Command.rules (Text.trimmed "macro m set x to y") =
      some ("macro", .define "m" "set x to y") := by decide
  have hbody : Command.read? Command.rules (Text.trimmed "set x to y") =
      some ("set", .set "x" "y") := by decide
  have hdefine' : Command.read? Command.rules (Text.trimmed "macro n set z to 1") =
      some ("macro", .define "n" "set z to 1") := by decide
  have hbody' : Command.read? Command.rules (Text.trimmed "set z to 1") =
      some ("set", .set "z" "1") := by decide
  have hret : Command.read? Command.rules (Text.trimmed "return z") =
      some ("return", .ret "z") := by decide
  have hphrase : String.join ["set ", "x", " to ", Text.trimmed "1"] = "set x to 1" := by decide
  have hphrase' : String.join ["return ", Text.trimmed "z"] = "return z" := by decide
  obtain ⟨u₂, h₂, ht₂, hn₂, -⟩ := Compile.line_of_performs hn₁ hset (.set rfl hone)
  obtain ⟨u₃, h₃, ht₃, hn₃⟩ := Compile.line_of_definition hn₂ hdefine hbody (.set rfl hy)
  obtain ⟨u₄, h₄, ht₄, hn₄⟩ := Compile.line_of_definition hn₃ hdefine' hbody' (.set rfl hone)
  obtain ⟨u₅, h₅, ht₅, -⟩ := Compile.line_of_performs hn₄ hret (.ret rfl hz)
  rw [hphrase] at h₂
  rw [hphrase'] at h₅
  have hnil : Workflow.stepsOf [] u₅ = .ok [] u₅ := Workflow.stepsOf_nil_eq_ok.2 ⟨rfl, rfl⟩
  have hsteps := Workflow.stepsOf_cons h₁ (Workflow.stepsOf_cons h₂ (Workflow.stepsOf_cons h₃
    (Workflow.stepsOf_cons h₄ (Workflow.stepsOf_cons h₅ hnil))))
  refine ⟨stepId u₁.counter, stepId u₄.counter, u₅, hsteps, ?_⟩
  rw [ht₅, ht₄, ht₃, ht₂, ht₁]
  rfl

/-- **A walk may tell other types than the signature**: for the counter of a loop that is assigned
inside the loop, for a variable that is assigned in a definition, and for an input that only a
definition assigns. -/
theorem last_written_not_recorded : ∃ w t,
    Workflow.assemble "f" (Text.ofLines strayLines) {} = .ok w t ∧
    (∃ e ∈ w.outputs.entries, isLoopCounter e.1 ∧ lastOf? e.1 (written w.steps) ≠ some e.2) ∧
    (∃ e ∈ w.outputs.entries, isLoopCounter e.1 = false ∧
      lastOf? e.1 (written w.steps) ≠ some e.2) ∧
    ∃ e ∈ w.inputs.entries, Unwritten e.1 w.steps ∧ e.2 ≠ "string" := by
  obtain ⟨id, id', t, hs, ht⟩ := stepsOf_strayLines
  have hl : Text.commandLines (Text.ofLines strayLines) = strayLines :=
    Text.commandLines_ofLines (by decide)
  have hw : written (straySteps id id') = [("_loop_counter_step1", "number"),
      ("_loop_counter_step1", "string"), ("_loop_counter_step1", "number"), ("x", "number")] := rfl
  have hwrites : ((walkAll 0 (straySteps id id')).flatMap fun visit => writes visit.1) =
      ["_loop_counter_step1", "_loop_counter_step1", "_loop_counter_step1", "x"] := rfl
  have hreads : ((walkAll 0 (straySteps id id')).flatMap fun visit => reads visit.1) =
      ["_loop_counter_step1", "y", "_loop_counter_step1", "z"] := rfl
  have hcounter : ("_loop_counter_step1", "string") ∈
      (Workflow.typed t.types (allWrites (straySteps id id'))).entries := by
    refine (Workflow.mem_entries_typed (nodup_distinct _)).2 ⟨mem_distinct.2 ?_, ?_⟩
    · rw [hwrites]
      decide
    · rw [ht]
      decide
  have hx : ("x", "string") ∈ (Workflow.typed t.types (allWrites (straySteps id id'))).entries := by
    refine (Workflow.mem_entries_typed (nodup_distinct _)).2 ⟨mem_distinct.2 ?_, ?_⟩
    · rw [hwrites]
      decide
    · rw [ht]
      decide
  have hz : ("z", "number") ∈ (Workflow.typed t.types (allReads (straySteps id id'))).entries := by
    refine (Workflow.mem_entries_typed (nodup_distinct _)).2 ⟨mem_distinct.2 ?_, ?_⟩
    · rw [hreads]
      decide
    · rw [ht]
      decide
  refine ⟨_, t, Workflow.assemble_eq_ok.2 ⟨straySteps id id', ?_, rfl⟩,
    ⟨_, hcounter, rfl, ?_⟩, ⟨_, hx, rfl, ?_⟩, _, hz, ?_, by decide⟩
  · rw [hl]
    exact hs
  · show lastOf? _ (written (straySteps id id')) ≠ _
    rw [hw]
    decide
  · show lastOf? _ (written (straySteps id id')) ≠ _
    rw [hw]
    decide
  · show "z" ∉ (written (straySteps id id')).map (·.1)
    rw [hw]
    decide

end FlowScript
