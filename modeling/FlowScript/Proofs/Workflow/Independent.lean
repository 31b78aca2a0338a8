import FlowScript.Proofs.Session.Moved
import FlowScript.Proofs.Workflow.Lines

/-!
# Lines on their own

Without definitions the lines of a text do not depend on each other: each of them reports what it
reports alone, in a fresh session, and yields what it yields alone, moved by the number of the steps
that the lines before it yield.

## Main definitions

* `Placed`: some lists of steps one after another, each moved by the steps before it.

## Main statements

* `Compile.Run.alone`: a line of a text, and the same line alone.
* `lines_independent`: a text is made of its lines.
-/
namespace FlowScript

open Step

/-- Some lists of steps one after another. A list is moved by a number that starts at an offset and
grows by the steps of every list, those inside others included. -/
inductive Placed : Int → List (List Step) → List Step → Prop
  | nil {d : Int} : Placed d [] []
  | cons {d : Int} {alone moved others : List Step} {rest : List (List Step)}
      (h : Moved d alone moved) (hs : Placed (d + (ids moved).length) rest others) :
      Placed d (alone :: rest) (moved ++ others)

/-- There is one way only to place some lists of steps. -/
theorem Placed.unique {d : Int} {lists : List (List Step)} {ss ts : List Step}
    (h : Placed d lists ss) (h' : Placed d lists ts) : ts = ss := by
  induction h generalizing ts with
  | nil =>
    cases h' with
    | nil => rfl
  | cons h _ ih =>
    cases h' with
    | cons h' hs' =>
      obtain rfl := h.unique h'
      rw [ih hs']

/-- Steps that are numbered without gaps take up as many numbers as there are. -/
theorem Command.Numbered.eq_add {a b : Int} {steps : List Step}
    (h : Command.Numbered a steps [] b) : b = a + (ids steps).length := by
  have hl := h.perm.length_eq
  have hle := h.le
  simp only [storedIds_nil, List.append_nil, idsBetween, List.length_map, List.length_range] at hl
  omega

-- Otherwise the elaborator reads the line of a run whenever a run is given to a lemma.
attribute [local irreducible] Compile.Run

namespace Compile

variable {line : String} {s t : Session} {steps : List Step}

/-- A line without definitions in a session without templates, and the same line alone. -/
theorem Run.alone (h : Run Command.rules (allowance s.nesting) line s steps [] t)
    (hn : s.nesting = 0) (hs : s.templates = .empty) :
    ∃ steps' t', Compile.line line {} = .ok steps' t' ∧ Moved (s.counter - 1) steps' steps ∧
      t.diagnostics = s.diagnostics ++ t'.diagnostics := by
  have hapart : Session.Apart (s.counter - 1) {} s := by
    refine ⟨?_, rfl, hs⟩
    show s.counter = 1 + (s.counter - 1)
    omega
  obtain ⟨steps', t', hr, hmoved, -, es, hj', hj⟩ := h.repeats rfl hapart
  have ha : allowance (Session.nesting {}) = allowance s.nesting := by rw [hn]
  exact ⟨steps', t', line_of_run hr ha, hmoved, by simp [Session.diagnostics, hj, hj']⟩

end Compile

namespace Workflow

variable {lines : List String} {s t : Session} {steps : List Step} {defs : List Definition}

theorem Run.journal_eq (h : Run lines s steps defs t) : ∃ es, t.journal = s.journal ++ es := by
  induction h with
  | nil => exact ⟨[], by simp⟩
  | cons h _ ih =>
    obtain ⟨es, hj, -⟩ := h.defs_eq_nil
    obtain ⟨fs, hk⟩ := ih
    exact ⟨es ++ fs, by rw [hk, hj, List.append_assoc]⟩

/-- The lines of a text without definitions, and the same lines alone. -/
theorem Run.alone (h : Run lines s steps defs t) (hn : s.nesting = 0) (hs : s.templates = .empty)
    (hm : ∀ line, .dispatched line "macro" ∉ t.journal) :
    ∃ alone : List (List Step × Session),
      List.Forall₂ (fun line a => Compile.line line {} = .ok a.1 a.2) lines alone ∧
      t.diagnostics = s.diagnostics ++ alone.flatMap (fun a => a.2.diagnostics) ∧
      Placed (s.counter - 1) (alone.map (·.1)) steps := by
  induction h with
  | nil => exact ⟨[], .nil, by simp, .nil⟩
  | @cons line lines s u t first others defs more h ho ih =>
    obtain ⟨es, hj, hd⟩ := h.defs_eq_nil
    obtain ⟨fs, hk⟩ := ho.journal_eq
    have hdefs : defs = [] := by
      refine hd fun name hl => hm name ?_
      rw [hk, hj]
      simp [hl]
    subst hdefs
    have hu : u.templates = .empty := by
      rw [h.templates_eq, hs]
      rfl
    obtain ⟨alone, hforall, hdiagnostics, hplaced⟩ := ih (h.nesting_eq.trans hn) hu hm
    obtain ⟨steps', t', hline, hmoved, hfirst⟩ := h.alone hn hs
    refine ⟨(steps', t') :: alone, .cons hline hforall, ?_, .cons hmoved ?_⟩
    · rw [hdiagnostics, hfirst, List.append_assoc]
      rfl
    · have hcounter := h.numbered.eq_add
      have hc : u.counter - 1 = s.counter - 1 + (ids first).length := by omega
      rw [← hc]
      exact hplaced

end Workflow

/-- The steps of a loop around a single step, from a number on. -/
def loopOfBreak (n : Int) : List Step :=
  [Command.firstCount (loopCounter (stepId n)) (stepId (n + 1)),
    Command.counted "for 2 times break" (stepId n) 2 [.single (stepId (n + 1 + 1)) .leave ""]
      (stepId (n + 1 + 1 + 1))]

theorem line_loopOfBreak {s : Session} (hs : s.nesting = 0) :
    ∃ t, Compile.line "for 2 times break" s = .ok (loopOfBreak s.counter) t ∧
      t.journal =
        s.journal ++ [.dispatched "for 2 times break" "for", .dispatched "break" "break"] := by
  have hloop : Command.read? Command.rules (Text.trimmed "for 2 times break") =
      some ("for", .count "break" "2") := by decide
  have hbreak : Command.read? Command.rules (Text.trimmed "break") = some ("break", .leave) := by
    decide
  have htimes : number? "2".toList = .ok (some (.int 2)) := by decide
  have ha : Compile.allowance s.nesting = 30 + 1 + 1 := Compile.allowance_outermost hs
  have hline : Text.trimmed "for 2 times break" = "for 2 times break" := by decide
  have hinner : Text.trimmed "break" = "break" := by decide
  have hr := Compile.Run.of_command (n := 31) (s := s) hloop <| .counted htimes (by decide) <|
    .of_command (n := 30) hbreak <| .single .leave
  rw [hline, hinner] at hr
  exact ⟨_, Compile.line_of_run hr ha, by simp⟩

/-- **The lines of a text are independent up to numbering.** If no command in a text is told to be a
definition, the text reports what its lines report alone, one after another, and it yields what they
yield alone, moved by the number of the steps before them and changed in no other way. -/
theorem lines_independent (function text : String) (w : Workflow) (t : Session)
    (h : Workflow.assemble function text {} = .ok w t)
    (hm : ∀ line, .dispatched line "macro" ∉ t.journal) :
    ∃ alone : List (List Step × Session),
      List.Forall₂ (fun line a => Compile.line line {} = .ok a.1 a.2) (Text.commandLines text)
        alone ∧
      t.diagnostics = alone.flatMap (fun a => a.2.diagnostics) ∧
      Placed 0 (alone.map (·.1)) w.steps ∧
      ∀ steps, Placed 0 (alone.map (·.1)) steps → steps = w.steps := by
  obtain ⟨steps, hs, rfl⟩ := Workflow.assemble_eq_ok.1 h
  obtain ⟨defs, hr⟩ := Workflow.exists_run_of_stepsOf hs
  obtain ⟨alone, hforall, hdiagnostics, hplaced⟩ := hr.alone rfl rfl hm
  exact ⟨alone, hforall, hdiagnostics, hplaced, fun _ => hplaced.unique⟩

/-- After a line with one step the numbers of a loop, also in its counter, are larger by one. -/
theorem lines_independent_of_loop :
    ∃ w t first, Workflow.assemble "f" "set x to 1\nfor 2 times break" {} = .ok w t ∧
      w.steps = first ++ loopOfBreak 2 ∧ Placed 0 [first, loopOfBreak 1] w.steps := by
  have hl : Text.commandLines "set x to 1\nfor 2 times break" =
      ["set x to 1", "for 2 times break"] := by decide
  obtain ⟨first, u, hu, hn, hc, hj⟩ : ∃ first u, Compile.line "set x to 1" {} = .ok first u ∧
      u.nesting = 0 ∧ u.counter = 2 ∧ u.journal = [.dispatched "set x to 1" "set"] :=
    ⟨_, _, rfl, rfl, rfl, rfl⟩
  obtain ⟨t, ht, hk⟩ := line_loopOfBreak hn
  obtain ⟨t', ht', -⟩ := line_loopOfBreak (s := {}) rfl
  have hs := Workflow.stepsOf_cons hu
    (Workflow.stepsOf_cons ht (Workflow.stepsOf_nil_eq_ok.2 ⟨rfl, rfl⟩))
  rw [hc, List.append_nil, ← hl] at hs
  have ha : Workflow.assemble "f" "set x to 1\nfor 2 times break" {} = .ok _ t :=
    Workflow.assemble_eq_ok.2 ⟨_, hs, rfl⟩
  have hm : ∀ line, .dispatched line "macro" ∉ t.journal := by
    simp [hk, hj]
  obtain ⟨alone, hforall, -, hp, -⟩ := lines_independent _ _ _ _ ha hm
  rw [hl] at hforall
  simp only [List.forall₂_cons_left_iff, List.forall₂_nil_left_iff, hu, ht',
    EStateM.Result.ok.injEq] at hforall
  obtain ⟨a, _, ⟨hfirst, -⟩, ⟨b, _, ⟨hloop, -⟩, rfl, rfl⟩, rfl⟩ := hforall
  simp only [List.map_cons, List.map_nil, ← hfirst, ← hloop] at hp
  exact ⟨_, t, first, ha, rfl, hp⟩

end FlowScript
