import FlowScript.Proofs.Session.Adequacy

/-!
# Lines that are rejected

A line yields no steps for one of two reasons: it defines a template, or it is rejected. A rejected
line has been checked before anything is done: it leaves one diagnostic behind, and the session is
otherwise as it was.

## Main definitions

* `Compile.DefinesTemplate`: the lines that define a template.
* `Compile.Rejects`: the lines that are rejected, with the diagnostic and the session afterwards.
* `Session.OnlyNotes`: nothing has happened to a session but that a diagnostic has been noted.

## Main statements

* `Command.Run.refuses`: the runs of commands without steps.
* `Compile.line_eq_nil_iff`: the lines without steps are those that are rejected.
* `Compile.only_notes_of_no_steps`: a line without steps leaves one diagnostic and nothing else.
-/
namespace FlowScript

open Text

theorem Step.renumberAll_ne_nil {ss : List Step} (h : ss ≠ []) (next : Int) :
    (renumberAll next ss).1 ≠ [] := by
  cases ss with
  | nil => exact absurd rfl h
  | cons s ss => simp [renumberAll]

/-- Nothing has happened to a session but that one diagnostic has been noted. -/
structure Session.OnlyNotes (s : Session) (d : Diagnostic) (s' : Session) : Prop where
  diagnostics : s'.diagnostics = s.diagnostics ++ [d]
  counter : s'.counter = s.counter
  types : s'.types = s.types
  templates : s'.templates = s.templates
  nesting : s'.nesting = s.nesting

namespace Command

variable {inner : Course} {line : String} {c : Command} {s t : Session} {defs : List Definition}

/-- **A command without steps is reported**, unless it defines a template. All other commands have
at least one step of their own or those of a template that is not empty. -/
theorem Run.refuses (h : Run inner line c s [] defs t) (hc : ∀ name body, c ≠ define name body) :
    ∃ d, Refuses line s c d ∧ t = s.told (.reported d) := by
  generalize hs : ([] : List Step) = steps at h
  cases h with
  | @refused _ _ d h => exact ⟨d, h, rfl⟩
  | single h => simp at hs
  | copied h hne => exact absurd hs.symm (Step.renumberAll_ne_nil hne _)
  | @defined name body => exact absurd rfl (hc name body)
  | counted hn hb h => simp at hs
  | taken hcond h => simp at hs
  | branched hcond hy hn => simp at hs

end Command

namespace Compile

variable {text : String} {s s' : Session} {d : Diagnostic}

/-- Whether a line is carried out as the definition of a template. -/
def DefinesTemplate (text : String) (s : Session) : Prop :=
  s.nesting < maxNesting ∧
    ∃ verb name body, Command.read? Command.rules (trimmed text) = some (verb, .define name body)

/-- The lines that are rejected: those that lie too deep, those that are no commands, and those whose
commands are reported. -/
inductive Rejects (text : String) (s : Session) : Diagnostic → Session → Prop
  | tooDeep (h : maxNesting ≤ s.nesting) :
      Rejects text s (.tooDeep (trimmed text)) (s.told (.reported (.tooDeep (trimmed text))))
  | unrecognized (h : s.nesting < maxNesting)
      (hread : Command.read? Command.rules (trimmed text) = none) :
      Rejects text s (.unrecognized (trimmed text))
        (s.told (.reported (.unrecognized (trimmed text))))
  | refused {verb : String} {c : Command} {d : Diagnostic} (h : s.nesting < maxNesting)
      (hread : Command.read? Command.rules (trimmed text) = some (verb, c))
      (hc : c.Refuses (trimmed text) s d) :
      Rejects text s d ((s.told (.dispatched (trimmed text) verb)).told (.reported d))

/-- A line that is rejected leaves one diagnostic and nothing else. -/
theorem Rejects.onlyNotes (h : Rejects text s d s') : s.OnlyNotes d s' := by
  cases h with
  | tooDeep h => exact ⟨s.diagnostics_told_reported _, rfl, rfl, rfl, rfl⟩
  | unrecognized h hread => exact ⟨s.diagnostics_told_reported _, rfl, rfl, rfl, rfl⟩
  | refused h hread hc =>
    refine ⟨?_, rfl, rfl, rfl, rfl⟩
    rw [Session.diagnostics_told_reported, Session.diagnostics_told_dispatched]

-- Otherwise the elaborator reads the line of a run whenever a run is given to a lemma.
attribute [local irreducible] Run

/-- **The lines without steps are those that are rejected**, apart from definitions. -/
theorem line_eq_nil_iff (hdef : ¬ DefinesTemplate text s) :
    line text s = .ok [] s' ↔ ∃ d, Rejects text s d s' := by
  rw [line_eq_ok_iff]
  by_cases hdeep : maxNesting ≤ s.nesting
  · rw [allowance_eq_zero_iff.2 hdeep]
    constructor
    · rintro ⟨defs, h⟩
      obtain ⟨-, -, rfl⟩ := run_zero.1 h
      exact ⟨_, .tooDeep hdeep⟩
    · rintro ⟨d, h⟩
      cases h with
      | tooDeep h => exact ⟨[], .of_tooDeep⟩
      | unrecognized h hread => omega
      | refused h hread hc => omega
  · obtain ⟨n, hn⟩ : ∃ n, allowance s.nesting = n + 1 :=
      Nat.exists_eq_succ_of_ne_zero fun h => hdeep (allowance_eq_zero_iff.1 h)
    rw [hn]
    constructor
    · rintro ⟨defs, h⟩
      cases hread : Command.read? Command.rules (trimmed text) with
      | none =>
        obtain ⟨-, -, rfl⟩ := (run_succ_of_none hread).1 h
        exact ⟨_, .unrecognized (Int.lt_of_not_ge hdeep) hread⟩
      | some found =>
        obtain ⟨verb, c⟩ := found
        obtain ⟨t, hr, rfl⟩ := (run_succ_of_some hread).1 h
        have hc : ∀ name body, c ≠ .define name body := by
          rintro name body rfl
          exact hdef ⟨Int.lt_of_not_ge hdeep, verb, name, body, hread⟩
        obtain ⟨d, hrefuses, rfl⟩ := hr.refuses hc
        rw [Session.exited_told_entered]
        exact ⟨d, .refused (Int.lt_of_not_ge hdeep) hread (hrefuses.of_templates_eq rfl)⟩
    · rintro ⟨d, h⟩
      cases h with
      | tooDeep h => exact absurd h hdeep
      | unrecognized h hread => exact ⟨[], .of_unrecognized hread⟩
      | refused h hread hc =>
        rw [← Session.exited_told_entered]
        exact ⟨[], .of_command hread (.refused (hc.of_templates_eq rfl))⟩

/-- **A line without steps leaves one diagnostic and nothing else**, unless it defines a template: no
number is drawn, no type is recorded, and the templates and the level of commands are as before. -/
theorem only_notes_of_no_steps (h : line text s = .ok [] s') (hdef : ¬ DefinesTemplate text s) :
    ∃ d, Rejects text s d s' ∧ s.OnlyNotes d s' := by
  obtain ⟨d, hd⟩ := (line_eq_nil_iff hdef).1 h
  exact ⟨d, hd, hd.onlyNotes⟩

/-- A template without steps is called, in a session that has numbered a step and recorded a type. -/
theorem only_notes_of_emptyTemplate : ∃ s s' : Session, s.counter = 2 ∧
    s.types.find? "x" = some "number" ∧ s.templates.find? "hollow" = some [] ∧
    line "call hollow" s = .ok [] s' ∧ ¬ DefinesTemplate "call hollow" s ∧
    ∃ d, Rejects "call hollow" s d s' ∧ s.OnlyNotes d s' := by
  let s : Session :=
    { counter := 2, types := .ofList [("x", "number")], templates := .ofList [("hollow", [])] }
  have hread : Command.read? Command.rules (trimmed "call hollow") =
      some ("call", .invoke "hollow") := by decide
  have htype : s.types.find? "x" = some "number" := by decide
  have hf : s.templates.find? "hollow" = some [] := rfl
  have hdef : ¬ DefinesTemplate "call hollow" s := by
    rintro ⟨-, verb, name, body, h⟩
    simp [hread] at h
  have h : line "call hollow" s = .ok [] _ :=
    (line_eq_nil_iff hdef).2 ⟨_, .refused (by decide) hread (.emptyTemplate hf)⟩
  exact ⟨s, _, rfl, htype, hf, h, hdef, only_notes_of_no_steps h hdef⟩

end Compile
end FlowScript
