import FlowScript.Proofs.Command.Branch
import FlowScript.Proofs.Session.Adequacy

/-!
# Carrying out branches

A branch that is written down is a branch of what its parts are by themselves: its condition is
read alone, its command is carried out as a line of its own, one level deeper, and so is its
alternative, in the session that the command leaves. The number of the branch is drawn behind both,
and its phrase is the whole line.

## Main statements

* `Compile.nesting_of_line`: a line leaves the level of commands as it was.
* `Compile.line_of_read?`: a line is carried out as its command, whose lines are lines one level
  deeper.
* `Compile.line_branchText_eq_ok_iff`: a branch comes to what its parts come to.
-/
namespace FlowScript.Compile

open Text

variable {s s' : Session} {steps : List Step} {text : String}

/-! ## Lines inside a line -/

/-- A line leaves the level of commands as it was. -/
theorem nesting_of_line (h : line text s = .ok steps s') : s'.nesting = s.nesting := by
  obtain ⟨defs, hr⟩ := line_eq_ok_iff.1 h
  exact hr.nesting_eq

/-- A line at a level is carried out with the allowance of the level. -/
theorem lineWithin_allowance {level : Int} (hs : s.nesting = level) :
    lineWithin Command.rules (allowance level) text s = line text s := by
  rw [← hs]
  rfl

/-- How the lines inside a command are carried out matters only at the level of the command. -/
theorem build_congr {inner inner' : Inner} {level : Int} {c : Command}
    (hin : ∀ text s, s.nesting = level → inner text s = inner' text s)
    (hlevel : ∀ text s steps t, inner' text s = .ok steps t → t.nesting = s.nesting)
    (hs : s.nesting = level) : build inner text c s = build inner' text c s := by
  cases c with
  | define name body => simp only [build, bind_apply, hin body s hs]
  | count body times =>
    have hbody (counter : String) :
        inner body ((s.drawn.typed counter ValueType.number.name).drawn) =
          inner' body ((s.drawn.typed counter ValueType.number.name).drawn) := hin body _ hs
    simp only [build, countLoop, bind_apply]
    cases number? times.toList with
    | error f => rfl
    | ok number =>
      simp only [lift_ok]
      split
      · split
        · rfl
        · simp only [bind_apply, nextId_apply, recordType_apply, hbody]
      · rfl
  | branch condition yes no =>
    simp only [build, branchOf, bind_apply]
    cases Condition.parse condition.toList with
    | error f => rfl
    | ok c =>
      simp only [lift_ok]
      rw [hin yes s hs]
      cases hy : inner' yes s with
      | error f t => rfl
      | ok steps t =>
        have ht : t.nesting = level := (hlevel yes s steps t hy).trans hs
        cases no with
        | none => rfl
        | some no =>
          simp only [bind_apply]
          rw [hin no t ht]
  | _ => rfl

/-- **A line that is not too deep is carried out as its command**, and the lines inside the command
are lines one level deeper. -/
theorem line_of_read? {verb : String} {c : Command} (hs : s.nesting < maxNesting)
    (hread : Command.read? Command.rules (trimmed text) = some (verb, c)) :
    line text s =
      nested (build line (trimmed text) c) (s.told (.dispatched (trimmed text) verb)) := by
  have hbuild : build (lineWithin Command.rules (allowance (s.nesting + 1))) (trimmed text) c
      (s.told (.dispatched (trimmed text) verb)).entered =
        build line (trimmed text) c (s.told (.dispatched (trimmed text) verb)).entered :=
    build_congr (fun _ _ => lineWithin_allowance) (fun _ _ _ _ => nesting_of_line) rfl
  rw [← lineWithin_allowance rfl, allowance_eq_succ hs, lineWithin]
  simp only [hread, bind_apply, tell_apply, nested_apply, hbuild]

/-! ## Branches -/

theorem nesting_of_alternative {no : Option String}
    (h : no.elim (pure []) line s = .ok steps s') : s'.nesting = s.nesting := by
  cases no with
  | none =>
    simp only [Option.elim_none, pure_apply, EStateM.Result.ok.injEq] at h
    rw [h.2]
  | some no => exact nesting_of_line h

/-- **A branch that is written comes to what its parts come to.** The command is carried out as a
line one level deeper, and the alternative in the session that the command leaves; then the number
of the branch is drawn. -/
theorem line_branchText_eq_ok_iff (condition yes : String) (no : Option String)
    (hs : s.nesting < maxNesting) (hc : IsFree condition.toList) (hy : IsFree yes.toList)
    (hn : ∀ text ∈ no, IsFree text.toList) (ht : Lacks "then" condition.toList)
    (hl : Lacks "else" yes.toList) :
    line (Command.branchText condition yes no) s = .ok steps s' ↔
      ∃ c thens t elses u, Condition.parse condition.toList = .ok c ∧
        line yes (s.told (.dispatched (Command.branchText condition yes no) "if")).entered =
          .ok thens t ∧
        no.elim (pure []) line t = .ok elses u ∧
        steps = [.branch ⟨stepId u.counter, Command.branchText condition yes no,
          [Command.branchText condition yes no], .execute⟩ c thens elses] ∧
        s' = { u.drawn with nesting := s.nesting } := by
  have hread := Command.read?_branch hc hy hn ht hl
  have hne : (Command.branchText condition yes no).isEmpty = false := by
    cases no <;> simp [Command.branchText]
  rw [line_of_read? hs hread, Command.trimmed_branchText hy hn, nested_eq_ok]
  simp only [build, branchOf_eq_ok_iff, Command.branched, Step.Info.of, hne, List.isEmpty_nil,
    Bool.false_eq_true, if_false, if_true]
  -- behind its parts the branch is left at the level at which it has been entered
  have hlevel {thens elses : List Step} {t u : Session}
      (h : line yes (s.told (.dispatched (Command.branchText condition yes no) "if")).entered =
        .ok thens t) (h' : no.elim (pure []) line t = .ok elses u) :
      u.drawn.exited = { u.drawn with nesting := s.nesting } := by
    have hu : u.nesting = s.nesting + 1 := (nesting_of_alternative h').trans (nesting_of_line h)
    simp [Session.exited, hu]
  constructor
  · rintro ⟨_, ⟨c, thens, t, elses, u, hcond, hthen, helse, rfl, rfl⟩, rfl⟩
    exact ⟨c, thens, t, elses, u, hcond, hthen, helse, rfl, hlevel hthen helse⟩
  · rintro ⟨c, thens, t, elses, u, hcond, hthen, helse, rfl, rfl⟩
    exact ⟨_, ⟨c, thens, t, elses, u, hcond, hthen, helse, rfl, rfl⟩, (hlevel hthen helse).symm⟩

theorem line_leave (hs : s.nesting < maxNesting) : line "break" s =
    .ok [.single (stepId s.counter) .leave ""] (s.told (.dispatched "break" "break")).drawn := by
  have htrimmed : trimmed "break" = "break" := by decide
  rw [line_of_read? hs Command.read?_leave, nested_eq_ok, htrimmed]
  exact ⟨_, rfl, by simp [Session.exited, Session.entered, Session.drawn]⟩

/-- The alternative belongs to the outer branch also where the command is a branch itself. -/
theorem line_branchText_nested : ∃ t,
    line "if athen > 1 then if b then break else break" {} = .ok
      [.branch ⟨"step4", "if athen > 1 then if b then break else break",
          ["if athen > 1 then if b then break else break"], .execute⟩
        (.compare (.var "athen") .greater (.ofInt 1))
        [.branch ⟨"step2", "if b then break", ["if b then break"], .execute⟩ (.holds "b")
          [.single "step1" .leave ""] []]
        [.single "step3" .leave ""]] t := by
  have hleave : IsFree "break".toList := ⟨by decide, by decide, by decide⟩
  have hinner : Command.branchText "b" "break" none = "if b then break" := by decide
  have hb : Condition.parse "b".toList = .ok (.holds "b") := by decide
  have hthen (s : Session) (hs : s.nesting = 1) (hn : s.counter = 1) : ∃ t,
      line "if b then break" s = .ok
        [.branch ⟨"step2", "if b then break", ["if b then break"], .execute⟩ (.holds "b")
          [.single "step1" .leave ""] []] t ∧ t.nesting = 1 ∧ t.counter = 3 := by
    have hroom : (s.told (.dispatched "if b then break" "if")).entered.nesting < maxNesting := by
      simp [hs, maxNesting]
    have h := (line_branchText_eq_ok_iff "b" "break" none (s := s) (by simp [hs, maxNesting])
      ⟨by decide, by decide, by decide⟩ hleave (by simp) (by decide) (by decide)).2
        ⟨.holds "b", _, _, [], _, hb, by rw [hinner, line_leave hroom], rfl, rfl, rfl⟩
    have h₁ : stepId 1 = "step1" := by decide
    have h₂ : stepId (1 + 1) = "step2" := by decide
    simp only [hinner, Session.drawn_counter, Session.told_counter, Session.entered_counter, hn,
      h₁, h₂] at h
    exact ⟨_, h, hs, rfl⟩
  have houter : Command.branchText "athen > 1" "if b then break" (some "break") =
      "if athen > 1 then if b then break else break" := by decide
  have hcond : Condition.parse "athen > 1".toList =
      .ok (.compare (.var "athen") .greater (.ofInt 1)) := by rfl
  obtain ⟨t, hthen, ht, hn⟩ := hthen (Session.entered (Session.told {} (.dispatched
    "if athen > 1 then if b then break else break" "if"))) rfl rfl
  have hroom : t.nesting < maxNesting := by simp [ht, maxNesting]
  have h := (line_branchText_eq_ok_iff "athen > 1" "if b then break" (some "break") (s := {})
    (by decide) ⟨by decide, by decide, by decide⟩ ⟨by decide, by decide, by decide⟩
    (by rintro _ ⟨⟩; exact hleave) (by decide) (by decide)).2
      ⟨_, _, _, _, _, hcond, by rw [houter, hthen], line_leave hroom, rfl, rfl⟩
  have h₃ : stepId 3 = "step3" := by decide
  have h₄ : stepId (3 + 1) = "step4" := by decide
  simp only [houter, Session.drawn_counter, Session.told_counter, hn, h₃, h₄] at h
  exact ⟨_, h⟩

end FlowScript.Compile
