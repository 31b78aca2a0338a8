import FlowScript.Proofs.Command.Loop
import FlowScript.Proofs.Session.Branch
import FlowScript.Proofs.Session.Journal

/-!
# Carrying out loops

A counted loop does the same whichever way it is written. The same steps are made, the same faults
are met and the same is left behind; only the phrase of the loop itself, which is the line as it was
written, tells the ways apart. A loop that lies too deep is not read at all, and reported as it was
written.

## Main definitions

* `Compile.SameLoop`: the steps of a loop under one phrase and under another one.

## Main statements

* `Compile.matches_countLoop`: a loop does the same under another phrase.
* `Compile.line_loopTexts`: a loop does the same whichever way it is written.
-/
namespace FlowScript.Compile

open Text

variable {s t : Session} {body times text a b : String}

/-- The steps of a loop, of which the loop itself has one phrase on one side and another one on the
other, and the phrase as its example. -/
def SameLoop (a b : String) (steps steps' : List Step) : Prop :=
  ∃ start id condition body,
    steps = [start, .loop ⟨id, a, [a], .execute⟩ condition body] ∧
    steps' = [start, .loop ⟨id, b, [b], .execute⟩ condition body]

/-- A step with a phrase has it as its example. -/
theorem info_of_phrase {line : String} (h : line.isEmpty = false) (id description : String)
    (access : Access) :
    Step.Info.of id description line [] access = ⟨id, line, [line], access⟩ := by
  simp [Step.Info.of, h]

/-- **A loop does the same under another phrase**, in sessions that agree. -/
theorem matches_countLoop {inner : Inner} (hin : ∀ text, IgnoresJournal (inner text))
    (hb : trim body.toList ≠ []) (ht : isDigitRun times.toList) (ha : a.isEmpty = false)
    (hb' : b.isEmpty = false) (hs : s.Agrees t) :
    Matches (SameLoop a b) (countLoop inner a body times s) (countLoop inner b body times t) := by
  have hbody : ¬ (trim body.toList).isEmpty := by simpa using hb
  simp only [countLoop, number?_digits ht, info_of_phrase ha, info_of_phrase hb', if_neg hbody]
  cases wholeNumber times.toList with
  | error f => exact .error hs
  | ok n =>
    rw [bind_apply, bind_apply, Except.map, lift_ok, lift_ok]
    refine (ignoresJournal_nextId hs).bind ?_
    rintro id _ s t rfl hs
    refine (ignoresJournal_recordType _ _ hs).bind ?_
    rintro _ _ s t - hs
    refine (ignoresJournal_nextId hs).bind ?_
    rintro first _ s t rfl hs
    refine (hin body hs).bind ?_
    rintro steps _ s t rfl hs
    refine (ignoresJournal_nextId hs).bind ?_
    rintro last _ s t rfl hs
    exact .ok ⟨_, _, _, _, rfl, rfl⟩ hs

/-- A line that is too deep is reported as it is written. -/
theorem line_of_tooDeep (hs : maxNesting ≤ s.nesting) :
    line text s = .ok [] (s.told (.reported (.tooDeep (trimmed text)))) := by
  rw [← lineWithin_allowance rfl, allowance_eq_zero_iff.2 hs]
  rfl

/-- **A loop does the same whichever way it is written**: with its body first, after `repeat` or
`loop`, or with its count first, after `for`. The body may be any text in one line, a loop or a
definition or nothing that is a command, and the count any digits. Below the level at which lines
are too deep, the same fault is met or the same steps are made but for the phrase of the loop, and
the sessions agree afterwards. From that level on there are no steps, and the diagnostic quotes the
line. -/
theorem line_loopTexts (body times : String) (hb : IsFree body.toList)
    (ht : isDigitRun times.toList) (ha : a ∈ Command.loopTexts body times)
    (hb' : b ∈ Command.loopTexts body times) (hs : s.Agrees t) :
    (s.nesting < maxNesting → Matches (SameLoop a b) (line a s) (line b t)) ∧
    (maxNesting ≤ s.nesting →
      line a s = .ok [] (s.told (.reported (.tooDeep a))) ∧
      line b t = .ok [] (t.told (.reported (.tooDeep b)))) := by
  have htrimmed {text : String} (h : text ∈ Command.loopTexts body times) :=
    Command.trimmed_loop hb h
  constructor
  · intro hn
    obtain ⟨verb, hread⟩ := Command.read?_loop hb ht ha
    obtain ⟨verb', hread'⟩ := Command.read?_loop hb ht hb'
    rw [line_of_read? hn hread, line_of_read? (hs.nesting ▸ hn) hread', htrimmed ha, htrimmed hb']
    have hne {text : String} (h : text ∈ Command.loopTexts body times) : text.isEmpty = false := by
      simp only [Command.loopTexts, List.mem_cons, List.not_mem_nil, or_false] at h
      rcases h with rfl | rfl | rfl <;> simp
    refine (matches_countLoop ignoresJournal_line ?_ ht (hne ha) (hne hb') ?_).nested
    · rw [hb.trim_eq]
      exact hb.ne_nil
    · exact (hs.dispatched a b verb verb').entered
  · intro hn
    rw [line_of_tooDeep hn, line_of_tooDeep (hs.nesting ▸ hn), htrimmed ha, htrimmed hb']
    exact ⟨rfl, rfl⟩

/-- A loop whose body is a loop with a count of its own, and the same loop where it lies too
deep. -/
theorem line_loopTexts_nested :
    Matches (SameLoop "repeat repeat break 2 times 3 times" "for 3 times repeat break 2 times")
      (line "repeat repeat break 2 times 3 times" {})
      (line "for 3 times repeat break 2 times" {}) ∧
    line "loop repeat break 2 times 3 times" { nesting := 32 } =
      .ok [] (Session.told { nesting := 32 }
        (.reported (.tooDeep "loop repeat break 2 times 3 times"))) ∧
    line "for 3 times repeat break 2 times" { nesting := 32 } =
      .ok [] (Session.told { nesting := 32 }
        (.reported (.tooDeep "for 3 times repeat break 2 times"))) := by
  have hbody : IsFree "repeat break 2 times".toList := ⟨by decide, by decide, by decide⟩
  constructor
  · exact (line_loopTexts "repeat break 2 times" "3" hbody (by decide) (by decide) (by decide)
      (.refl {})).1 (by decide)
  · exact (line_loopTexts "repeat break 2 times" "3" hbody (by decide) (by decide) (by decide)
      (.refl { nesting := 32 })).2 (by decide)

end FlowScript.Compile
