import FlowScript.Proofs.Name
import FlowScript.Proofs.Pattern.Confined
import FlowScript.Schema.Packaged

/-!
# Names that have their patterns

The patterns of the schema are those that the names of variables, steps and functions are made by.
For variables and steps the names are exactly the texts that have the pattern.

## Main statements

* `Packaged.identifier_occursIn_iff`: names of variables.
* `Packaged.step_occursIn_iff`: names of steps.
* `Packaged.function_occursIn`: names of workflows, by seeds of thirty-two hexadecimal digits.
-/
namespace FlowScript.Packaged

open Text Pattern

/-- A pattern of a whole text can be read if its parts can, up to one line feed at the end. -/
theorem reads_wholly {s : String} {ps : List Pattern} {q : Place}
    (h : Reads (sequence ps) (.start s.toList) q) (hq : q.isAt .stop) :
    (wholly ps).occursIn s := by
  refine occursIn_of_reads (q := q) ?_
  have hs : (Place.start s.toList).isAt .start := by simp [Place.isAt, Place.start]
  exact (reads_edge hs).seq (h.seq (reads_edge hq))

/-- A text with a pattern of a whole text is read up to its end, or up to one line feed there. -/
theorem exists_of_wholly {s : String} {ps : List Pattern} {ends : Place → Prop}
    (h : (wholly ps).occursIn s) (hc : Confined (sequence ps) (.start s.toList) ends) :
    ∃ q, ends q ∧ (q.rest = [] ∨ q.rest = ['\n']) := by
  have hstop : Confined (seq (sequence ps) (edge .stop)) (.start s.toList) fun q =>
      ends q ∧ q.isAt .stop :=
    hc.seq fun q hq => confined_edge.mono fun _ he => he.1 ▸ ⟨hq, he.2⟩
  obtain ⟨q, hq, hs⟩ := exists_of_occursIn h hstop
  exact ⟨q, hq, by simpa [Place.isAt] using hs⟩

theorem has_word_iff {c : Char} : CharSet.word.has .exact c ↔ isWord c := by
  simp [CharSet.has, CharSet.covers, CaseRule.lower]

theorem has_asciiDigit_iff {c : Char} : CharSet.asciiDigit.has .exact c ↔ c.isDigit := by
  simp [CharSet.has, CharSet.asciiDigit, CharSet.range, CharSet.covers, CaseRule.variants,
    Char.isDigit, UInt32.le_iff_toNat_le]

/-! ## Names of variables -/

/-- The names of variables are words, up to one final line feed. -/
theorem isIdentifier_iff {s : String} : isIdentifier s ↔ ∃ line tail, s.toList = line ++ tail ∧
    (tail = [] ∨ tail = ['\n']) ∧ line ≠ [] ∧ ∀ c ∈ line, isWord c := by
  constructor
  · intro h
    simp only [isIdentifier, isWordRun_iff] at h
    split at h
    · rename_i hl
      obtain ⟨front, hf⟩ := List.getLast?_eq_some_iff.1 hl
      exact ⟨s.toList.dropLast, ['\n'], by simp [hf], .inr rfl, h⟩
    · exact ⟨s.toList, [], by simp, .inl rfl, h⟩
  · rintro ⟨line, tail, hs, rfl | rfl, hne, hw⟩
    · have hl : line.getLast? ≠ some '\n' := by
        intro hl
        have := hw _ (List.mem_of_getLast? hl)
        simp [not_isWord_lineFeed] at this
      simp only [isIdentifier, hs, List.append_nil, if_neg hl, isWordRun_iff]
      exact ⟨hne, hw⟩
    · simp only [isIdentifier, hs, List.getLast?_concat, if_true, List.dropLast_concat,
        isWordRun_iff]
      exact ⟨hne, hw⟩

/-- **The names of variables have the pattern for them, and nothing else has.** -/
theorem identifier_occursIn_iff {s : String} : identifierPattern.occursIn s ↔ isIdentifier s := by
  rw [isIdentifier_iff]
  constructor
  · intro h
    obtain ⟨_, ⟨line, rest, hne, hs, hw, rfl⟩, hq⟩ :=
      exists_of_wholly h (confined_many1.seq fun q hq => confined_empty.mono fun _ he => he ▸ hq)
    rw [Place.after_rest hs] at hq
    exact ⟨line, rest, hs, hq, hne, fun c hc => has_word_iff.1 (hw c hc)⟩
  · rintro ⟨line, tail, hs, ht, hne, hw⟩
    have hp : (Place.start s.toList).rest = line ++ tail := hs
    have hr := reads_many1 hp hne fun c hc => has_word_iff.2 (hw c hc)
    refine reads_wholly (hr.seq reads_empty) ?_
    simp only [Place.isAt, Place.after_rest hp]
    rcases ht with rfl | rfl <;> rfl

/-! ## Names of steps -/

/-- **The names of steps have the pattern for them, and nothing else has.** -/
theorem step_occursIn_iff {s : String} : stepPattern.occursIn s ↔ IsStepName s := by
  constructor
  · intro h
    have hc : Confined (sequence [exactly "step", many1 (one .asciiDigit)]) (.start s.toList)
        fun q => ∃ digits, s.toList = "step".toList ++ (digits ++ q.rest) ∧ digits ≠ [] ∧
          ∀ c ∈ digits, CharSet.asciiDigit.has .exact c := by
      refine confined_text.seq ?_
      rintro _ ⟨front, hf, rfl⟩
      refine confined_many1.seq ?_
      rintro _ ⟨digits, rest, hne, hs, hd, rfl⟩
      refine confined_empty.mono ?_
      rintro _ rfl
      refine ⟨digits, ?_, hne, hd⟩
      rw [Place.after_rest hs, ← hs, Place.after_rest hf]
      exact hf
    obtain ⟨q, ⟨digits, hs, hne, hd⟩, hq⟩ := exists_of_wholly h hc
    exact ⟨digits, q.rest, hs, hq, hne, fun c hc => has_asciiDigit_iff.1 (hd c hc)⟩
  · rintro ⟨digits, tail, hs, ht, hne, hd⟩
    have hp : (Place.start s.toList).rest = "step".toList ++ (digits ++ tail) := hs
    have hq : ((Place.start s.toList).after "step".toList).rest = digits ++ tail :=
      Place.after_rest hp
    have hr := reads_many1 hq hne fun c hc => has_asciiDigit_iff.2 (hd c hc)
    refine reads_wholly ((reads_text hp).seq (hr.seq reads_empty)) ?_
    simp only [Place.isAt, Place.after_rest hq]
    rcases ht with rfl | rfl <;> rfl

/-! ## Names of workflows -/

/-- Seeds of workflows: thirty-two hexadecimal digits with small letters. -/
def IsSeed (seed : String) : Prop :=
  seed.length = 32 ∧ ∀ c ∈ seed.toList, c.isDigit ∨ 'a' ≤ c ∧ c ≤ 'f'

instance (seed : String) : Decidable (IsSeed seed) :=
  have : Decidable (∀ c ∈ seed.toList, c.isDigit ∨ 'a' ≤ c ∧ c ≤ 'f') := List.decidableBAll _ _
  instDecidableAnd

/-- The names of workflows. -/
theorem function_occursIn {seed : String} (h : IsSeed seed) :
    functionPattern.occursIn (workflowName seed) := by
  obtain ⟨hl, hd⟩ := h
  have hn : (workflowName seed).toList = "workflow_".toList ++ seed.toList := by
    simp [workflowName]
  have hp : (Place.start (workflowName seed).toList).rest = "workflow_".toList ++ seed.toList := hn
  have hs : ((Place.start (workflowName seed).toList).after "workflow_".toList).rest =
      seed.toList ++ [] := by
    rw [Place.after_rest hp, List.append_nil]
  refine reads_wholly ((reads_text hp).seq
    ((reads_times hs (by rw [String.length_toList, hl]) ?_).seq reads_empty)) ?_
  · intro c hc
    have hcode : 48 ≤ c.toNat ∧ c.toNat ≤ 57 ∨ 97 ≤ c.toNat ∧ c.toNat ≤ 102 := by
      rcases hd c hc with hc | ⟨ha, hf⟩
      · simp only [Char.isDigit, Bool.and_eq_true, decide_eq_true_eq, ge_iff_le,
          UInt32.le_iff_toNat_le] at hc
        exact .inl hc
      · exact .inr ⟨ha, hf⟩
    simpa [CharSet.has, CharSet.asciiDigit, CharSet.range, CharSet.covers, CaseRule.variants]
      using hcode
  · simp only [Place.isAt, Place.after_rest hs]
    rfl

end FlowScript.Packaged
