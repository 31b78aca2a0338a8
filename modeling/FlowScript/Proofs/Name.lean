import FlowScript.Name

/-!
# Names that are made

The names that a workflow makes up itself, for the counters of loops and for the answers of
classifiers, are names of variables like those that are written.

## Main definitions

* `IsStepName`: the names of steps, up to one final line feed.
* `IsNumbered`: the names of steps.

## Main statements

* `isIdentifier_of_isWordRun`, `isIdentifier_loopCounter`, `isIdentifier_result`: names of
  variables.
* `toList_stepId`: the characters of the name of a step.
-/
namespace FlowScript

open Text

/-- The digits of a number that is not negative. -/
theorem toList_stepId {n : Int} (hn : 0 ≤ n) :
    (stepId n).toList = "step".toList ++ Nat.toDigits 10 n.toNat := by
  obtain ⟨m, rfl⟩ := Int.eq_ofNat_of_zero_le hn
  have hm : toString (m : Int) = m.repr := rfl
  simp only [stepId, hm, String.join_cons, String.join_nil, String.toList_append,
    String.append_empty, Nat.toList_repr, Int.toNat_natCast]

/-- The names of steps: `step` and some digits of ASCII, up to one final line feed. -/
def IsStepName (s : String) : Prop :=
  ∃ digits tail, s.toList = "step".toList ++ (digits ++ tail) ∧ (tail = [] ∨ tail = ['\n']) ∧
    digits ≠ [] ∧ ∀ c ∈ digits, c.isDigit

theorem isStepName_stepId {n : Int} (hn : 0 ≤ n) : IsStepName (stepId n) :=
  ⟨Nat.toDigits 10 n.toNat, [], by rw [toList_stepId hn, List.append_nil], .inl rfl,
    Nat.toDigits_ne_nil, fun _ hc => Nat.isDigit_of_mem_toDigits (by decide) (by decide) hc⟩

/-- The names of steps: `step` and some digits of ASCII. -/
def IsNumbered (s : String) : Prop :=
  ∃ digits, s.toList = "step".toList ++ digits ∧ digits ≠ [] ∧ ∀ c ∈ digits, c.isDigit

/-! ## Words -/

theorem isWordRun_iff {cs : List Char} : isWordRun cs ↔ cs ≠ [] ∧ ∀ c ∈ cs, isWord c := by
  simp [isWordRun]

theorem notMem_of_isWordRun {cs : List Char} (h : isWordRun cs) {c : Char}
    (hc : isWord c = false) : c ∉ cs := by
  intro hm
  simp [(isWordRun_iff.1 h).2 c hm] at hc

theorem not_isWord_lineFeed : isWord '\n' = false := rfl

theorem isWord_of_isDigit {c : Char} (h : c.isDigit) : isWord c := by
  have ha : isAsciiWord c := by simp [isAsciiWord, Char.isAlphanum, h]
  simp only [Char.isDigit, Bool.and_eq_true, decide_eq_true_eq, ge_iff_le,
    UInt32.le_iff_toNat_le] at h
  have hn : c.toNat < 0x80 := by
    have : c.toNat ≤ 57 := h.2
    omega
  simpa [isWord, hn] using ha

/-- Words are names of variables. -/
theorem isIdentifier_of_isWordRun {s : String} (h : isWordRun s.toList) : isIdentifier s := by
  simp only [isIdentifier]
  split
  · rename_i hl
    have hm := (isWordRun_iff.1 h).2 '\n' (List.mem_of_getLast? hl)
    simp [not_isWord_lineFeed] at hm
  · exact h

/-- The counters of loops. -/
theorem isIdentifier_loopCounter {n : Int} (hn : 0 ≤ n) :
    isIdentifier (loopCounter (stepId n)) := by
  have hs : (loopCounter (stepId n)).toList =
      ("_loop_counter_".toList ++ "step".toList) ++ Nat.toDigits 10 n.toNat := by
    simp [loopCounter, toList_stepId hn]
  refine isIdentifier_of_isWordRun (isWordRun_iff.2 ⟨by simp [hs], fun c hc => ?_⟩)
  rw [hs] at hc
  rcases List.mem_append.1 hc with hc | hc
  · have hw : ("_loop_counter_".toList ++ "step".toList).all isWord := by decide
    exact List.all_eq_true.1 hw c hc
  · exact isWord_of_isDigit (Nat.isDigit_of_mem_toDigits (by decide) (by decide) hc)

/-- The variables for the answers of classifiers. -/
theorem isIdentifier_result {model : String} (h : isWordRun model.toList) :
    isIdentifier (.join ["result_", model]) := by
  have hs : (String.join ["result_", model]).toList = "result_".toList ++ model.toList := by
    simp
  refine isIdentifier_of_isWordRun (isWordRun_iff.2 ⟨by simp, fun c hc => ?_⟩)
  rw [hs] at hc
  rcases List.mem_append.1 hc with hc | hc
  · have hw : "result_".toList.all isWord := by decide
    exact List.all_eq_true.1 hw c hc
  · exact (isWordRun_iff.1 h).2 c hc

end FlowScript
