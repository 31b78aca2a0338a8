import FlowScript.Pattern.Match

/-!
# What patterns can read

A pattern that can be read from one place to another lets every goal be reached that can be reached
from the other place. This composes along sequences and repetitions, whatever else the matcher
tries first.

## Main definitions

* `Place.after`: the place behind some characters.
* `Pattern.Reads`: a pattern can be read from one place to another.

## Main statements

* `Pattern.reads_sequence_one`, `Pattern.reads_many1`, `Pattern.reads_exactly`: texts and runs of
  characters of a set can be read.
* `Pattern.occursIn_of_reads`: a pattern that can be read from the start occurs in the text.
-/
namespace FlowScript

namespace Place

/-- The place behind some characters. -/
def after (p : Place) : List Char → Place
  | [] => p
  | _ :: cs => p.next.after cs

variable {p : Place} {c : Char} {cs rest : List Char}

theorem next_rest (h : p.rest = c :: cs) : p.next.rest = cs := by
  simp [next, h]

theorem next_position (h : p.rest = c :: cs) : p.next.position = p.position + 1 := by
  simp [next, h]

theorem after_rest (h : p.rest = cs ++ rest) : (p.after cs).rest = rest := by
  induction cs generalizing p with
  | nil => exact h
  | cons c cs ih => exact ih (next_rest h)

end Place

namespace Pattern

/-- A pattern can be read from one place to another. -/
def Reads (a : Pattern) (p q : Place) : Prop :=
  ∀ goal : Goal, (goal q).isSome → (a.run goal p).isSome

variable {a b : Pattern} {p q r : Place} {set : CharSet} {c : Char} {cs rest : List Char}

theorem reads_empty : Reads empty p p :=
  fun _ h => h

theorem reads_edge {e : Edge} (h : p.isAt e) : Reads (edge e) p p := by
  intro goal hg
  simpa [run, h] using hg

theorem Reads.seq (h : Reads a p q) (h' : Reads b q r) : Reads (seq a b) p r :=
  fun _ hg => h _ (h' _ hg)

theorem reads_one (h : p.rest = c :: cs) (hc : set.has .exact c) : Reads (one set) p p.next := by
  intro goal hg
  simpa [one, run, h, hc] using hg

/-! ## Repetitions -/

/-- A number of characters of a set can be read. -/
theorem iterate_one (h : p.rest = cs ++ rest) (hc : ∀ c ∈ cs, set.has .exact c) {goal : Goal}
    (hg : (goal (p.after cs)).isSome) : (iterate (one set).run cs.length goal p).isSome := by
  induction cs generalizing p with
  | nil => exact hg
  | cons c cs ih =>
    refine reads_one h (hc c (by simp)) _ ?_
    exact ih (Place.next_rest h) (fun d hd => hc d (List.mem_cons_of_mem _ hd)) hg

/-- As many characters of a set can be read as there are turns; the matcher may stop before. -/
theorem iterateMore_one {turns : Nat} {bound last : Option Nat} (h : p.rest = cs ++ rest)
    (hc : ∀ c ∈ cs, set.has .exact c) (ht : cs.length ≤ turns) (hb : ∀ n ∈ bound, cs.length ≤ n)
    (hl : ∀ n ∈ last, n < p.position) {goal : Goal} (hg : (goal (p.after cs)).isSome) :
    (iterateMore (one set).run false turns bound last goal p).isSome := by
  induction turns generalizing p cs bound last with
  | zero =>
    obtain rfl := List.length_eq_zero_iff.1 (Nat.le_zero.1 ht)
    exact hg
  | succ turns ih =>
    cases cs with
    | nil =>
      -- the goal can be reached without a further turn
      simp only [iterateMore, Bool.false_eq_true, if_false]
      split
      · exact hg
      · have hg : (goal p).isSome := hg
        simp [hg]
    | cons c cs =>
      have hn : ¬ (bound = some 0 ∨ last = some p.position) := by
        rintro (rfl | rfl)
        · simpa using hb 0 rfl
        · exact Nat.lt_irrefl _ (hl _ rfl)
      have hturn : ((one set).run (iterateMore (one set).run false turns (bound.map (· - 1))
          (some p.position) goal) p).isSome := by
        refine reads_one h (hc c (by simp)) _ (ih (Place.next_rest h) ?_ ?_ ?_ ?_ hg)
        · exact fun d hd => hc d (List.mem_cons_of_mem _ hd)
        · simpa using ht
        · intro n hn
          simp only [Option.mem_def, Option.map_eq_some_iff] at hn
          obtain ⟨m, hm, rfl⟩ := hn
          have := hb m hm
          simp only [List.length_cons] at this
          omega
        · intro n hn
          obtain rfl : p.position = n := by simpa using hn
          rw [Place.next_position h]
          omega
      simp [iterateMore, hn, hturn]

/-- A nonempty run of characters of a set can be read. -/
theorem reads_many1 (h : p.rest = cs ++ rest) (hne : cs ≠ []) (hc : ∀ c ∈ cs, set.has .exact c) :
    Reads (many1 (one set)) p (p.after cs) := by
  intro goal hg
  cases cs with
  | nil => exact absurd rfl hne
  | cons c cs =>
    have hr := Place.next_rest h
    have hone : p.rest = [c] ++ (cs ++ rest) := h
    refine iterate_one hone ?_ ?_
    · simpa using hc c (by simp)
    · refine iterateMore_one hr (fun d hd => hc d (List.mem_cons_of_mem _ hd)) ?_
        (by simp) (by simp) hg
      have : (p.after [c]).rest = cs ++ rest := hr
      simp only [this, List.length_append]
      omega

/-- A given number of characters of a set can be read. -/
theorem reads_times {n : Nat} (h : p.rest = cs ++ rest) (hn : cs.length = n)
    (hc : ∀ c ∈ cs, set.has .exact c) :
    Reads (times .many (one set) n (some n)) p (p.after cs) := by
  intro goal hg
  subst hn
  refine iterate_one h hc ?_
  have hnil : (p.after cs).rest = [] ++ rest := Place.after_rest h
  exact iterateMore_one hnil (by simp) (by simp) (by simp) (by simp) hg

/-! ## Texts -/

theorem has_one (c : Char) : (CharSet.one c).has .exact c := by
  simp [CharSet.has, CharSet.one, CharSet.code, CharSet.covers, Text.CaseRule.variants]

/-- A text can be read where it stands. -/
theorem reads_text (h : p.rest = cs ++ rest) :
    Reads (sequence (cs.map fun c => one (.one c))) p (p.after cs) := by
  induction cs generalizing p with
  | nil => exact reads_empty
  | cons c cs ih => exact (reads_one h (has_one c)).seq (ih (Place.next_rest h))

/-- A pattern that can be read from the start occurs in the text. -/
theorem occursIn_of_reads {s : String} (h : Reads a (.start s.toList) q) : a.occursIn s := by
  have hr := h some rfl
  unfold occursIn
  generalize s.toList = cs at hr ⊢
  cases cs <;> simp [foundFrom, hr]

end Pattern
end FlowScript
