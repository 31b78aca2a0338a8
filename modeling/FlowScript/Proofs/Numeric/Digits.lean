import FlowScript.Numeric.Numeral
import FlowScript.Proofs.Text.Scan
import FlowScript.Token
import Mathlib.Data.List.TakeWhile

/-!
# Integers that are too long

Digits are turned into an integer in two places: where a text is a numeral as a whole, and where a
token of an expression is a number without fraction. Either meets a fault if there are more than
`maxDigits` of them, and there are no other faults in reading.

## Main definitions

* `TooLong`: texts that are integers with too many digits.
* `Blames`: the faults that digits in a text cause.

## Main statements

* `number?_eq_error_iff`: the texts that are too long are those that cannot be read as a number.
-/
namespace FlowScript

open Text

/-! ## Digits in a text -/

/-- A fault that too many digits in a text cause, when the brackets that may be dropped are left
out of it. -/
def Blames (cs : List Char) (f : Fault) : Prop :=
  ∃ digits, digits <:+: cs.filter (!Token.isDropped ·) ∧ digits.all isDigit ∧
    maxDigits < digits.length ∧ f = .tooManyDigits digits.length

namespace Blames

variable {part cs : List Char} {f : Fault}

theorem mono (h : Blames part f) (hp : part <:+: cs) : Blames cs f := by
  obtain ⟨digits, hd, h⟩ := h
  exact ⟨digits, hd.trans (hp.filter _), h⟩

/-- Brackets may be dropped before. -/
theorem of_filter {p : Char → Bool} (hp : ∀ c, p c = false → Token.isDropped c)
    (h : Blames (cs.filter p) f) : Blames cs f := by
  obtain ⟨digits, hd, h⟩ := h
  refine ⟨digits, ?_, h⟩
  rw [List.filter_filter] at hd
  have hf : (fun c => !Token.isDropped c && p c) = fun c => !Token.isDropped c := by
    funext c
    cases hc : p c with
    | true => simp
    | false => simp [hp c hc]
  rwa [hf] at hd

/-- Digits are no brackets. -/
theorem of_digits {digits : List Char} (hp : digits <:+: cs) (hd : digits.all isDigit)
    (hl : maxDigits < digits.length) : Blames cs (.tooManyDigits digits.length) := by
  refine ⟨digits, ?_, hd, hl, rfl⟩
  have hf : digits.filter (!Token.isDropped ·) = digits := by
    refine List.filter_eq_self.2 fun c hc => ?_
    have := List.all_eq_true.1 hd c hc
    cases hb : Token.isDropped c with
    | false => rfl
    | true =>
      simp only [Token.isDropped, Bool.or_eq_true, beq_iff_eq] at hb
      rcases hb with ((rfl | rfl) | rfl) | rfl <;> exact absurd this (by decide)
  rw [← hf]
  exact hp.filter _

end Blames

/-! ## Numerals -/

/-- A text that is, between blanks, an integer with more digits than are read. -/
def TooLong (cs : List Char) : Prop :=
  ∃ sign digits, sign ∈ [[], ['+'], ['-']] ∧ trim cs = sign ++ digits ∧ digits.all isDigit ∧
    maxDigits < digits.length

theorem TooLong.lt_length {cs : List Char} (h : TooLong cs) : maxDigits < cs.length := by
  obtain ⟨sign, digits, -, ht, -, hl⟩ := h
  have hlength := (isInfix_trim cs).length_le
  rw [ht, List.length_append] at hlength
  omega

theorem wholeNumber_eq_error_iff {digits : List Char} {f : Fault} :
    wholeNumber digits = .error f ↔
      maxDigits < digits.length ∧ f = .tooManyDigits digits.length := by
  unfold wholeNumber
  split
  · rename_i h
    simp [h, eq_comm]
  · rename_i h
    simp [h]

namespace Numeral

theorem value_eq_error_iff {n : Numeral} {f : Fault} :
    n.value = .error f ↔ n.fraction = none ∧ n.exponent = none ∧ maxDigits < n.whole.length ∧
      f = .tooManyDigits n.whole.length := by
  obtain ⟨negative, whole, fraction, exponent⟩ := n
  cases fraction <;> cases exponent <;>
    simp [value, ← wholeNumber_eq_error_iff, bind, Except.bind, pure, Except.pure]
  cases wholeNumber whole <;> simp

theorem sign_append (cs : List Char) :
    ∃ front ∈ [[], ['+'], ['-']], cs = front ++ (sign cs).2 := by
  unfold sign
  split
  · exact ⟨['-'], by simp, rfl⟩
  · exact ⟨['+'], by simp, rfl⟩
  · exact ⟨[], by simp, rfl⟩

theorem exponent?_eq_none {cs : List Char} (h : exponent? cs = some none) : cs = [] := by
  cases cs with
  | nil => rfl
  | cons c cs =>
    simp only [exponent?] at h
    split at h <;> simp at h

/-- Without point and exponent a numeral is a sign and digits. -/
theorem of_read? {cs : List Char} {n : Numeral} (h : read? cs = some n) (hf : n.fraction = none)
    (he : n.exponent = none) :
    ∃ front ∈ [[], ['+'], ['-']], cs = front ++ n.whole ∧ n.whole.all isDigit := by
  obtain ⟨front, hs, hc⟩ := sign_append cs
  refine ⟨front, hs, ?_⟩
  rcases hb : sign cs with ⟨negative, body⟩
  have hall := List.all_takeWhile (p := isDigit) (l := body)
  have happ := List.takeWhile_append_dropWhile (p := isDigit) (l := body)
  simp only [read?, hb] at h hc
  generalize body.takeWhile isDigit = whole at h hall happ
  generalize body.dropWhile isDigit = after at h happ
  split at h
  · split at h
    · simp at h
    · obtain ⟨exponent, -, rfl⟩ := Option.map_eq_some_iff.1 h
      simp at hf
  · split at h
    · simp at h
    · obtain ⟨exponent, hx, rfl⟩ := Option.map_eq_some_iff.1 h
      simp only at he hx ⊢
      subst he
      rw [exponent?_eq_none hx, List.append_nil] at happ
      exact ⟨by rw [hc, happ], hall⟩

/-- A sign and some digits are a numeral. -/
theorem read?_digits {front digits : List Char} (hs : front ∈ [[], ['+'], ['-']])
    (hd : digits.all isDigit) (hne : digits ≠ []) :
    read? (front ++ digits) = some ⟨front = ['-'], digits, none, none⟩ := by
  have hw := List.takeWhile_eq_self_iff.2 (List.all_eq_true.1 hd)
  have hr := List.dropWhile_eq_nil_iff.2 (List.all_eq_true.1 hd)
  have hn : sign (front ++ digits) = (decide (front = ['-']), digits) := by
    simp only [List.mem_cons, List.not_mem_nil, or_false] at hs
    rcases hs with rfl | rfl | rfl
    · -- the first digit is no sign
      cases digits with
      | nil => rfl
      | cons c cs =>
        have hc : isDigit c := List.all_eq_true.1 hd c (by simp)
        simp only [List.nil_append, sign]
        split
        · rename_i he
          obtain ⟨rfl, -⟩ := List.cons.inj he
          exact absurd hc (by decide)
        · rename_i he
          obtain ⟨rfl, -⟩ := List.cons.inj he
          exact absurd hc (by decide)
        · rfl
    · rfl
    · rfl
  simp [read?, hn, hw, hr, hne, exponent?]

end Numeral

/-- A text is not read as a number only if it is too long, and its digits are to blame. -/
theorem number?_eq_error {cs : List Char} {f : Fault} (h : number? cs = .error f) :
    TooLong cs ∧ Blames cs f := by
  unfold number? at h
  cases hr : Numeral.read? (trim cs) with
  | none => simp [hr] at h
  | some n =>
    have hv : n.value = .error f := by
      cases hv : n.value with
      | ok x => simp [hr, hv, Except.map] at h
      | error e => simpa [hr, hv, Except.map] using h
    obtain ⟨hf, he, hl, rfl⟩ := Numeral.value_eq_error_iff.1 hv
    obtain ⟨front, hs, hc, hd⟩ := Numeral.of_read? hr hf he
    refine ⟨⟨front, n.whole, hs, hc, hd, hl⟩, .of_digits ?_ hd hl⟩
    exact (hc ▸ (List.suffix_append _ _).isInfix).trans (isInfix_trim cs)

/-- **The texts that are not read as a number are those that are too long.** -/
theorem number?_eq_error_iff {cs : List Char} : (∃ f, number? cs = .error f) ↔ TooLong cs := by
  constructor
  · rintro ⟨f, h⟩
    exact (number?_eq_error h).1
  · rintro ⟨front, digits, hs, hc, hd, hl⟩
    have hne : digits ≠ [] := by
      rintro rfl
      simp at hl
    have hv : (Numeral.mk (front = ['-']) digits none none).value =
        .error (.tooManyDigits digits.length) :=
      Numeral.value_eq_error_iff.2 ⟨rfl, rfl, hl, rfl⟩
    exact ⟨_, by simp only [number?, hc, Numeral.read?_digits hs hd hne, hv]; rfl⟩

end FlowScript
