import FlowScript.Proofs.Numeric.Digits
import FlowScript.Proofs.Token
import FlowScript.Value.Parser

/-!
# Expressions with integers that are too long

An expression cannot be read exactly if the reader wants an operand and meets an integer with too
many digits. If the text stops being an expression before that, the digits do no harm.

## Main definitions

* `Expr.OverlongOperand`: texts whose tokens lead to an integer that is too long.
* `Expr.Overlong`: texts that cannot be read as the expression that they stand for.

## Main statements

* `Expr.parse_eq_error`, `Expr.read_eq_error`: what is to blame for a fault.
* `Expr.parse_eq_error_iff`, `Expr.read_eq_error_iff`: the texts that meet a fault.
* `Expr.exists_parse`: a text without integers that are too long meets none.
-/
namespace FlowScript

open Text

namespace Token

/-! ## Numbers among tokens -/

/-- The digits of a number among the tokens of a text are to blame if there are too many. -/
theorem blames_of_mem_scan {cs digits : List Char} (h : number digits none ∈ scan cs)
    (hl : maxDigits < digits.length) : Blames cs (.tooManyDigits digits.length) := by
  obtain ⟨hi, -, hd⟩ := of_mem_scanAfter h
  exact ⟨digits, hi.trans (isInfix_trim _), List.all_eq_true.2 hd, hl, rfl⟩

end Token

namespace Expr

variable {cs : List Char} {f : Fault}

/-! ## Reading tokens -/

theorem ofNumeral_eq_fault_iff {whole : List Char} {fraction : Option (List Char)} :
    ofNumeral whole fraction = .error (.fault f) ↔
      fraction = none ∧ maxDigits < whole.length ∧ f = .tooManyDigits whole.length := by
  have h := Numeral.value_eq_error_iff (n := ⟨false, whole, fraction, none⟩) (f := f)
  simp only [true_and] at h
  rw [← h, ofNumeral]
  cases Numeral.value ⟨false, whole, fraction, none⟩ <;> simp

/-- A token meets a fault if an operand is wanted and it is an integer that is too long. -/
theorem step_eq_fault_iff {r : Reading} {t : Token} :
    r.step t = .error (.fault f) ↔ r.operand = none ∧ ∃ digits, t = .number digits none ∧
      maxDigits < digits.length ∧ f = .tooManyDigits digits.length := by
  obtain ⟨operand, inner, outer, operators⟩ := r
  cases operand with
  | none =>
    cases t with
    | number whole fraction =>
      have h : ofNumeral whole fraction = .error (.fault f) ↔ _ := ofNumeral_eq_fault_iff
      simp only [Reading.step, Token.number.injEq, true_and]
      constructor
      · intro hs
        cases hn : ofNumeral whole fraction with
        | ok e => simp [hn, bind, Except.bind, pure, Except.pure] at hs
        | error e =>
          simp only [hn, bind, Except.bind, Except.error.injEq] at hs
          obtain ⟨rfl, hl, rfl⟩ := h.1 (hs ▸ hn)
          exact ⟨whole, ⟨rfl, rfl⟩, hl, rfl⟩
      · rintro ⟨_, ⟨rfl, rfl⟩, hl, rfl⟩
        simp [h.2 ⟨rfl, hl, rfl⟩, bind, Except.bind]
    | word name => simp [Reading.step]
    | operator op => simp [Reading.step]
    | leftParen =>
      simp only [Reading.step]
      split <;> simp
    | rightParen => simp [Reading.step]
  | some e =>
    cases t with
    | number whole fraction => simp [Reading.step]
    | word name => simp [Reading.step]
    | operator op =>
      simp only [Reading.step]
      split <;> simp
    | leftParen => simp [Reading.step]
    | rightParen => cases outer <;> simp [Reading.step]

/-- Tokens meet a fault if one of them does, after those before it have been read. -/
theorem foldlM_eq_fault_iff {ts : List Token} {r : Reading} :
    ts.foldlM Reading.step r = .error (.fault f) ↔
      ∃ before digits after r', ts = before ++ .number digits none :: after ∧
        maxDigits < digits.length ∧ before.foldlM Reading.step r = .ok r' ∧
        r'.operand = none ∧ f = .tooManyDigits digits.length := by
  induction ts generalizing r with
  | nil => simp [pure, Except.pure]
  | cons t ts ih =>
    rw [List.foldlM_cons]
    constructor
    · intro h
      cases hs : r.step t with
      | error e =>
        simp only [hs, bind, Except.bind, Except.error.injEq] at h
        obtain ⟨ho, digits, rfl, hl, rfl⟩ := step_eq_fault_iff.1 (h ▸ hs)
        exact ⟨[], digits, ts, r, rfl, hl, rfl, ho, rfl⟩
      | ok r₁ =>
        simp only [hs, bind, Except.bind] at h
        obtain ⟨before, digits, after, r', rfl, hl, hb, ho, rfl⟩ := ih.1 h
        refine ⟨t :: before, digits, after, r', rfl, hl, ?_, ho, rfl⟩
        rw [List.foldlM_cons, hs]
        exact hb
    · rintro ⟨before, digits, after, r', ht, hl, hb, ho, rfl⟩
      cases before with
      | nil =>
        obtain ⟨rfl, rfl⟩ := List.cons.inj ht
        simp only [List.foldlM_nil, pure, Except.pure, Except.ok.injEq] at hb
        have hs := step_eq_fault_iff.2 ⟨hb ▸ ho, digits, rfl, hl, rfl⟩
        simp [hs, bind, Except.bind]
      | cons t' before =>
        obtain ⟨rfl, rfl⟩ := List.cons.inj ht
        rw [List.foldlM_cons] at hb
        cases hs : r.step t with
        | error e => simp [hs, bind, Except.bind] at hb
        | ok r₁ =>
          simp only [hs, bind, Except.bind] at hb ⊢
          exact ih.2 ⟨before, digits, after, r', rfl, hl, hb, ho, rfl⟩

/-- A text whose tokens lead to an integer with too many digits in place of an operand. -/
def OverlongOperand (cs : List Char) : Prop :=
  ∃ before digits after r, Token.scan cs = before ++ .number digits none :: after ∧
    maxDigits < digits.length ∧ before.foldlM Reading.step .start = .ok r ∧ r.operand = none

theorem parse_eq_error_iff_fold :
    parse cs = .error f ↔
      (Token.scan cs).foldlM Reading.step .start = .error (.fault f) := by
  unfold parse ofTokens
  cases (Token.scan cs).foldlM Reading.step .start with
  | error e => cases e <;> simp [bind, Except.bind]
  | ok r =>
    have hf : r.finish ≠ .error (.fault f) := by
      unfold Reading.finish
      split <;> simp
    simp only [bind, Except.bind, reduceCtorEq, iff_false]
    cases hr : r.finish with
    | ok e => simp
    | error e =>
      cases e with
      | malformed => simp
      | fault g => simpa [hr] using hf

theorem parse_eq_error (h : parse cs = .error f) : OverlongOperand cs ∧ Blames cs f := by
  rw [parse_eq_error_iff_fold, foldlM_eq_fault_iff] at h
  obtain ⟨before, digits, after, r, ht, hl, hb, ho, rfl⟩ := h
  refine ⟨⟨before, digits, after, r, ht, hl, hb, ho⟩, Token.blames_of_mem_scan ?_ hl⟩
  simp [ht]

theorem parse_eq_error_iff : (∃ f, parse cs = .error f) ↔ OverlongOperand cs := by
  constructor
  · rintro ⟨f, h⟩
    exact (parse_eq_error h).1
  · rintro ⟨before, digits, after, r, ht, hl, hb, ho⟩
    exact ⟨_, parse_eq_error_iff_fold.2
      (foldlM_eq_fault_iff.2 ⟨before, digits, after, r, ht, hl, hb, ho, rfl⟩)⟩

/-- A text whose tokens hold no integer with too many digits meets no fault. -/
theorem exists_parse
    (h : ∀ digits, .number digits none ∈ Token.scan cs → digits.length ≤ maxDigits) :
    ∃ r, parse cs = .ok r := by
  cases hp : parse cs with
  | ok r => exact ⟨r, rfl⟩
  | error f =>
    obtain ⟨before, digits, after, r, ht, hl, -, -⟩ := (parse_eq_error hp).1
    exact absurd (h digits (by simp [ht])) (Nat.not_le.2 hl)

/-! ## Free text -/

/-- A text that is not quoted, and that is an integer with too many digits or, being no number,
leads to one as an expression. -/
def Overlong (cs : List Char) : Prop :=
  unquote? (trim cs) = none ∧
    (TooLong (trim cs) ∨ number? (trim cs) = .ok none ∧ OverlongOperand (trim cs))

theorem read_eq_error (h : Expr.read cs = .error f) : Overlong cs ∧ Blames cs f := by
  simp only [Expr.read, bind, Except.bind, pure, Except.pure] at h
  cases hu : unquote? (trim cs) with
  | some inside => simp [hu] at h
  | none =>
    simp only [hu] at h
    cases hn : number? (trim cs) with
    | error e =>
      simp only [hn, Except.error.injEq] at h
      obtain ⟨ht, hb⟩ := number?_eq_error (h ▸ hn)
      exact ⟨⟨hu, .inl ht⟩, hb.mono (isInfix_trim cs)⟩
    | ok n =>
      cases n with
      | some n => simp [hn] at h
      | none =>
        simp only [hn] at h
        cases hp : parse (trim cs) with
        | error e =>
          simp only [hp, Except.error.injEq] at h
          obtain ⟨ho, hb⟩ := parse_eq_error (h ▸ hp)
          exact ⟨⟨hu, .inr ⟨hn, ho⟩⟩, hb.mono (isInfix_trim cs)⟩
        | ok e =>
          cases e with
          | some e => simp [hp] at h
          | none =>
            simp only [hp] at h
            split at h <;> simp at h

theorem read_eq_error_iff : (∃ f, Expr.read cs = .error f) ↔ Overlong cs := by
  constructor
  · rintro ⟨f, h⟩
    exact (read_eq_error h).1
  · rintro ⟨hu, ht | ⟨hn, ho⟩⟩
    · obtain ⟨f, hf⟩ := number?_eq_error_iff.2 ht
      exact ⟨f, by simp [Expr.read, hu, hf, bind, Except.bind]⟩
    · obtain ⟨f, hf⟩ := parse_eq_error_iff.2 ho
      exact ⟨f, by simp [Expr.read, hu, hn, hf, bind, Except.bind]⟩

end Expr
end FlowScript
