import FlowScript.Proofs.Name
import FlowScript.Proofs.Numeric.Digits
import FlowScript.Proofs.Text.Trim
import Mathlib.Algebra.Group.Nat.Defs

/-!
# Integers that are written

An integer that has been read is short enough to be read again from its decimal digits, and it is
the integer that they write.

## Main statements

* `digitsValue_toDigits`: the decimal digits of a number write it.
* `number?_of_short`: an integer that is not too long is read from its text.
* `number?_toString`: an integer that has been read is read from its decimal digits.
-/
namespace FlowScript

open Text

namespace Text

theorem digit?_of_isDigit {c : Char} (h : c.isDigit) : digit? c = some (c.toNat - 0x30) := by
  have hn : c.toNat < 0x80 := by
    simp only [Char.isDigit, Bool.and_eq_true, decide_eq_true_eq, ge_iff_le,
      UInt32.le_iff_toNat_le] at h
    have : c.toNat ≤ 57 := h.2
    omega
  simp only [digit?, hn, if_true, h]

theorem isDigit_of_ascii {c : Char} (h : c.isDigit) : isDigit c := by
  rw [isDigit, digit?_of_isDigit h]
  rfl

theorem isDigit_toDigits {n : Nat} {c : Char} (h : c ∈ Nat.toDigits 10 n) : c.isDigit :=
  Nat.isDigit_of_mem_toDigits (by decide) (by decide) h

/-- The decimal digits of a number write it. -/
theorem digitsValue_toDigits (n : Nat) : digitsValue (Nat.toDigits 10 n) = n := by
  have hd : digitsValue (Nat.toDigits 10 n) = Nat.ofDigitChars 10 (Nat.toDigits 10 n) 0 := by
    rw [digitsValue, Nat.ofDigitChars_eq_foldl]
    refine List.foldl_ext _ _ _ fun acc c hc => ?_
    rw [digit?_of_isDigit (isDigit_toDigits hc)]
    rfl
  rw [hd, Nat.ofDigitChars_toDigits (by decide) (by decide)]

/-- A run of digits writes a number with at most as many digits. -/
theorem digitsValue_lt (cs : List Char) : digitsValue cs < 10 ^ cs.length := by
  induction cs using List.reverseRecOn with
  | nil => decide
  | append_singleton cs c ih =>
    have hc : (digit? c).getD 0 < 10 := by
      cases hd : digit? c with
      | none => decide
      | some d => exact digit?_lt hd
    rw [digitsValue, List.foldl_append, List.length_append, List.length_singleton, Nat.pow_succ]
    change 10 * digitsValue cs + (digit? c).getD 0 < _
    omega

end Text

theorem toList_toString {n : Int} (hn : 0 ≤ n) : (toString n).toList = Nat.toDigits 10 n.toNat := by
  obtain ⟨m, rfl⟩ := Int.eq_ofNat_of_zero_le hn
  exact Nat.toList_repr

theorem toList_toString_ofNat (n : Nat) : (toString (Int.ofNat n)).toList = Nat.toDigits 10 n :=
  toList_toString (Int.natCast_nonneg n)

theorem toList_toString_negSucc (n : Nat) :
    (toString (Int.negSucc n)).toList = '-' :: Nat.toDigits 10 (n + 1) := by
  have h : toString (Int.negSucc n) = "-" ++ (n + 1).repr := rfl
  rw [h, String.toList_append, Nat.toList_repr]
  rfl

theorem isWordRun_toString {n : Int} (hn : 0 ≤ n) : isWordRun (toString n).toList := by
  rw [toList_toString hn, isWordRun_iff]
  exact ⟨by simp, fun c hc => isWord_of_isDigit (isDigit_toDigits hc)⟩

/-- Digits that are not too long write their value. -/
theorem wholeNumber_eq_ok_iff {digits : List Char} {n : Nat} :
    wholeNumber digits = .ok n ↔ digits.length ≤ maxDigits ∧ digitsValue digits = n := by
  unfold wholeNumber
  split
  · rename_i h
    simp only [reduceCtorEq, false_iff, not_and]
    omega
  · rename_i h
    simp only [Except.ok.injEq]
    omega

/-- The value of a numeral that is an integer. -/
theorem Numeral.value_eq_int {m : Numeral} {n : Int} (h : m.value = .ok (.int n)) :
    m.whole.length ≤ maxDigits ∧
      n = if m.negative then -(digitsValue m.whole : Int) else digitsValue m.whole := by
  obtain ⟨negative, whole, fraction, exponent⟩ := m
  cases fraction <;> cases exponent <;>
    simp only [value, Except.ok.injEq, reduceCtorEq, bind, Except.bind, pure, Except.pure] at h
  cases hw : wholeNumber whole with
  | error f => simp [hw] at h
  | ok size =>
    obtain ⟨hl, rfl⟩ := wholeNumber_eq_ok_iff.1 hw
    simp only [hw, Except.ok.injEq, Number.int.injEq] at h
    exact ⟨hl, h.symm⟩

/-- An integer that has been read is the value of a numeral between blanks. -/
theorem numeral_of_number? {cs : List Char} {n : Int} (h : number? cs = .ok (some (.int n))) :
    ∃ m, Numeral.read? (trim cs) = some m ∧ m.value = .ok (.int n) := by
  unfold number? at h
  cases hr : Numeral.read? (trim cs) with
  | none => simp [hr] at h
  | some m =>
    refine ⟨m, rfl, ?_⟩
    cases hv : m.value with
    | error f => simp [hr, hv, Except.map] at h
    | ok x => simpa [hr, hv, Except.map] using h

/-- An integer that has been read has few digits. -/
theorem lt_of_number? {cs : List Char} {n : Int} (h : number? cs = .ok (some (.int n)))
    (hn : 0 ≤ n) : n.toNat < 10 ^ maxDigits := by
  obtain ⟨m, -, hv⟩ := numeral_of_number? h
  obtain ⟨hl, hs⟩ := Numeral.value_eq_int hv
  have hlt := digitsValue_lt m.whole
  have hpow : 10 ^ m.whole.length ≤ 10 ^ maxDigits := Nat.pow_le_pow_right (by decide) hl
  have hle : n.toNat ≤ digitsValue m.whole := by
    split at hs <;> omega
  omega

/-! ## Reading integers back -/

/-- The text of an integer is a minus sign, if it is negative, and digits. -/
theorem toList_toString_eq (n : Int) :
    (toString n).toList = (if n < 0 then ['-'] else []) ++ Nat.toDigits 10 n.natAbs := by
  cases n with
  | ofNat n => exact toList_toString_ofNat n
  | negSucc n =>
    rw [toList_toString_negSucc, if_pos (Int.negSucc_lt_zero n)]
    rfl

theorem mem_toString {n : Int} {c : Char} (h : c ∈ (toString n).toList) : c = '-' ∨ c.isDigit := by
  rw [toList_toString_eq] at h
  rcases List.mem_append.1 h with h | h
  · left
    split at h
    · exact List.mem_singleton.1 h
    · simp at h
  · exact .inr (isDigit_toDigits h)

theorem isSolid_toString (n : Int) : IsSolid (toString n).toList := by
  refine ⟨by rw [toList_toString_eq]; simp, fun c hc => ?_⟩
  rcases mem_toString hc with rfl | hd
  · rfl
  · exact not_isBlank_of_isDigit (isDigit_of_ascii hd)

/-- **An integer that is not too long is read from its text.** -/
theorem number?_of_short {n : Int} (h : (Nat.toDigits 10 n.natAbs).length ≤ maxDigits) :
    number? (toString n).toList = .ok (some (.int n)) := by
  have hdigits : (Nat.toDigits 10 n.natAbs).all isDigit :=
    List.all_eq_true.2 fun c hc => isDigit_of_ascii (isDigit_toDigits hc)
  have hsign : (if n < 0 then ['-'] else []) ∈ [[], ['+'], ['-']] := by
    split <;> simp
  have hread := Numeral.read?_digits hsign hdigits (by simp)
  have hsize := wholeNumber_eq_ok_iff.2 ⟨h, digitsValue_toDigits n.natAbs⟩
  rw [number?, (isSolid_toString n).isFree.trim_eq, toList_toString_eq, hread]
  simp only [Numeral.value, hsize, bind, Except.bind, pure, Except.pure, Except.map]
  by_cases hn : n < 0
  · have habs : -(n.natAbs : Int) = n := by omega
    simp only [hn, if_true, decide_true, habs]
  · have habs : (n.natAbs : Int) = n := by omega
    simp only [hn, if_false, List.nil_eq, reduceCtorEq, decide_false, habs, Bool.false_eq_true]

/-- **An integer that has been read is read from its decimal digits.** -/
theorem number?_toString {cs : List Char} {n : Int} (h : number? cs = .ok (some (.int n)))
    (hn : 0 ≤ n) : number? (toString n).toList = .ok (some (.int n)) := by
  refine number?_of_short ((Nat.length_toDigits_le_iff (by decide) (by decide)).2 ?_)
  have hlt := lt_of_number? h hn
  omega

/-! ## Where integers end -/

/-- A text that does not go on with a digit. -/
def EndsNumber (rest : List Char) : Prop :=
  ∀ c ∈ rest.head?, c.isDigit = false

theorem EndsNumber.cons {c : Char} (h : c.isDigit = false) (rest : List Char) :
    EndsNumber (c :: rest) := by
  simpa [EndsNumber] using h

theorem toDigits_append_inj {m n : Nat} {rest rest' : List Char} (hr : EndsNumber rest)
    (hr' : EndsNumber rest') (h : Nat.toDigits 10 m ++ rest = Nat.toDigits 10 n ++ rest') :
    m = n ∧ rest = rest' := by
  have hsplit (n : Nat) {rest : List Char} (hr : EndsNumber rest) :
      (Nat.toDigits 10 n ++ rest).takeWhile Char.isDigit = Nat.toDigits 10 n ∧
        (Nat.toDigits 10 n ++ rest).dropWhile Char.isDigit = rest := by
    have hd : ∀ c ∈ Nat.toDigits 10 n, c.isDigit := fun c => isDigit_toDigits
    rw [List.takeWhile_append_of_pos hd, List.dropWhile_append_of_pos hd]
    cases rest with
    | nil => simp
    | cons c rest =>
      have hc : c.isDigit = false := hr c rfl
      simp [hc]
  have hm := hsplit m hr
  have hn := hsplit n hr'
  rw [h] at hm
  have hdigits := hm.1.symm.trans hn.1
  refine ⟨?_, hm.2.symm.trans hn.2⟩
  rw [← digitsValue_toDigits m, hdigits, digitsValue_toDigits]

theorem head?_toDigits (n : Nat) : ∃ c cs, Nat.toDigits 10 n = c :: cs ∧ c.isDigit := by
  cases h : Nat.toDigits 10 n with
  | nil => simp at h
  | cons c cs => exact ⟨c, cs, rfl, isDigit_toDigits (n := n) (h ▸ List.mem_cons_self)⟩

theorem int_append_inj {m n : Int} {rest rest' : List Char} (hr : EndsNumber rest)
    (hr' : EndsNumber rest')
    (h : (toString m).toList ++ rest = (toString n).toList ++ rest') : m = n ∧ rest = rest' := by
  have hminus (n k : Nat) (rest rest' : List Char) :
      Nat.toDigits 10 n ++ rest ≠ '-' :: Nat.toDigits 10 k ++ rest' := by
    obtain ⟨c, cs, hc, hd⟩ := head?_toDigits n
    rw [hc]
    intro h
    injection h with h
    subst h
    exact absurd hd (by decide)
  cases m with
  | ofNat m =>
    rw [toList_toString_ofNat] at h
    cases n with
    | ofNat n =>
      rw [toList_toString_ofNat] at h
      have := toDigits_append_inj hr hr' h
      exact ⟨congrArg Int.ofNat this.1, this.2⟩
    | negSucc n =>
      rw [toList_toString_negSucc] at h
      exact absurd h (hminus _ _ _ _)
  | negSucc m =>
    rw [toList_toString_negSucc] at h
    cases n with
    | ofNat n =>
      rw [toList_toString_ofNat] at h
      exact absurd h.symm (hminus _ _ _ _)
    | negSucc n =>
      rw [toList_toString_negSucc] at h
      have := toDigits_append_inj hr hr' (List.tail_eq_of_cons_eq h)
      exact ⟨congrArg Int.negSucc (Nat.succ.inj this.1), this.2⟩

end FlowScript
