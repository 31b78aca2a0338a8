import FlowScript.Numeric.Numeral
import FlowScript.Proofs.Numeric.Decimal
import FlowScript.Proofs.Numeric.Shortest

/-!
# Doubles that are read from their texts

A double that is written with digits and a point alone is read from its text. All others are
written with an exponent, which has a sign, or with a word.

## Main definitions

* `Decimal.point`: where the point stands in the digits of a decimal.
* `Number.isPlain`: the numbers that are written with digits and a point alone.

## Main statements

* `Double.decimalText_eq`: the text of a decimal with a point denotes it.
* `Double.isPlain_iff`: the doubles that are written with a point.
* `Double.double_text`: a double that is written with a point is read from its text.
* `Number.mem_text`: the characters in which numbers are written.
-/
namespace FlowScript

open Text

attribute [local instance (high)] instPowNat

/-! ## Values of digits -/

theorem digitsValue_append (front back : List Char) :
    digitsValue (front ++ back) = digitsValue front * 10 ^ back.length + digitsValue back := by
  induction back using List.reverseRecOn with
  | nil => simp [digitsValue]
  | append_singleton back c ih =>
    have hsnoc : ∀ cs, digitsValue (cs ++ [c]) = 10 * digitsValue cs + (digit? c).getD 0 :=
      fun cs => by rw [digitsValue, List.foldl_append]; rfl
    rw [← List.append_assoc, hsnoc, hsnoc, ih, List.length_append, List.length_singleton,
      Nat.pow_succ]
    ring

theorem digitsValue_zeros (n : Nat) : digitsValue (List.replicate n '0') = 0 := by
  induction n with
  | zero => rfl
  | succ n ih =>
    rw [List.replicate_succ', digitsValue_append, ih]
    decide

/-- The place of the point in the digits of a decimal, counted from their start. -/
def Decimal.point (d : Decimal) : Int :=
  (Nat.toDigits 10 d.digits).length + d.power

/-- The place of the point tells the size of a decimal. -/
theorem Decimal.value_bounds {d : Decimal} (hd : 0 < d.digits) :
    10 ^ (d.point - 1) ≤ d.value ∧ d.value < 10 ^ d.point := by
  have hpos : 0 < (Nat.toDigits 10 d.digits).length :=
    List.length_pos_iff.2 Nat.toDigits_ne_nil
  have hlt : d.digits < 10 ^ (Nat.toDigits 10 d.digits).length :=
    (Nat.length_toDigits_le_iff (by decide) hpos).1 le_rfl
  have hle : 10 ^ ((Nat.toDigits 10 d.digits).length - 1) ≤ d.digits := by
    by_contra hlt
    obtain hz | hz := Nat.eq_zero_or_pos ((Nat.toDigits 10 d.digits).length - 1)
    · rw [hz, Nat.pow_zero] at hlt
      omega
    · have := (Nat.length_toDigits_le_iff (by decide) hz).2 (not_le.1 hlt)
      omega
  have hp : (0 : ℚ) < 10 ^ d.power := by positivity
  rw [Decimal.point, Decimal.value]
  generalize (Nat.toDigits 10 d.digits).length = len at *
  constructor
  · rw [show (len : Int) + d.power - 1 = ((len - 1 : Nat) : Int) + d.power by omega,
      zpow_add₀ (by norm_num), zpow_natCast]
    exact mul_le_mul_of_nonneg_right (by exact_mod_cast hle) hp.le
  · rw [zpow_add₀ (by norm_num), zpow_natCast]
    exact mul_lt_mul_of_pos_right (by exact_mod_cast hlt) hp

theorem Decimal.point_iff {d : Decimal} (hd : 0 < d.digits) :
    -4 < d.point ∧ d.point ≤ 16 ↔
      10 ^ (-4 : Int) ≤ d.value ∧ d.value < 10 ^ (16 : Int) := by
  have hten : (1 : ℚ) < 10 := by norm_num
  obtain ⟨hle, hlt⟩ := value_bounds hd
  constructor
  · rintro ⟨hlow, hhigh⟩
    exact ⟨(zpow_le_zpow_right₀ hten.le (by omega)).trans hle,
      hlt.trans_le (zpow_le_zpow_right₀ hten.le hhigh)⟩
  · rintro ⟨hlow, hhigh⟩
    have hlow' := (zpow_lt_zpow_iff_right₀ hten).1 (hlow.trans_lt hlt)
    have hhigh' := (zpow_lt_zpow_iff_right₀ hten).1 (hle.trans_lt hhigh)
    omega

namespace Double

variable {d : Decimal}

/-- The digits of a decimal end in zeros after the significant ones. -/
theorem toDigits_eq_significant (d : Decimal) :
    ∃ n, Nat.toDigits 10 d.digits = significant d ++ List.replicate n '0' := by
  have happ := List.takeWhile_append_dropWhile (p := (· = '0'))
    (l := (Nat.toDigits 10 d.digits).reverse)
  refine ⟨((Nat.toDigits 10 d.digits).reverse.takeWhile (· = '0')).length, ?_⟩
  have hzeros := List.eq_replicate_of_mem (a := '0')
    (l := (Nat.toDigits 10 d.digits).reverse.takeWhile (· = '0'))
    fun c hc => by simpa using List.mem_takeWhile_imp hc
  rw [significant, ← List.reverse_replicate, ← hzeros, ← List.reverse_append, happ,
    List.reverse_reverse]

theorem isDigit_significant {c : Char} (h : c ∈ significant d) : c.isDigit := by
  obtain ⟨n, hn⟩ := toDigits_eq_significant d
  exact isDigit_toDigits (n := d.digits) (hn ▸ List.mem_append_left _ h)

/-- The significant digits and the place of the point make up a decimal. -/
theorem value_eq_significant (d : Decimal) :
    d.value = digitsValue (significant d) * 10 ^ (d.point - (significant d).length) := by
  obtain ⟨n, hn⟩ := toDigits_eq_significant d
  have hd : d.digits = digitsValue (significant d) * 10 ^ n := by
    rw [← digitsValue_toDigits d.digits, hn, digitsValue_append, digitsValue_zeros,
      List.length_replicate, Nat.add_zero]
  have hp : d.point - (significant d).length = n + d.power := by
    rw [Decimal.point, hn, List.length_append, List.length_replicate]
    omega
  rw [hp, Decimal.value, zpow_add₀ (by norm_num), zpow_natCast, ← mul_assoc]
  congr 1
  exact_mod_cast hd

theorem significant_ne_nil (h : 0 < d.digits) : significant d ≠ [] := by
  intro hnil
  obtain ⟨n, hn⟩ := toDigits_eq_significant d
  have := digitsValue_toDigits d.digits
  rw [hn, hnil, List.nil_append, digitsValue_zeros] at this
  omega

/-- Digits before and after a point that denote a number. -/
structure Denotes (whole fraction : List Char) (r : ℚ) : Prop where
  whole_ne_nil : whole ≠ []
  fraction_ne_nil : fraction ≠ []
  isDigit : ∀ c ∈ whole ++ fraction, c.isDigit
  value : (digitsValue (whole ++ fraction) : ℚ) * 10 ^ (-(fraction.length : Int)) = r

variable {ds : List Char} {point : Int}

/-- The point stands before the digits. -/
theorem denotes_small (hds : ds ≠ []) (hdigit : ∀ c ∈ ds, c.isDigit) (hpoint : point ≤ 0) :
    Denotes ['0'] (List.replicate (-point).toNat '0' ++ ds)
      (digitsValue ds * 10 ^ (point - ds.length)) := by
  refine ⟨by simp, by simp [hds], fun c hc => ?_, ?_⟩
  · simp only [List.mem_append, List.mem_singleton, List.mem_replicate] at hc
    rcases hc with rfl | ⟨-, rfl⟩ | hc
    · decide
    · decide
    · exact hdigit c hc
  · have hv :
        digitsValue (['0'] ++ (List.replicate (-point).toNat '0' ++ ds)) = digitsValue ds := by
      rw [← List.append_assoc, ← List.replicate_one, List.replicate_append_replicate,
        digitsValue_append, digitsValue_zeros, Nat.zero_mul, Nat.zero_add]
    rw [hv, List.length_append, List.length_replicate]
    congr 2
    omega

/-- The point stands after the digits, and after zeros up to it. -/
theorem denotes_large (hds : ds ≠ []) (hdigit : ∀ c ∈ ds, c.isDigit) (hpoint : ds.length ≤ point) :
    Denotes (ds ++ List.replicate (point.toNat - ds.length) '0') ['0']
      (digitsValue ds * 10 ^ (point - ds.length)) := by
  refine ⟨by simp [hds], by simp, fun c hc => ?_, ?_⟩
  · simp only [List.mem_append, List.mem_singleton, List.mem_replicate] at hc
    rcases hc with (hc | ⟨-, rfl⟩) | rfl
    · exact hdigit c hc
    · decide
    · decide
  · obtain ⟨n, hn⟩ : ∃ n : Nat, point - ds.length = n := ⟨(point - ds.length).toNat, by omega⟩
    have hlen : point.toNat - ds.length = n := by omega
    rw [hn, hlen, List.append_assoc, ← List.replicate_one, List.replicate_append_replicate,
      digitsValue_append, digitsValue_zeros, List.length_replicate, List.length_replicate]
    push_cast
    rw [zpow_neg, zpow_one, zpow_natCast, pow_succ]
    field_simp
    ring

/-- The point stands between the digits. -/
theorem denotes_inside (hdigit : ∀ c ∈ ds, c.isDigit) (hpos : 0 < point)
    (hpoint : point < ds.length) :
    Denotes (ds.take point.toNat) (ds.drop point.toNat)
      (digitsValue ds * 10 ^ (point - ds.length)) := by
  have hlen : 0 < ds.length := by omega
  refine ⟨?_, ?_, ?_, ?_⟩
  · rw [ne_eq, List.take_eq_nil_iff]
    have := List.length_pos_iff.1 hlen
    simp only [this, or_false]
    omega
  · rw [ne_eq, List.drop_eq_nil_iff]
    omega
  · rwa [List.take_append_drop]
  · rw [List.take_append_drop, List.length_drop]
    congr 2
    omega

/-- **The text of a decimal with a point denotes it.** -/
theorem decimalText_eq (hd : 0 < d.digits) (hlow : -4 < d.point) (hhigh : d.point ≤ 16) :
    ∃ whole fraction,
      decimalText d = whole ++ '.' :: fraction ∧ Denotes whole fraction d.value := by
  have hds := significant_ne_nil hd
  have hvalue := value_eq_significant d
  have hdigit := fun c => isDigit_significant (d := d) (c := c)
  rw [Decimal.point] at hlow hhigh hvalue
  simp only [decimalText]
  rw [if_pos ⟨hlow, hhigh⟩, hvalue]
  generalize significant d = ds at *
  generalize ((Nat.toDigits 10 d.digits).length : Int) + d.power = point at *
  by_cases hpoint : point ≤ 0
  · rw [if_pos hpoint]
    exact ⟨_, _, rfl, denotes_small hds hdigit hpoint⟩
  · rw [if_neg hpoint]
    by_cases hlen : ds.length ≤ point.toNat
    · refine ⟨_, _, rfl, ?_⟩
      rw [List.take_of_length_le hlen, List.drop_of_length_le hlen]
      exact denotes_large hds hdigit (by omega)
    · refine ⟨_, _, rfl, ?_⟩
      rw [if_neg (by simpa using hlen), Nat.sub_eq_zero_of_le (by omega), List.replicate_zero,
        List.append_nil]
      exact denotes_inside hdigit (by omega) (by omega)

/-- An exponent has a sign. -/
theorem sign_mem_decimalText (h : ¬ (-4 < d.point ∧ d.point ≤ 16)) :
    '-' ∈ decimalText d ∨ '+' ∈ decimalText d := by
  rw [Decimal.point] at h
  simp only [decimalText]
  rw [if_neg h]
  generalize ((Nat.toDigits 10 d.digits).length : Int) + d.power = point
  rw [exponentText]
  by_cases hneg : point - 1 < 0
  · left
    simp [hneg]
  · right
    simp [hneg]

end Double

/-- Whether a number is written with digits and a point alone. -/
def Number.isPlain (n : Number) : Bool :=
  n.text.toList.all fun c => c.isDigit || c == '.'

namespace Double

variable {m : Nat} {e : Int}

theorem toList_text (m : Nat) (e : Int) : (Number.double (finite false m e)).text.toList =
    if m = 0 then ['0', '.', '0'] else decimalText (shortest m e) := by
  simp [Number.text, text, textWith]

theorem shortest_digits_pos (hc : Canonical m e) (hm : 0 < m) : 0 < (shortest m e).digits := by
  have hpos := (shortest_roundsTo hc hm).pos hm
  rw [Decimal.value] at hpos
  have : (0 : ℚ) < (shortest m e).digits := pos_of_mul_pos_left hpos (by positivity)
  exact_mod_cast this

/-- **The doubles that are written with digits and a point alone** are zero and those whose shortest
decimals are from 0.0001 on and below 10^16. -/
theorem isPlain_iff (hc : Canonical m e) (hm : 0 < m) :
    (Number.double (finite false m e)).isPlain ↔
      10 ^ (-4 : Int) ≤ (shortest m e).value ∧ (shortest m e).value < 10 ^ (16 : Int) := by
  have hd := shortest_digits_pos hc hm
  rw [← Decimal.point_iff hd, Number.isPlain, toList_text, if_neg hm.ne', List.all_eq_true]
  constructor
  · intro hp
    by_contra hne
    rcases sign_mem_decimalText hne with hs | hs
    · exact absurd (hp _ hs) (by decide)
    · exact absurd (hp _ hs) (by decide)
  · rintro ⟨hlow, hhigh⟩ c hmem
    obtain ⟨whole, fraction, heq, hd⟩ := decimalText_eq hd hlow hhigh
    simp only [heq, List.mem_append, List.mem_cons] at hmem
    rcases hmem with hmem | rfl | hmem
    · simp [hd.isDigit c (List.mem_append_left _ hmem)]
    · decide
    · simp [hd.isDigit c (List.mem_append_right _ hmem)]

/-- **A double that is written with digits and a point alone is read from its text.** -/
theorem double_text (hc : Canonical m e) (hp : (Number.double (finite false m e)).isPlain) :
    ∃ whole fraction, (Number.double (finite false m e)).text.toList = whole ++ '.' :: fraction ∧
      whole ≠ [] ∧ fraction ≠ [] ∧ (∀ c ∈ whole ++ fraction, c.isDigit) ∧
      (Numeral.mk false whole (some fraction) none).double = finite false m e := by
  obtain rfl | hm := m.eq_zero_or_pos
  · obtain rfl : e = minExponent := hc.normal.resolve_right (by decide)
    exact ⟨['0'], ['0'], by rw [toList_text]; rfl, by simp, by simp, by simp, rfl⟩
  · have hdigits := shortest_digits_pos hc hm
    rw [isPlain_iff hc hm, ← Decimal.point_iff hdigits] at hp
    obtain ⟨whole, fraction, heq, hd⟩ := decimalText_eq hdigits hp.1 hp.2
    refine ⟨whole, fraction, by rw [toList_text, if_neg hm.ne', heq], hd.whole_ne_nil,
      hd.fraction_ne_nil, hd.isDigit, ofDecimal_of_roundsTo hc hm ?_⟩
    simp only [Option.getD_some, zero_sub]
    rw [hd.value]
    exact shortest_roundsTo hc hm

/-- A double that is written otherwise has an exponent. -/
theorem sign_mem_text (hc : Canonical m e)
    (hp : (Number.double (finite false m e)).isPlain = false) :
    '-' ∈ (Number.double (finite false m e)).text.toList ∨
      '+' ∈ (Number.double (finite false m e)).text.toList := by
  obtain rfl | hm := m.eq_zero_or_pos
  · rw [Number.isPlain, toList_text, if_pos rfl] at hp
    exact absurd hp (by decide)
  · rw [toList_text, if_neg hm.ne']
    refine sign_mem_decimalText ?_
    rw [Decimal.point_iff (shortest_digits_pos hc hm), ← isPlain_iff hc hm, hp]
    decide

end Double

theorem Number.isPlain_natCast (n : Nat) : (Number.int n).isPlain := by
  rw [isPlain, text, toList_toString (Int.natCast_nonneg n), List.all_eq_true]
  intro c hc
  simp [isDigit_toDigits hc]

/-! ## Characters of texts -/

namespace Double

variable {c : Char}

theorem mem_exponentText {n : Int} (h : c ∈ exponentText n) : c.isDigit ∨ c ∈ ['+', '-'] := by
  simp only [exponentText, List.mem_cons, List.mem_append, List.mem_replicate] at h
  rcases h with rfl | ⟨-, rfl⟩ | h
  · right
    split <;> simp
  · exact .inl rfl
  · exact .inl (isDigit_toDigits h)

theorem mem_decimalText {d : Decimal} (h : c ∈ decimalText d) :
    c.isDigit ∨ c ∈ ['.', 'e', '+', '-'] := by
  have hzero {n : Nat} (h : c ∈ List.replicate n '0') : c.isDigit := by
    rw [(List.mem_replicate.1 h).2]
    rfl
  have hds {c : Char} (h : c ∈ significant d) : c.isDigit := isDigit_significant h
  simp only [decimalText] at h
  split at h
  · split at h
    · simp only [List.mem_cons, List.mem_append] at h
      rcases h with rfl | rfl | h | h
      · exact .inl rfl
      · simp
      · exact .inl (hzero h)
      · exact .inl (hds h)
    · simp only [List.mem_cons, List.mem_append] at h
      rcases h with (h | h) | rfl | h
      · exact .inl (hds (List.mem_of_mem_take h))
      · exact .inl (hzero h)
      · simp
      · split at h
        · rw [List.mem_singleton.1 h]
          exact .inl rfl
        · exact .inl (hds (List.mem_of_mem_drop h))
  · simp only [List.mem_append, List.mem_cons] at h
    rcases h with h | rfl | h
    · split at h
      · rename_i first second more hs
        simp only [List.mem_cons] at h
        rcases h with rfl | rfl | h
        · exact .inl (hds (hs ▸ List.mem_cons_self))
        · simp
        · exact .inl (hds (hs ▸ List.mem_cons_of_mem _ (List.mem_cons.2 h)))
      · exact .inl (hds h)
    · simp
    · refine (mem_exponentText h).imp_right fun h => ?_
      exact List.mem_cons_of_mem _ (List.mem_cons_of_mem _ h)

end Double

namespace Number

/-- **The characters in which numbers are written**: digits, points, signs, and the letters of
exponents and of the words for what is no finite number. -/
theorem mem_text {n : Number} {c : Char} (h : c ∈ n.text.toList) :
    c.isDigit ∨ c ∈ ".+-einfa".toList := by
  cases n with
  | int n =>
    cases n with
    | ofNat n => exact .inl (isDigit_toDigits (toList_toString_ofNat n ▸ h))
    | negSucc n =>
      rw [text, toList_toString_negSucc, List.mem_cons] at h
      rcases h with rfl | h
      · simp
      · exact .inl (isDigit_toDigits h)
  | double x =>
    cases x with
    | finite negative m e =>
      have hpositive {c : Char}
          (h : c ∈ if m = 0 then ['0', '.', '0'] else Double.decimalText (Double.shortest m e)) :
          c.isDigit ∨ c ∈ ".+-einfa".toList := by
        split at h
        · have hall : ∀ c ∈ ['0', '.', '0'], c.isDigit ∨ c ∈ ".+-einfa".toList := by simp
          exact hall c h
        · refine (Double.mem_decimalText h).imp_right fun h => ?_
          have hall : ['.', 'e', '+', '-'] ⊆ ".+-einfa".toList := by decide
          exact hall h
      simp only [text, Double.text, Double.textWith, String.toList_ofList] at h
      split at h
      · rcases List.mem_cons.1 h with rfl | h
        · simp
        · exact hpositive h
      · exact hpositive h
    | infinite negative =>
      have hall : ∀ negative, (double (.infinite negative)).text.toList ⊆ ".+-einfa".toList := by
        decide
      exact .inr (hall negative h)
    | nan =>
      have hall : (double .nan).text.toList ⊆ ".+-einfa".toList := by decide
      exact .inr (hall h)

end Number

end FlowScript
