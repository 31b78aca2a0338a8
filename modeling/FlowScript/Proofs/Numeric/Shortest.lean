import FlowScript.Numeric.Shortest
import FlowScript.Proofs.Numeric.Rounding

/-!
# Decimals that read back

The shortest decimal of a double is in the double's interval, so that rounding it gives the double
again. Seventeen digits are always enough: two decimals with so many digits are so close together
that the one nearest to the double is well inside the interval.

## Main definitions

* `Decimal.value`: the number that a decimal denotes.

## Main statements

* `Double.readsBack_iff`: the decimals that read back are those in the interval.
* `Double.shortest_roundsTo`: the shortest decimal of a double is in its interval.
* `Double.ofDecimal_of_roundsTo`: decimals are rounded to the double in whose interval they lie.
-/
namespace FlowScript

attribute [local instance (high)] instPowNat

/-- The number that a decimal denotes. -/
def Decimal.value (d : Decimal) : ℚ :=
  d.digits * 10 ^ d.power

namespace Double

variable {m : Nat} {e : Int} {r : ℚ}

/-! ## Powers of two and of ten -/

theorem ten_pow_le_two_pow {a b : Nat} (h : 196 * a ≤ 59 * b) : 10 ^ a ≤ 2 ^ b := by
  refine (Nat.pow_le_pow_iff_left (n := 59) (by decide)).1 ?_
  calc (10 ^ a) ^ 59 = (10 ^ 59) ^ a := by rw [← Nat.pow_mul, ← Nat.pow_mul, Nat.mul_comm]
    _ ≤ (2 ^ 196) ^ a := Nat.pow_le_pow_left (by decide) a
    _ = 2 ^ (196 * a) := by rw [Nat.pow_mul]
    _ ≤ 2 ^ (59 * b) := Nat.pow_le_pow_right (by decide) h
    _ = (2 ^ b) ^ 59 := by rw [← Nat.pow_mul, Nat.mul_comm]

theorem two_pow_le_ten_pow {a b : Nat} (h : 28 * b ≤ 93 * a) : 2 ^ b ≤ 10 ^ a := by
  refine (Nat.pow_le_pow_iff_left (n := 28) (by decide)).1 ?_
  calc (2 ^ b) ^ 28 = 2 ^ (28 * b) := by rw [← Nat.pow_mul, Nat.mul_comm]
    _ ≤ 2 ^ (93 * a) := Nat.pow_le_pow_right (by decide) h
    _ = (2 ^ 93) ^ a := by rw [Nat.pow_mul]
    _ ≤ (10 ^ 28) ^ a := Nat.pow_le_pow_left (by decide) a
    _ = (10 ^ a) ^ 28 := by rw [← Nat.pow_mul, ← Nat.pow_mul, Nat.mul_comm]

/-! ## Comparing decimals with doubles -/

theorem compareScaled_eq (a : Nat) (ten : Int) (b : Nat) (two : Int) :
    compareScaled a ten b two = compare ((a : ℚ) * 10 ^ ten) (b * 2 ^ two) := by
  have hp : (0 : ℚ) < (10 ^ (-ten).toNat : Nat) := by positivity
  have hq : (0 : ℚ) < (2 ^ (-two).toNat : Nat) := by positivity
  rw [ten_zpow_eq_div, two_zpow_eq_div, mul_div_assoc', mul_div_assoc', compareScaled]
  rcases lt_trichotomy (a * 10 ^ ten.toNat * 2 ^ (-two).toNat)
    (b * 2 ^ two.toNat * 10 ^ (-ten).toNat) with h | h | h
  · rw [compare_lt_iff_lt.2 h, eq_comm, compare_lt_iff_lt, div_lt_div_iff₀ hp hq]
    exact_mod_cast h
  · rw [compare_eq_iff_eq.2 h, eq_comm, compare_eq_iff_eq, div_eq_div_iff hp.ne' hq.ne']
    exact_mod_cast h
  · rw [compare_gt_iff_gt.2 h, eq_comm, compare_gt_iff_gt, div_lt_div_iff₀ hq hp]
    exact_mod_cast h

/-- **The decimals that read back as a double are those in its interval.** -/
theorem readsBack_iff (hm : 0 < m) {d : Decimal} :
    readsBack m e d ↔ RoundsTo d.value m e := by
  have hq : (2 : ℚ) ^ (e - 2) = 2 ^ e / 4 := by
    rw [zpow_sub₀ (by norm_num)]
    norm_num
  have hlow : ((if m = 2 ^ 52 ∧ minExponent < e then 4 * m - 1 else 4 * m - 2 : Nat) : ℚ) *
      2 ^ (e - 2) = (m - gapBelow m e) * 2 ^ e := by
    rw [hq, gapBelow]
    split
    · rw [Nat.cast_sub (by omega)]
      push_cast
      ring
    · rw [Nat.cast_sub (by omega)]
      push_cast
      ring
  have hhigh : ((4 * m + 2 : Nat) : ℚ) * 2 ^ (e - 2) = (m + 1 / 2) * 2 ^ e := by
    rw [hq]
    push_cast
    ring
  simp only [readsBack, compareScaled_eq, hlow, hhigh, Decimal.value, Bool.and_eq_true,
    Bool.or_eq_true, beq_iff_eq, compare_gt_iff_gt, compare_eq_iff_eq, compare_lt_iff_lt]
  constructor
  · rintro ⟨hl, hh⟩
    exact ⟨hl.imp_right fun h => ⟨h.1.symm, h.2⟩, hh⟩
  · rintro ⟨hl, hh⟩
    exact ⟨hl.imp_right fun h => ⟨h.1.symm, h.2⟩, hh⟩

/-! ## Enough digits -/

theorem ten_zpow_le_two_zpow {s : Int} (hlow : -1074 ≤ s) (hhigh : s ≤ 1023) :
    (10 : ℚ) ^ (s * 30103 / 100000 - 1) ≤ 2 ^ s := by
  obtain ⟨b, rfl | rfl⟩ := s.eq_nat_or_neg
  · obtain ⟨a, ha | ha⟩ := ((b : Int) * 30103 / 100000 - 1).eq_nat_or_neg
    · rw [ha, zpow_natCast, zpow_natCast]
      exact_mod_cast ten_pow_le_two_pow (by omega)
    · rw [ha, zpow_natCast, zpow_neg, zpow_natCast]
      refine le_trans (inv_le_one_of_one_le₀ ?_) ?_
      · exact one_le_pow₀ (by norm_num)
      · exact one_le_pow₀ (by norm_num)
  · obtain ⟨a, ha⟩ : ∃ a : Nat, -(b : Int) * 30103 / 100000 - 1 = -(a : Int) :=
      ⟨(1 - -(b : Int) * 30103 / 100000).toNat, by omega⟩
    rw [ha, zpow_neg, zpow_neg, zpow_natCast, zpow_natCast]
    refine inv_anti₀ (by positivity) ?_
    exact_mod_cast two_pow_le_ten_pow (by omega)

theorem zpow_log2_le (hm : m ≠ 0) : (2 : ℚ) ^ ((m.log2 : Int) + e) ≤ m * 2 ^ e := by
  rw [two_zpow_add]
  refine mul_le_mul_of_nonneg_right ?_ (by positivity)
  exact_mod_cast Nat.log2_self_le hm

/-- The leading power of ten of a double is not too large. -/
theorem leadingPower_le (hc : Canonical m e) (hm : m ≠ 0) :
    (10 : ℚ) ^ leadingPower m e ≤ m * 2 ^ e := by
  have hlog : m.log2 < 53 := (Nat.log2_lt hm).2 hc.lt
  have hleast := hc.least
  have hmost := hc.most
  simp only [minExponent, maxExponent] at hleast hmost
  have hguess : (10 : ℚ) ^ (Int.fdiv (((m.log2 : Int) + e) * 30103) 100000 - 1) ≤ m * 2 ^ e := by
    rw [Int.fdiv_eq_ediv_of_nonneg _ (by decide)]
    exact (ten_zpow_le_two_zpow (by omega) (by omega)).trans (zpow_log2_le hm)
  unfold leadingPower
  generalize Int.fdiv (((m.log2 : Int) + e) * 30103) 100000 = guess at hguess
  cases hf : [guess + 1, guess, guess - 1].find? (fun k => compareScaled 1 k m e != .gt) with
  | none => simpa [hf] using hguess
  | some k =>
    have hk := List.find?_some hf
    simp only [compareScaled_eq, bne_iff_ne, ne_eq, compare_gt_iff_gt, not_lt, Nat.cast_one,
      one_mul] at hk
    simpa [hf] using hk

/-- Of two decimals with seventeen digits that are next to each other, the one that is nearer to a
double is well inside its interval. -/
theorem margin_lt (hc : Canonical m e) : (m : ℚ) / 10 ^ 16 / 2 < gapBelow m e := by
  unfold gapBelow
  split
  · rename_i h
    rw [h.1]
    norm_num
  · have : (m : ℚ) < 2 ^ 53 := by exact_mod_cast hc.lt
    linarith

theorem of_nearestOnGrid? {power : Int} {d : Decimal} (hm : 0 < m)
    (h : nearestOnGrid? m e power = some d) : RoundsTo d.value m e :=
  (readsBack_iff hm).1 (List.find?_some h)

/-- A double divided by a power of ten, as the quotient that is rounded. -/
theorem grid_div (m : Nat) (e power : Int) :
    ((m * 2 ^ e.toNat * 10 ^ (-power).toNat : Nat) : ℚ) /
      (2 ^ (-e).toNat * 10 ^ power.toNat : Nat) = m * 2 ^ e / 10 ^ power := by
  have htwo : ((2 ^ (-e).toNat : Nat) : ℚ) ≠ 0 := by positivity
  have hten : ((10 ^ power.toNat : Nat) : ℚ) ≠ 0 := by positivity
  have hten' : ((10 ^ (-power).toNat : Nat) : ℚ) ≠ 0 := by positivity
  rw [two_zpow_eq_div, ten_zpow_eq_div, Nat.cast_mul, Nat.cast_mul, Nat.cast_mul]
  field_simp

/-- The decimal with a power of ten that is nearest to a double. -/
def nearest (m : Nat) (e power : Int) : Decimal :=
  ⟨roundHalfEven (m * 2 ^ e.toNat * 10 ^ (-power).toNat) (2 ^ (-e).toNat * 10 ^ power.toNat), power⟩

/-- It is at most half a power away. -/
theorem abs_nearest_sub_le (m : Nat) (e power : Int) :
    |(nearest m e power).value - m * 2 ^ e| ≤ 10 ^ power / 2 := by
  have hp : (0 : ℚ) < 10 ^ power := by positivity
  have hden : 0 < 2 ^ (-e).toNat * 10 ^ power.toNat := by positivity
  have hnear := abs_roundHalfEven_sub_le (m * 2 ^ e.toNat * 10 ^ (-power).toNat) hden
  rw [grid_div] at hnear
  change |((nearest m e power).digits : ℚ) - m * 2 ^ e / 10 ^ power| ≤ 1 / 2 at hnear
  have hsub : (nearest m e power).value - m * 2 ^ e =
      ((nearest m e power).digits - m * 2 ^ e / 10 ^ power) * 10 ^ power := by
    rw [sub_mul, div_mul_cancel₀ _ hp.ne']
    rfl
  calc |(nearest m e power).value - m * 2 ^ e|
      = |((nearest m e power).digits : ℚ) - m * 2 ^ e / 10 ^ power| * 10 ^ power := by
        rw [hsub, abs_mul, abs_of_pos hp]
    _ ≤ 1 / 2 * 10 ^ power := mul_le_mul_of_nonneg_right hnear hp.le
    _ = 10 ^ power / 2 := by ring

/-- Decimals that are nearer to a double than the halfway points are in its interval. -/
theorem RoundsTo.of_abs_sub_lt (h : |r - m * 2 ^ e| < gapBelow m e * 2 ^ e) : RoundsTo r m e := by
  have hgap := mul_le_mul_of_nonneg_right (gapBelow_le m e) (show (0 : ℚ) ≤ 2 ^ e by positivity)
  obtain ⟨hlow, hhigh⟩ := abs_lt.1 h
  refine ⟨.inl ?_, .inl ?_⟩
  · rw [sub_mul]
    linarith
  · rw [add_mul]
    linarith

/-- The decimal that is nearest to a double reads back if it has seventeen digits. -/
theorem nearestOnGrid?_ne_none (hc : Canonical m e) (hm : 0 < m) :
    nearestOnGrid? m e (leadingPower m e - 16) ≠ none := by
  have hgrid : (10 : ℚ) ^ (leadingPower m e - 16) = 10 ^ leadingPower m e / 10 ^ 16 := by
    rw [zpow_sub₀ (by norm_num)]
    norm_num
  have hmargin : (10 : ℚ) ^ (leadingPower m e - 16) / 2 < gapBelow m e * 2 ^ e := by
    have hlead := leadingPower_le hc hm.ne'
    have hgap := mul_lt_mul_of_pos_right (margin_lt hc) (show (0 : ℚ) < 2 ^ e by positivity)
    rw [hgrid]
    linarith
  have hreads : readsBack m e (nearest m e (leadingPower m e - 16)) :=
    (readsBack_iff hm).2 (.of_abs_sub_lt ((abs_nearest_sub_le m e _).trans_lt hmargin))
  intro hnone
  simp only [nearestOnGrid?, List.map_cons, List.find?_eq_none, List.mem_cons] at hnone
  exact hnone _ (.inl rfl) hreads

/-- **The shortest decimal of a double is in its interval.** -/
theorem shortest_roundsTo (hc : Canonical m e) (hm : 0 < m) :
    RoundsTo (shortest m e).value m e := by
  unfold shortest
  simp only
  cases hf : (List.range 17).findSome?
      (fun n : Nat => nearestOnGrid? m e (leadingPower m e - n)) with
  | none =>
    rw [List.findSome?_eq_none_iff] at hf
    exact absurd (hf 16 (by decide)) (nearestOnGrid?_ne_none hc hm)
  | some d =>
    obtain ⟨n, -, hn⟩ := List.exists_of_findSome?_eq_some hf
    exact of_nearestOnGrid? hm hn

/-! ## Rounding decimals -/

variable {negative : Bool}

theorem RoundsTo.pos (h : RoundsTo r m e) (hm : 0 < m) : 0 < r := by
  refine lt_of_lt_of_le ?_ h.low_le
  have hgap := gapBelow_le m e
  have : (1 : ℚ) ≤ m := by exact_mod_cast hm
  have : (0 : ℚ) < m - gapBelow m e := by linarith
  positivity

/-- Doubles are below the power of ten from which on decimals are infinite. -/
theorem RoundsTo.lt_ten_pow (hc : Canonical m e) (h : RoundsTo r m e) : r < 10 ^ 310 := by
  have hmost := hc.most
  simp only [maxExponent] at hmost
  calc r < 2 ^ ((53 : Nat) + e : Int) := h.lt_zpow hc.lt
    _ ≤ 2 ^ (1024 : Int) := zpow_le_zpow_right₀ (by norm_num) (by omega)
    _ = ((2 ^ 1024 : Nat) : ℚ) := by rw [Nat.cast_pow, ← zpow_natCast]; rfl
    _ ≤ ((10 ^ 310 : Nat) : ℚ) := by exact_mod_cast two_pow_le_ten_pow (by decide)
    _ = 10 ^ 310 := by rw [Nat.cast_pow]; rfl

/-- Doubles are above the power of ten below which decimals are zero. -/
theorem RoundsTo.ten_zpow_le (hc : Canonical m e) (hm : 0 < m) (h : RoundsTo r m e) :
    10 ^ (-326 : Int) ≤ r := by
  have hleast := hc.least
  simp only [minExponent] at hleast
  have hgap := gapBelow_le m e
  have hm' : (1 : ℚ) ≤ m := by exact_mod_cast hm
  calc (10 : ℚ) ^ (-326 : Int) = ((10 ^ 326 : Nat) : ℚ)⁻¹ := by
        rw [zpow_neg, Nat.cast_pow, ← zpow_natCast]; rfl
    _ ≤ ((2 ^ 1075 : Nat) : ℚ)⁻¹ :=
        inv_anti₀ (by positivity) (by exact_mod_cast two_pow_le_ten_pow (by decide))
    _ = 2 ^ (-1075 : Int) := by rw [zpow_neg, Nat.cast_pow, ← zpow_natCast]; rfl
    _ ≤ 2 ^ (-1 + e) := zpow_le_zpow_right₀ (by norm_num) (by omega)
    _ = 1 / 2 * 2 ^ e := by rw [zpow_add₀ (by norm_num)]; norm_num
    _ ≤ (m - gapBelow m e) * 2 ^ e := mul_le_mul_of_nonneg_right (by linarith) (by positivity)
    _ ≤ r := h.low_le

theorem mul_ten_zpow (n : Nat) (power : Int) :
    ((10 ^ n : Nat) : ℚ) * 10 ^ power = 10 ^ ((n : Int) + power) := by
  rw [zpow_add₀ (by norm_num), zpow_natCast, Nat.cast_pow, Nat.cast_ofNat]

variable {digits : Nat} {power : Int}

/-- Decimals that are taken to be infinite are that large. -/
theorem power_le_of_lt (hdigits : digits ≠ 0) (h : (digits * 10 ^ power : ℚ) < 10 ^ 310) :
    power + (digits.log2 * 3 / 10 : Nat) ≤ 309 := by
  by_contra hlt
  have hlog : ((10 ^ (digits.log2 * 3 / 10) : Nat) : ℚ) ≤ digits := by
    exact_mod_cast (ten_pow_le_two_pow (by omega)).trans (Nat.log2_self_le hdigits)
  refine absurd h (not_lt.2 ?_)
  calc (10 : ℚ) ^ 310 = 10 ^ ((310 : Nat) : Int) := by rw [zpow_natCast]
    _ ≤ 10 ^ ((digits.log2 * 3 / 10 : Nat) + power) :=
      zpow_le_zpow_right₀ (by norm_num) (by omega)
    _ = ((10 ^ (digits.log2 * 3 / 10) : Nat) : ℚ) * 10 ^ power := (mul_ten_zpow _ _).symm
    _ ≤ digits * 10 ^ power := mul_le_mul_of_nonneg_right hlog (by positivity)

/-- Decimals that are taken to be zero are that small. -/
theorem le_power_of_le (h : (10 ^ (-326 : Int) : ℚ) ≤ digits * 10 ^ power) :
    -325 ≤ power + (digits.log2 * 4 / 13 + 2 : Nat) := by
  by_contra hlt
  have hlog : (digits : ℚ) < (10 ^ (digits.log2 * 4 / 13 + 2) : Nat) := by
    exact_mod_cast Nat.lt_log2_self.trans_le (two_pow_le_ten_pow (by omega))
  refine absurd h (not_le.2 ?_)
  calc (digits : ℚ) * 10 ^ power
      < ((10 ^ (digits.log2 * 4 / 13 + 2) : Nat) : ℚ) * 10 ^ power :=
      mul_lt_mul_of_pos_right hlog (by positivity)
    _ = 10 ^ ((digits.log2 * 4 / 13 + 2 : Nat) + power) := mul_ten_zpow _ _
    _ ≤ 10 ^ (-326 : Int) := zpow_le_zpow_right₀ (by norm_num) (by omega)

/-- **Decimals are rounded to the double in whose interval they lie.** -/
theorem ofDecimal_of_roundsTo (hc : Canonical m e) (hm : 0 < m)
    (h : RoundsTo (digits * 10 ^ power) m e) :
    ofDecimal negative digits power = finite negative m e := by
  have hdigits : 0 < digits := by
    have : (0 : ℚ) < digits := pos_of_mul_pos_left (h.pos hm) (by positivity)
    exact_mod_cast this
  have hlarge := power_le_of_lt hdigits.ne' (h.lt_ten_pow hc)
  have hsmall := le_power_of_le (h.ten_zpow_le hc hm)
  rw [ofDecimal, if_neg hdigits.ne', if_neg (not_lt.2 hlarge), if_neg (not_lt.2 hsmall)]
  refine ofRatio_of_roundsTo (Nat.mul_pos hdigits (by positivity)) (by positivity) hc ?_
  rwa [Nat.cast_mul, mul_div_assoc, ← ten_zpow_eq_div]

/-- A decimal is rounded to a double, unless it is too large. -/
theorem ofDecimal_cases (negative : Bool) (digits : Nat) (power : Int) :
    ofDecimal negative digits power = infinite negative ∨
      ∃ m e, Canonical m e ∧ ofDecimal negative digits power = finite negative m e := by
  have hzero : ∃ m e, Canonical m e ∧ zero negative = finite negative m e :=
    ⟨0, minExponent, canonical_zero, rfl⟩
  simp only [ofDecimal]
  split
  · exact .inr hzero
  · split
    · exact .inl rfl
    · split
      · exact .inr hzero
      · exact ofRatio_cases negative _ (by positivity)

end Double
end FlowScript
