import FlowScript.Numeric.Double
import Mathlib.Algebra.Order.Field.Power
import Mathlib.Data.Rat.Cast.Order
import Mathlib.Tactic.FieldSimp
import Mathlib.Tactic.Linarith
import Mathlib.Tactic.NormNum
import Mathlib.Tactic.Positivity
import Mathlib.Tactic.Ring

/-!
# Rounding to doubles

A positive rational number is rounded to the double in whose interval it lies: between the halfway
points to the two neighbours, which belong to the interval if the mantissa is even. Below the least
mantissa of its size the neighbour is only half as far away.

## Main definitions

* `Double.Canonical`: the mantissas and exponents of doubles.
* `Double.RoundsTo`: the numbers that are rounded to a double.

## Main statements

* `Double.ofRatio_of_roundsTo`: quotients are rounded to the double in whose interval they lie.
* `Double.ofRatio_cases`: what a quotient is rounded to is canonical or infinite.
-/
namespace FlowScript

attribute [local instance (high)] instPowNat

/-! ## Rounding to natural numbers -/

/-- A quotient is rounded to the number that it is nearest to. -/
theorem roundHalfEven_eq {num den n : Nat} (hden : 0 < den)
    (hlow : 2 * n * den < 2 * num + den ∨ 2 * n * den = 2 * num + den ∧ n % 2 = 0)
    (hhigh : 2 * num < (2 * n + 1) * den ∨ 2 * num = (2 * n + 1) * den ∧ n % 2 = 0) :
    roundHalfEven num den = n := by
  have hdiv := Nat.div_add_mod num den
  have hmod := Nat.mod_lt num hden
  simp only [roundHalfEven]
  generalize num / den = q at *
  generalize num % den = r at *
  subst hdiv
  have hle : n < q + 2 := by
    have : n * den < (q + 2) * den := by
      rcases hlow with h | ⟨h, -⟩ <;> nlinarith
    exact Nat.lt_of_mul_lt_mul_right this
  have hge : q < n + 1 := by
    have : q * den < (n + 1) * den := by
      rcases hhigh with h | ⟨h, -⟩ <;> nlinarith
    exact Nat.lt_of_mul_lt_mul_right this
  obtain rfl | rfl : n = q ∨ n = q + 1 := by omega
  · have htwice : (2 * n + 1) * den = 2 * (den * n) + den := by ring
    rw [htwice] at hhigh
    generalize den * n = x at *
    grind
  · have htwice : 2 * (q + 1) * den = 2 * (den * q) + 2 * den := by ring
    rw [htwice] at hlow
    generalize den * q = x at *
    grind

/-- The same, for the quotient as a rational number. -/
theorem roundHalfEven_of_rat {num den n : Nat} (hden : 0 < den)
    (hlow : (n : ℚ) - 1 / 2 < num / den ∨ (n : ℚ) - 1 / 2 = num / den ∧ n % 2 = 0)
    (hhigh : (num / den : ℚ) < n + 1 / 2 ∨ (num / den : ℚ) = n + 1 / 2 ∧ n % 2 = 0) :
    roundHalfEven num den = n := by
  have hd : (0 : ℚ) < den := by positivity
  refine roundHalfEven_eq hden ?_ ?_
  · rw [lt_div_iff₀ hd, eq_div_iff hd.ne'] at hlow
    refine hlow.imp (fun h => ?_) fun ⟨h, he⟩ => ⟨?_, he⟩
    · have : (2 * n * den : ℚ) < 2 * num + den := by linarith
      exact_mod_cast this
    · have : (2 * n * den : ℚ) = 2 * num + den := by linarith
      exact_mod_cast this
  · rw [div_lt_iff₀ hd, div_eq_iff hd.ne'] at hhigh
    refine hhigh.imp (fun h => ?_) fun ⟨h, he⟩ => ⟨?_, he⟩
    · have : (2 * num : ℚ) < (2 * n + 1) * den := by linarith
      exact_mod_cast this
    · have : (2 * num : ℚ) = (2 * n + 1) * den := by linarith
      exact_mod_cast this

theorem le_roundHalfEven {num den n : Nat} (hden : 0 < den) (h : n * den ≤ num) :
    n ≤ roundHalfEven num den := by
  have hq : n ≤ num / den := (Nat.le_div_iff_mul_le hden).2 h
  simp only [roundHalfEven]
  grind

theorem roundHalfEven_le {num den n : Nat} (hden : 0 < den) (h : num ≤ n * den) :
    roundHalfEven num den ≤ n := by
  have hdiv := Nat.div_add_mod num den
  have hmod := Nat.mod_lt num hden
  have hq : num / den ≤ n := Nat.div_le_of_le_mul (by rwa [Nat.mul_comm])
  simp only [roundHalfEven]
  obtain hlt | heq := Nat.lt_or_eq_of_le hq
  · grind
  · -- the quotient is exact
    have hrem : num % den = 0 := by
      rw [heq, Nat.mul_comm] at hdiv
      omega
    simp [heq, hrem, hden]

/-- A quotient is rounded by at most one half. -/
theorem abs_roundHalfEven_sub_le (num : Nat) {den : Nat} (hden : 0 < den) :
    |(roundHalfEven num den : ℚ) - num / den| ≤ 1 / 2 := by
  have hd : (0 : ℚ) < den := by positivity
  have hdiv := Nat.div_add_mod num den
  have hmod := Nat.mod_lt num hden
  have hnear : 2 * num ≤ (2 * roundHalfEven num den + 1) * den ∧
      2 * roundHalfEven num den * den ≤ 2 * num + den := by
    simp only [roundHalfEven]
    generalize num / den = q at *
    generalize num % den = t at *
    subst hdiv
    split
    · constructor <;> nlinarith
    · split
      · constructor <;> nlinarith
      · split <;> constructor <;> nlinarith
  have hhigh : (2 * num : ℚ) ≤ (2 * roundHalfEven num den + 1) * den := by exact_mod_cast hnear.1
  have hlow : (2 * roundHalfEven num den * den : ℚ) ≤ 2 * num + den := by exact_mod_cast hnear.2
  rw [abs_le, le_sub_iff_add_le, sub_le_iff_le_add, ← sub_eq_neg_add]
  constructor
  · rw [sub_le_iff_le_add, div_le_iff₀ hd]
    linarith
  · rw [← sub_le_iff_le_add', le_div_iff₀ hd]
    linarith

namespace Double

/-! ## Powers -/

/-- A power with a whole exponent is a quotient of powers of which one is trivial. -/
theorem zpow_eq_div (a : Nat) (ha : 0 < a) (k : Int) :
    (a : ℚ) ^ k = (a ^ k.toNat : Nat) / (a ^ (-k).toNat : Nat) := by
  have hne : (a : ℚ) ≠ 0 := by positivity
  obtain ⟨n, rfl | rfl⟩ := k.eq_nat_or_neg
  · simp
  · simp

theorem two_zpow_eq_div (k : Int) :
    (2 : ℚ) ^ k = (2 ^ k.toNat : Nat) / (2 ^ (-k).toNat : Nat) :=
  zpow_eq_div 2 (by decide) k

theorem ten_zpow_eq_div (k : Int) :
    (10 : ℚ) ^ k = (10 ^ k.toNat : Nat) / (10 ^ (-k).toNat : Nat) :=
  zpow_eq_div 10 (by decide) k

theorem twoPowLe_iff {k : Int} {num den : Nat} (hden : 0 < den) :
    twoPowLe k num den ↔ (2 : ℚ) ^ k ≤ num / den := by
  have hd : (0 : ℚ) < den := by positivity
  have hp : (0 : ℚ) < (2 ^ (-k).toNat : Nat) := by positivity
  rw [two_zpow_eq_div, div_le_div_iff₀ hp hd, twoPowLe, decide_eq_true_eq]
  norm_cast
  rw [Nat.mul_comm]

/-- A quotient divided by a power of two. -/
theorem scaled_div {num den : Nat} (hden : 0 < den) (e : Int) :
    ((num * 2 ^ (-e).toNat : Nat) : ℚ) / (den * 2 ^ e.toNat : Nat) = num / den / 2 ^ e := by
  have hd : (den : ℚ) ≠ 0 := by positivity
  have hp : ((2 ^ (-e).toNat : Nat) : ℚ) ≠ 0 := by positivity
  have hq : ((2 ^ e.toNat : Nat) : ℚ) ≠ 0 := by positivity
  rw [two_zpow_eq_div, Nat.cast_mul, Nat.cast_mul]
  field_simp

/-- The largest exponent of two whose power is at most a quotient. -/
def leadingBit (num den : Nat) : Int :=
  let k : Int := (num.log2 : Int) - (den.log2 : Int)
  if twoPowLe k num den then k else k - 1

theorem leadingBit_spec {num den : Nat} (hnum : 0 < num) (hden : 0 < den) :
    (2 : ℚ) ^ leadingBit num den ≤ num / den ∧
      (num / den : ℚ) < (2 : ℚ) ^ (leadingBit num den + 1) := by
  have hd : (0 : ℚ) < den := by positivity
  have htwo : (2 : ℚ) ≠ 0 := by norm_num
  have hnlow : (2 : ℚ) ^ (num.log2 : Int) ≤ num := by
    rw [zpow_natCast]
    exact_mod_cast Nat.log2_self_le hnum.ne'
  have hnhigh : (num : ℚ) < (2 : ℚ) ^ ((num.log2 : Int) + 1) := by
    rw [← Nat.cast_succ, zpow_natCast]
    exact_mod_cast Nat.lt_log2_self
  have hdlow : (2 : ℚ) ^ (den.log2 : Int) ≤ den := by
    rw [zpow_natCast]
    exact_mod_cast Nat.log2_self_le hden.ne'
  have hdhigh : (den : ℚ) < (2 : ℚ) ^ ((den.log2 : Int) + 1) := by
    rw [← Nat.cast_succ, zpow_natCast]
    exact_mod_cast Nat.lt_log2_self
  have hbelow : (2 : ℚ) ^ ((num.log2 : Int) - den.log2 - 1) ≤ num / den := by
    rw [le_div_iff₀ hd]
    refine le_trans (mul_le_mul_of_nonneg_left hdhigh.le (by positivity)) ?_
    rw [← zpow_add₀ htwo]
    refine le_trans (le_of_eq ?_) hnlow
    congr 1
    ring
  have habove : (num / den : ℚ) < (2 : ℚ) ^ ((num.log2 : Int) - den.log2 + 1) := by
    rw [div_lt_iff₀ hd]
    refine lt_of_lt_of_le hnhigh (le_trans (le_of_eq ?_)
      (mul_le_mul_of_nonneg_left hdlow (by positivity)))
    rw [← zpow_add₀ htwo]
    congr 1
    ring
  by_cases h : twoPowLe ((num.log2 : Int) - den.log2) num den
  · rw [leadingBit, if_pos h]
    exact ⟨(twoPowLe_iff hden).1 h, habove⟩
  · rw [leadingBit, if_neg h, sub_add_cancel]
    rw [twoPowLe_iff hden, not_le] at h
    exact ⟨hbelow, h⟩

/-! ## Intervals -/

/-- The mantissas and exponents of doubles. -/
structure Canonical (m : Nat) (e : Int) : Prop where
  lt : m < 2 ^ 53
  least : minExponent ≤ e
  most : e ≤ maxExponent
  normal : e = minExponent ∨ 2 ^ 52 ≤ m

/-- How far the halfway point below a double is from it, in units of its exponent. -/
def gapBelow (m : Nat) (e : Int) : ℚ :=
  if m = 2 ^ 52 ∧ minExponent < e then 1 / 4 else 1 / 2

/-- The numbers in the interval of a double. -/
structure RoundsTo (r : ℚ) (m : Nat) (e : Int) : Prop where
  low : (m - gapBelow m e) * 2 ^ e < r ∨ (m - gapBelow m e) * 2 ^ e = r ∧ m % 2 = 0
  high : r < (m + 1 / 2) * 2 ^ e ∨ r = (m + 1 / 2) * 2 ^ e ∧ m % 2 = 0

theorem gapBelow_le (m : Nat) (e : Int) : gapBelow m e ≤ 1 / 2 := by
  unfold gapBelow
  split <;> norm_num

variable {r : ℚ} {m : Nat} {e : Int}

theorem RoundsTo.low_le (h : RoundsTo r m e) : (m - gapBelow m e) * 2 ^ e ≤ r :=
  h.low.elim le_of_lt fun h => le_of_eq h.1

theorem RoundsTo.le_high (h : RoundsTo r m e) : r ≤ (m + 1 / 2) * 2 ^ e :=
  h.high.elim le_of_lt fun h => le_of_eq h.1

/-! ## Rounding to doubles -/

/-- The exponent with which a quotient is rounded. -/
def roundingExponent (num den : Nat) : Int :=
  max (leadingBit num den - 52) minExponent

/-- The mantissa to which a quotient is rounded. -/
def roundingMantissa (num den : Nat) : Nat :=
  roundHalfEven (num * 2 ^ (-roundingExponent num den).toNat)
    (den * 2 ^ (roundingExponent num den).toNat)

variable {num den : Nat} {negative : Bool}

/-- A quotient is rounded to a multiple of a power of two; if the multiple has one bit too many, it
is written with the next power. -/
theorem ofRatio_eq (hnum : 0 < num) : ofRatio negative num den =
    if roundingMantissa num den = 2 ^ 53 then
      if maxExponent < roundingExponent num den + 1 then infinite negative
      else finite negative (2 ^ 52) (roundingExponent num den + 1)
    else if maxExponent < roundingExponent num den then infinite negative
    else finite negative (roundingMantissa num den) (roundingExponent num den) := by
  have hif : ofRatio negative num den =
      let p := if roundingMantissa num den = 2 ^ 53
        then ((2 ^ 52 : Nat), roundingExponent num den + 1)
        else (roundingMantissa num den, roundingExponent num den)
      if maxExponent < p.2 then infinite negative else finite negative p.1 p.2 := by
    unfold ofRatio
    rw [if_neg hnum.ne']
    rfl
  rw [hif]
  split <;> rfl

/-- Rounding compares the quotient, divided by a power of two, with the neighbours. -/
theorem roundingMantissa_eq (hden : 0 < den) {n : Nat} {e : Int}
    (he : roundingExponent num den = e)
    (hlow : (n : ℚ) - 1 / 2 < num / den / 2 ^ e ∨ (n : ℚ) - 1 / 2 = num / den / 2 ^ e ∧ n % 2 = 0)
    (hhigh : (num / den / 2 ^ e : ℚ) < n + 1 / 2 ∨
      (num / den / 2 ^ e : ℚ) = n + 1 / 2 ∧ n % 2 = 0) :
    roundingMantissa num den = n := by
  rw [roundingMantissa, he]
  refine roundHalfEven_of_rat (Nat.mul_pos hden (by positivity)) ?_ ?_
  · rwa [scaled_div hden]
  · rwa [scaled_div hden]

theorem zpow_lt_of_le_of_lt {j k : Int} (h : (2 : ℚ) ^ j ≤ r) (h' : r < 2 ^ k) : j < k :=
  (zpow_lt_zpow_iff_right₀ (by norm_num)).1 (h.trans_lt h')

theorem two_zpow_add (n : Nat) (e : Int) : (2 : ℚ) ^ ((n : Int) + e) = 2 ^ n * 2 ^ e := by
  rw [zpow_add₀ (by norm_num), zpow_natCast]

/-- The numbers in the interval of a double are below the next power of two. -/
theorem RoundsTo.lt_zpow (h : RoundsTo r m e) (hm : m < 2 ^ 53) :
    r < 2 ^ ((53 : Nat) + e : Int) := by
  have hp : (0 : ℚ) < 2 ^ e := by positivity
  have hm' : (m : ℚ) + 1 ≤ 2 ^ 53 := by exact_mod_cast hm
  rw [two_zpow_add]
  refine h.le_high.trans_lt (mul_lt_mul_of_pos_right ?_ hp)
  linarith

/-- The double of a number that is below the power of two of its size is this power. -/
theorem RoundsTo.eq_of_lt (h : RoundsTo r m e) (hm : 2 ^ 52 ≤ m)
    (hr : r < 2 ^ ((52 : Nat) + e : Int)) : m = 2 ^ 52 := by
  have hp : (0 : ℚ) < 2 ^ e := by positivity
  rw [two_zpow_add] at hr
  have hlt : (m : ℚ) - gapBelow m e < 2 ^ 52 := lt_of_mul_lt_mul_right (h.low_le.trans_lt hr) hp.le
  have hgap := gapBelow_le m e
  have hsucc : (m : ℚ) < (2 ^ 52 + 1 : Nat) := by
    push_cast
    linarith
  have := Nat.cast_lt.1 hsucc
  omega

/-- A quotient with as many bits as the double in whose interval it lies. -/
theorem ofRatio_of_roundsTo_of_le (hnum : 0 < num) (hden : 0 < den) (hc : Canonical m e)
    (h : RoundsTo (num / den) m e)
    (hsize : e = minExponent ∨ (2 : ℚ) ^ ((52 : Nat) + e : Int) ≤ num / den) :
    ofRatio negative num den = finite negative m e := by
  have hp : (0 : ℚ) < 2 ^ e := by positivity
  obtain ⟨hlow, hhigh⟩ := leadingBit_spec hnum hden
  have hbit := zpow_lt_of_le_of_lt hlow (h.lt_zpow hc.lt)
  have hexp : roundingExponent num den = e := by
    unfold roundingExponent
    rcases hsize with rfl | hsize
    · omega
    · have := zpow_lt_of_le_of_lt hsize hhigh
      have := hc.least
      omega
  have hman : roundingMantissa num den = m := by
    refine roundingMantissa_eq hden hexp ?_ ?_
    · rw [lt_div_iff₀ hp, eq_div_iff hp.ne']
      have hgap := gapBelow_le m e
      rcases h.low with hl | ⟨hl, hev⟩
      · left
        nlinarith
      · rcases hgap.lt_or_eq with hgap | hgap
        · left
          nlinarith
        · exact .inr ⟨hgap ▸ hl, hev⟩
    · rw [div_lt_iff₀ hp, div_eq_iff hp.ne']
      exact h.high
  have hlt := hc.lt
  have hmost := hc.most
  rw [ofRatio_eq hnum, hman, hexp, if_neg hlt.ne, if_neg (by omega)]

/-- A quotient below a power of two that is nevertheless rounded to it: it is rounded with the
exponent below, and to a mantissa that has one bit too many. -/
theorem ofRatio_of_roundsTo_of_lt (hnum : 0 < num) (hden : 0 < den) (hmin : minExponent < e)
    (hmost : e ≤ maxExponent) (h : RoundsTo (num / den) (2 ^ 52) e)
    (hsize : (num / den : ℚ) < 2 ^ ((52 : Nat) + e : Int)) :
    ofRatio negative num den = finite negative (2 ^ 52) e := by
  have hp : (0 : ℚ) < 2 ^ e := by positivity
  obtain ⟨hlow, hhigh⟩ := leadingBit_spec hnum hden
  have hle := h.low_le
  rw [gapBelow, if_pos ⟨rfl, hmin⟩] at hle
  have hexp : roundingExponent num den = e - 1 := by
    have hup := zpow_lt_of_le_of_lt hlow hsize
    have hdown : ((51 : Nat) + e : Int) < leadingBit num den + 1 := by
      refine zpow_lt_of_le_of_lt ?_ hhigh
      rw [two_zpow_add]
      refine le_trans (mul_le_mul_of_nonneg_right ?_ hp.le) hle
      norm_num
    unfold roundingExponent
    omega
  have hhalf : (2 : ℚ) ^ (e - 1) = 2 ^ e / 2 := by
    rw [zpow_sub_one₀ (by norm_num)]
    rfl
  have hman : roundingMantissa num den = 2 ^ 53 := by
    rw [two_zpow_add] at hsize
    refine roundingMantissa_eq hden hexp ?_ ?_
    · have hle' : (((2 ^ 53 : Nat) : ℚ) - 1 / 2) ≤ num / den / 2 ^ (e - 1) := by
        rw [hhalf, le_div_iff₀ (by positivity)]
        push_cast at *
        linarith
      exact hle'.lt_or_eq.imp_right fun heq => ⟨heq, rfl⟩
    · left
      rw [hhalf, div_lt_iff₀ (by positivity)]
      push_cast at *
      nlinarith
  rw [ofRatio_eq hnum, hman, hexp, if_pos rfl, if_neg (by omega), sub_add_cancel]

/-- **Quotients are rounded to the double in whose interval they lie.** -/
theorem ofRatio_of_roundsTo (hnum : 0 < num) (hden : 0 < den) (hc : Canonical m e)
    (h : RoundsTo (num / den) m e) : ofRatio negative num den = finite negative m e := by
  by_cases hsize : e = minExponent ∨ (2 : ℚ) ^ ((52 : Nat) + e : Int) ≤ num / den
  · exact ofRatio_of_roundsTo_of_le hnum hden hc h hsize
  · simp only [not_or, not_le] at hsize
    obtain ⟨hmin, hlt⟩ := hsize
    obtain rfl := h.eq_of_lt (hc.normal.resolve_left hmin) hlt
    exact ofRatio_of_roundsTo_of_lt hnum hden (lt_of_le_of_ne hc.least (Ne.symm hmin)) hc.most h hlt

/-- The mantissa has at most one bit too many. -/
theorem roundingMantissa_le (hnum : 0 < num) (hden : 0 < den) :
    roundingMantissa num den ≤ 2 ^ 53 := by
  have hp : (0 : ℚ) < 2 ^ roundingExponent num den := by positivity
  have hpos : 0 < den * 2 ^ (roundingExponent num den).toNat := Nat.mul_pos hden (by positivity)
  have hle : (num / den / 2 ^ roundingExponent num den : ℚ) ≤ (2 ^ 53 : Nat) := by
    rw [div_le_iff₀ hp, Nat.cast_pow, Nat.cast_ofNat, ← two_zpow_add]
    refine (leadingBit_spec hnum hden).2.le.trans (zpow_le_zpow_right₀ (by norm_num) ?_)
    unfold roundingExponent
    omega
  rw [← scaled_div hden, div_le_iff₀ (by exact_mod_cast hpos)] at hle
  exact roundHalfEven_le hpos (by exact_mod_cast hle)

/-- The mantissa has all its bits, unless the exponent is the least. -/
theorem le_roundingMantissa (hnum : 0 < num) (hden : 0 < den)
    (hne : roundingExponent num den ≠ minExponent) : 2 ^ 52 ≤ roundingMantissa num den := by
  have hp : (0 : ℚ) < 2 ^ roundingExponent num den := by positivity
  have hpos : 0 < den * 2 ^ (roundingExponent num den).toNat := Nat.mul_pos hden (by positivity)
  have hle : ((2 ^ 52 : Nat) : ℚ) ≤ num / den / 2 ^ roundingExponent num den := by
    rw [le_div_iff₀ hp, Nat.cast_pow, Nat.cast_ofNat, ← two_zpow_add]
    refine le_trans (zpow_le_zpow_right₀ (by norm_num) ?_) (leadingBit_spec hnum hden).1
    unfold roundingExponent at hne ⊢
    omega
  rw [← scaled_div hden, le_div_iff₀ (by exact_mod_cast hpos)] at hle
  exact le_roundHalfEven hpos (by exact_mod_cast hle)

theorem canonical_zero : Canonical 0 minExponent :=
  ⟨by decide, le_rfl, by decide, .inl rfl⟩

/-- A quotient is rounded to a double, unless it is too large. -/
theorem ofRatio_cases (negative : Bool) (num : Nat) {den : Nat} (hden : 0 < den) :
    ofRatio negative num den = infinite negative ∨
      ∃ m e, Canonical m e ∧ ofRatio negative num den = finite negative m e := by
  obtain rfl | hnum := num.eq_zero_or_pos
  · exact .inr ⟨0, minExponent, canonical_zero, rfl⟩
  have hmin : minExponent ≤ roundingExponent num den := le_max_right _ _
  have hle := roundingMantissa_le hnum hden
  have hnorm := or_iff_not_imp_left.2 (le_roundingMantissa hnum hden)
  rw [ofRatio_eq hnum]
  split
  · split
    · exact .inl rfl
    · exact .inr ⟨_, _, ⟨by decide, by omega, by omega, .inr le_rfl⟩, rfl⟩
  · split
    · exact .inl rfl
    · exact .inr ⟨_, _, ⟨by omega, hmin, by omega, hnorm⟩, rfl⟩

end Double
end FlowScript
