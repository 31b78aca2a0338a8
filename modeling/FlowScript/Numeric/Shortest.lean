import FlowScript.Numeric.Double

/-!
# Shortest decimal text of a double

A double is written with the fewest digits that read back as it. All decimals between the halfway
points to its two neighbours read back; the halfway points do so when the mantissa is even. For one
digit, two digits, and so on up to seventeen, the two decimals next to the number are tried: the
first count with one that reads back wins, of two the nearer, and of two equally near the even one.

Numbers from 0.0001 to below 10^16 are written positionally, with at least one digit after the
point. All others have an exponent with a sign and at least two digits.
-/
namespace FlowScript

/-- An integer times a power of ten. -/
structure Decimal where
  digits : Nat
  power : Int
  deriving DecidableEq, Repr

namespace Double

attribute [local instance (high)] instPowNat

/-- Compares an integer times powers of ten and two with another integer times a power of two. -/
def compareScaled (a : Nat) (ten : Int) (b : Nat) (two : Int) : Ordering :=
  compare (a * 10 ^ ten.toNat * 2 ^ (-two).toNat) (b * 2 ^ two.toNat * 10 ^ (-ten).toNat)

/-- The largest power of ten that is at most the mantissa times two to the exponent. -/
def leadingPower (m : Nat) (e : Int) : Int :=
  let guess := Int.fdiv (((m.log2 : Int) + e) * 30103) 100000
  [guess + 1, guess, guess - 1].find? (fun k => compareScaled 1 k m e != .gt) |>.getD (guess - 1)

/-- Whether a decimal reads back as the double with the given mantissa and exponent. -/
def readsBack (m : Nat) (e : Int) (d : Decimal) : Bool :=
  let below := if m = 2 ^ (52 : Nat) ∧ minExponent < e then 4 * m - 1 else 4 * m - 2
  let low := compareScaled d.digits d.power below (e - 2)
  let high := compareScaled d.digits d.power (4 * m + 2) (e - 2)
  (low == .gt || (low == .eq && m % 2 == 0)) && (high == .lt || (high == .eq && m % 2 == 0))

/-- The decimal with the given power that reads back, if one of the two next to the double does. -/
def nearestOnGrid? (m : Nat) (e power : Int) : Option Decimal :=
  let num := m * 2 ^ e.toNat * 10 ^ (-power).toNat
  let den := 2 ^ (-e).toNat * 10 ^ power.toNat
  let down := num / den
  let near := roundHalfEven num den
  let far := if near = down then down + 1 else down
  [near, far].map (fun d => ⟨d, power⟩) |>.find? (readsBack m e)

/-- The decimal with the fewest digits that reads back as a nonzero double. -/
def shortest (m : Nat) (e : Int) : Decimal :=
  let top := leadingPower m e
  (List.range 17).findSome? (fun n : Nat => nearestOnGrid? m e (top - n)) |>.getD ⟨m, 0⟩

/-- The digits of a decimal without the zeros at the end. -/
def significant (d : Decimal) : List Char :=
  ((Nat.toDigits 10 d.digits).reverse.dropWhile (· = '0')).reverse

/-- An exponent with a sign and at least two digits. -/
def exponentText (n : Int) : List Char :=
  let digits := Nat.toDigits 10 n.natAbs
  (if n < 0 then '-' else '+') :: (List.replicate (2 - digits.length) '0' ++ digits)

/-- The text of a positive decimal. -/
def decimalText (d : Decimal) : List Char :=
  let ds := significant d
  let point : Int := (Nat.toDigits 10 d.digits).length + d.power
  if -4 < point ∧ point ≤ 16 then
    if point ≤ 0 then
      '0' :: '.' :: (List.replicate (-point).toNat '0' ++ ds)
    else
      let whole := ds.take point.toNat
      let fraction := ds.drop point.toNat
      whole ++ List.replicate (point.toNat - ds.length) '0' ++
        '.' :: (if fraction.isEmpty then ['0'] else fraction)
  else
    let mantissa := match ds with
      | c :: c' :: more => c :: '.' :: c' :: more
      | ds => ds
    mantissa ++ 'e' :: exponentText (point - 1)

/-- The text of a double, with the given words for infinity and for what is no number. -/
def textWith (infinity notNumber : String) : Double → String
  | finite negative m e =>
    let digits := if m = 0 then ['0', '.', '0'] else decimalText (shortest m e)
    String.ofList (if negative then '-' :: digits else digits)
  | infinite negative => if negative then "-" ++ infinity else infinity
  | nan => notNumber

/-- The text of a double in expressions and messages. -/
def text (x : Double) : String :=
  x.textWith "inf" "nan"

end Double
end FlowScript
