/-!
# Double-precision numbers

A finite double is a sign, a mantissa below 2^53 and an exponent of two from -1074 to 971. The
mantissa is at least 2^52 unless the exponent is the least one, so that every double has one
representation; zero keeps its sign. All arithmetic here is exact, in natural numbers: a quotient
is rounded once, to the nearest double, a half going to the even mantissa, and what rounds beyond
the largest double is infinite.

## Main definitions

* `Double`: the numbers.
* `Double.ofRatio`, `Double.ofDecimal`: the double nearest to a quotient or a decimal.
-/
namespace FlowScript

/-- A number in double precision. -/
inductive Double where
  /-- The mantissa times two to the exponent, with a sign. -/
  | finite (negative : Bool) (mantissa : Nat) (exponent : Int)
  | infinite (negative : Bool)
  | nan
  deriving DecidableEq, Repr, Inhabited

/-- The quotient rounded to the nearest natural number, a half to the even one. -/
def roundHalfEven (num den : Nat) : Nat :=
  let q := num / den
  let twice := 2 * (num % den)
  if twice < den then q
  else if den < twice then q + 1
  else if q % 2 = 0 then q else q + 1

namespace Double

/-- The least exponent of a double. -/
def minExponent : Int := -1074

/-- The largest exponent of a finite double. -/
def maxExponent : Int := 971

/-- Zero, with a sign. -/
def zero (negative : Bool) : Double :=
  finite negative 0 minExponent

attribute [local instance (high)] instPowNat

/-- Whether two to a power is at most a quotient. -/
def twoPowLe (k : Int) (num den : Nat) : Bool :=
  den * 2 ^ k.toNat ≤ num * 2 ^ (-k).toNat

/-- The double nearest to a quotient, with a sign. -/
def ofRatio (negative : Bool) (num den : Nat) : Double :=
  if num = 0 then zero negative
  else
    let k : Int := (num.log2 : Int) - (den.log2 : Int)
    let top := if twoPowLe k num den then k else k - 1
    let exponent := max (top - 52) minExponent
    let mantissa := roundHalfEven (num * 2 ^ (-exponent).toNat) (den * 2 ^ exponent.toNat)
    let (mantissa, exponent) :=
      if mantissa = 2 ^ (53 : Nat) then (2 ^ (52 : Nat), exponent + 1) else (mantissa, exponent)
    if maxExponent < exponent then infinite negative else finite negative mantissa exponent

/-- The double nearest to an integer times a power of ten, with a sign. Magnitudes far outside
the range of doubles are told by the length of the integer alone. -/
def ofDecimal (negative : Bool) (digits : Nat) (power : Int) : Double :=
  let bits := digits.log2
  if digits = 0 then zero negative
  else if 309 < power + (bits * 3 / 10 : Nat) then infinite negative
  else if power + (bits * 4 / 13 + 2 : Nat) < -325 then zero negative
  else ofRatio negative (digits * 10 ^ power.toNat) (10 ^ (-power).toNat)

/-- Whether the number is a whole number. -/
def isWhole : Double → Bool
  | finite _ m e => m % 2 ^ (-e).toNat = 0
  | _ => false

end Double
end FlowScript
