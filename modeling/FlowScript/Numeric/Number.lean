import FlowScript.Numeric.Shortest

/-!
# Numbers

A number is an integer of any size or a double. The two kinds are told apart in literals and in
text, but they are compared by value: an integer and a double that denote the same number are the
same number.

## Main definitions

* `Number`: integers and doubles.
* `Number.compare?`: exact comparison by value, undefined only on what is no number.
* `Number.text`: the decimal text.
-/
namespace FlowScript

/-- An integer or a double. -/
inductive Number where
  | int (n : Int)
  | double (x : Double)
  deriving DecidableEq, Repr, Inhabited

namespace Number

attribute [local instance (high)] instPowNat

/-- Compares two integers times powers of two. -/
def compareBinary (a : Int) (e : Int) (b : Int) (f : Int) : Ordering :=
  let low := min e f
  compare (a * 2 ^ (e - low).toNat) (b * 2 ^ (f - low).toNat)

/-- A finite number as an integer times a power of two. -/
def binary? : Number → Option (Int × Int)
  | int n => some (n, 0)
  | double (.finite negative m e) => some (if negative then -(m : Int) else m, e)
  | double _ => none

/-- Compares two numbers by value. What is no number compares with nothing. -/
def compare? (x y : Number) : Option Ordering :=
  match x, y with
  | double .nan, _ => none
  | _, double .nan => none
  | double (.infinite n), double (.infinite n') =>
    some (if n = n' then .eq else if n then .lt else .gt)
  | double (.infinite n), _ => some (if n then .lt else .gt)
  | _, double (.infinite n) => some (if n then .gt else .lt)
  | x, y => match x.binary?, y.binary? with
    | some (a, e), some (b, f) => some (compareBinary a e b f)
    | _, _ => none

/-- Whether two numbers have the same value. -/
def same (x y : Number) : Bool :=
  x.compare? y == some .eq

/-- Whether a number is smaller than another. -/
def less (x y : Number) : Bool :=
  x.compare? y == some .lt

/-- Whether a number denotes an integer, of either kind. -/
def isWhole : Number → Bool
  | int _ => true
  | double x => x.isWhole

/-- The decimal text of a number. -/
def text : Number → String
  | int n => toString n
  | double x => x.text

end Number
end FlowScript
