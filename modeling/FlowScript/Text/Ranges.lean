/-!
# Sets of characters as ranges

A set of characters is a list of closed intervals of code points. The tables of letters, digits
and unprintable characters in the neighbouring modules are such lists, in increasing order.
-/
namespace FlowScript.Text

/-- Closed intervals of code points, in increasing order. -/
abbrev Ranges := List (Nat × Nat)

namespace Ranges

/-- Whether a code point lies in one of the intervals. -/
def has (rs : Ranges) (n : Nat) : Bool :=
  rs.any fun r => r.1 ≤ n && n ≤ r.2

/-- The start of the interval that a code point lies in. -/
def start? (rs : Ranges) (n : Nat) : Option Nat :=
  (rs.find? fun r => r.1 ≤ n && n ≤ r.2).map (·.1)

theorem has_iff {rs : Ranges} {n : Nat} : rs.has n = true ↔ ∃ r ∈ rs, r.1 ≤ n ∧ n ≤ r.2 := by
  simp [has]

end Ranges
end FlowScript.Text
