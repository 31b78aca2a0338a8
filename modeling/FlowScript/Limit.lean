/-!
# Limits

Command text is read within fixed limits; what exceeds them is rejected or degraded, never read in
part.
-/
namespace FlowScript

/-- The most operators and the most nested parentheses of an expression, the most connectives of a
condition, and the most commands inside each other. -/
def maxNesting : Nat := 32

/-- The longest integer that is read, in digits. -/
def maxDigits : Nat := 4300

end FlowScript
