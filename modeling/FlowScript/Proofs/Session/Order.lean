import FlowScript.Proofs.Command.Order
import FlowScript.Session.Line

/-!
# The order of rules

Since no line has the forms of two commands, it does not matter in which order the rules are tried,
neither for a line nor for the lines inside it: the steps, the events and the rest of the session
are the same, and so is a fault.

## Main statements

* `Compile.lineWithin_congr`: rules by which lines are read alike carry them out alike.
* `Compile.lineWithin_perm`: the rules may be tried in any order.
-/
namespace FlowScript.Compile

open Text

/-- Lines are carried out alike by rules by which all lines are read alike. -/
theorem lineWithin_congr {rs rs' : List Rule}
    (h : ∀ line, Command.read? rs line = Command.read? rs' line) (n : Nat) :
    lineWithin rs n = lineWithin rs' n := by
  induction n with
  | zero => rfl
  | succ n ih =>
    funext text
    simp only [lineWithin, h, ih]

/-- **No line has the forms of two rules, and so it does not matter in which order they are
tried**, for a line in any session as for the lines inside it at every level. -/
theorem lineWithin_perm :
    (∀ text, Command.rules.countP (fun rule => (rule.read (trim text)).isSome) ≤ 1) ∧
      ∀ rs : List Rule, rs.Perm Command.rules →
        (∀ n text s, lineWithin rs n text s = lineWithin Command.rules n text s) ∧
          ∀ text s, lineWithin rs (allowance s.nesting) text s = line text s := by
  refine ⟨fun text => countP_isSome_le_one ?_, fun rs h => ?_⟩
  · exact Command.pairwise_rules.imp fun hapart => hapart (trim text)
  · have heq : lineWithin rs = lineWithin Command.rules :=
      funext (lineWithin_congr (Command.read?_perm h))
    exact ⟨fun n text s => by rw [heq], fun text s => by rw [heq]; rfl⟩

/-- The last rule may be tried first, also for the lines inside a line. -/
theorem lineWithin_reverse :
    Command.rules.reverse.map Rule.verb ≠ Command.rules.map Rule.verb ∧
      lineWithin Command.rules.reverse (allowance 0) "if a then call b store in c else call b" {} =
        line "if a then call b store in c else call b" {} :=
  ⟨by decide, (lineWithin_perm.2 _ (List.reverse_perm _)).2 _ {}⟩

end FlowScript.Compile
