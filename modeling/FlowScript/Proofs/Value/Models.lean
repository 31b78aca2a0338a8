import FlowScript.Proofs.Expr.Built
import FlowScript.Proofs.Value.WellFormed

/-!
# Where classifiers are asked

A classifier is asked only by a value that is a question as a whole. Everything that is read as an
expression asks none, nor do the operands of comparisons, and so no condition asks one.

## Main statements

* `Expr.models_of_read`, `Condition.models_of_parse`: neither an expression nor a condition that is
  read asks a classifier.
-/
namespace FlowScript

open Text

namespace Expr

theorem Built.models {ts : List Token} {e : Expr} (h : Built ts e) : e.models = [] := by
  induction h with
  | number n => rfl
  | word h =>
    unfold ofWord
    split <;> rfl
  | @binary op l r _ _ ihl ihr =>
    have hb : (Expr.binary op l r).models = l.models ++ r.models := rfl
    rw [hb, ihl, ihr, List.append_nil]

/-- **No expression that is read asks a classifier.** -/
theorem models_of_read {cs : List Char} {e : Expr} (h : Expr.read cs = .ok e) :
    e.models = [] := by
  rcases read_cases h with ⟨inside, -, rfl⟩ | ⟨n, rfl⟩ | hp | ⟨-, rfl⟩
  · rfl
  · rfl
  · exact (built_of_parse hp).models
  · rfl

end Expr

namespace Condition

variable {cs : List Char} {c : Condition}

theorem models_of_operand {e : Expr} (h : operand cs = .ok e) : e.models = [] := by
  rcases operand_cases h with ⟨n, rfl⟩ | ⟨b, rfl⟩ | ⟨inside, -, rfl⟩ | rfl
  · rfl
  · rfl
  · rfl
  · rfl

theorem models_of_clause (h : clause cs = .ok c) : c.models = [] := by
  rcases clause_cases h with rfl | ⟨input, piece, -, -, rfl⟩ |
    ⟨name, r, right, e, -, -, -, -, ho, rfl⟩ | ⟨-, rfl⟩
  · rfl
  · rfl
  · have hc : (compare (.var (String.ofList name)) r e).models = e.models := rfl
    rw [hc, models_of_operand ho]
  · rfl

/-- **No condition that a text writes asks a classifier.** -/
theorem models_of_parse (h : parse cs = .ok c) : c.models = [] := by
  refine parse_induction (K := fun c => c.models = []) (fun _ => models_of_clause) ?_ h
  intro k l r hl hr
  have hj : (join k l r).models = l.models ++ r.models := rfl
  rw [hj, hl, hr, List.append_nil]

end Condition
end FlowScript
