import FlowScript.Proofs.Expr.WellFormed

/-!
# What expressions are built from

An expression that is read from tokens is built from numbers and from the words among the tokens by
operations alone.

## Main definitions

* `Expr.Built`: the expressions that are built in this way.

## Main statements

* `Expr.built_of_parse`: every expression that is parsed is built from the tokens of its text.
-/
namespace FlowScript

open Text

namespace Expr

/-- The expressions that are built by operations from numbers and from the words among some
tokens. -/
inductive Built (ts : List Token) : Expr → Prop
  | number (n : Number) : Built ts (ofNumber n)
  | word {name : List Char} (h : .word name ∈ ts) : Built ts (ofWord name)
  | binary (op : ArithOp) {l r : Expr} (hl : Built ts l) (hr : Built ts r) :
      Built ts (binary op l r)

variable {ts : List Token}

theorem Stands.built {t : Token} {e : Expr} (ht : t ∈ ts) (h : Stands t e) : Built ts e := by
  cases h with
  | word name => exact .word ht
  | number h =>
    unfold ofNumeral at h
    split at h
    · obtain rfl := Except.ok.inj h
      exact .number _
    · simp at h

/-- **Every expression that is parsed is built from the tokens of its text.** -/
theorem built_of_parse {cs : List Char} {e : Expr} (h : parse cs = .ok (some e)) :
    Built (Token.scan cs) e :=
  parse_induction (fun ht _ hs => hs.built ht) (fun hl hr => .binary _ hl hr) h

end Expr
end FlowScript
