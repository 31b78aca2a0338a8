import FlowScript.Proofs.Condition.Comparison

/-!
# Quoted operands

A text between quotes is an operand that stands for the text itself. By symbol, a name is compared
with what is quoted only if there are no blanks between the quotes: with blanks, all of the clause is
taken for the name of a variable.

## Main definitions

* `Condition.IsQuotable`: the texts that can be quoted in a condition, each with its quote.

## Main statements

* `unquote?_quoted`: what is quoted is read back.
* `Condition.parse_quoted`: a comparison by symbol with a quoted text.
-/
namespace FlowScript

open Text

variable {q : Char} {cs name : List Char}

/-- A text that can stand between quotes of a kind in a condition: it has no quote of that kind and
no line feeds, and nothing at which a condition is cut. -/
structure Condition.IsQuotable (q : Char) (cs : List Char) : Prop where
  isQuote : q = '\x27' ∨ q = '\x22'
  unquoted : q ∉ cs
  oneLine : '\n' ∉ cs
  kept : cs.any isDropped = false
  unjoined : ∀ k : Connective, ¬ k.symbol.toList <:+: cs
  asksNothing : containment? cs = none

/-! ## Quoted texts -/

/-- What is quoted is read back. -/
theorem Text.unquote?_quoted (hq : q = '\x27' ∨ q = '\x22') (h : q ∉ cs) (hl : '\n' ∉ cs) :
    unquote? (q :: (cs ++ [q])) = some cs := by
  simp [unquote?, hq, h, hl]

theorem isFree_quoted (hq : q = '\x27' ∨ q = '\x22') (hl : '\n' ∉ cs) :
    IsFree (q :: (cs ++ [q])) := by
  have hquote : IsFree [q] := by
    rcases hq with rfl | rfl <;> exact ⟨by decide, by decide, by decide⟩
  exact hquote.append hquote hl

/-- A text between quotes is neither a number nor a truth value. -/
theorem Condition.operand_quoted (hq : q = '\x27' ∨ q = '\x22') (h : q ∉ cs) (hl : '\n' ∉ cs) :
    operand (q :: (cs ++ [q])) = .ok (.ofText (String.ofList cs)) := by
  have htrim := (isFree_quoted hq hl).trim_eq
  have hnumber : number? (q :: (cs ++ [q])) = .ok none := by
    rw [number?, htrim]
    rcases hq with rfl | rfl <;> rfl
  have hlower : q.toLower = q := by rcases hq with rfl | rfl <;> rfl
  have htruth : Expr.truth? (q :: (cs ++ [q])) = none := by
    rcases hq with rfl | rfl <;> simp [Expr.truth?, hlower]
  simp only [operand, htrim, hnumber, htruth, unquote?_quoted hq h hl, bind, Except.bind, pure,
    Except.pure]

namespace Condition

/-- A quote is no word character, and neither is it a part of a connective. -/
theorem IsQuotable.isUncut (h : IsQuotable q cs) : IsUncut (q :: (cs ++ [q])) := by
  have hfree := isFree_quoted h.isQuote h.oneLine
  have hword : isWord q = false := by rcases h.isQuote with rfl | rfl <;> rfl
  refine ⟨hfree, ?_, fun k => ?_, ?_⟩
  · have hq : isDropped q = false := by rcases h.isQuote with rfl | rfl <;> rfl
    simp [hq, h.kept]
  · have hq : q ∉ k.symbol.toList := by
      rcases h.isQuote with rfl | rfl <;> cases k <;> decide
    rw [infix_cons_iff_of_notMem hq k.symbol_ne_nil, infix_append_cons_iff hq k.symbol_ne_nil,
      List.infix_nil]
    exact not_or.2 ⟨h.unjoined k, k.symbol_ne_nil⟩
  · have hcs := (containment?_eq_none_iff h.oneLine).1 h.asksNothing
    rw [containment?_eq_none_iff hfree.oneLine, asks_cons_iff hword, asks_append_cons_iff hword]
    exact not_or.2 ⟨hcs, not_asks_nil⟩

/-! ## Comparisons with quoted texts -/

/-- **A quoted text without blanks is compared with as a whole.** Blanks between the quotes keep a
text from being a comparison by symbol: all of it is the name of a variable then. -/
theorem parse_quoted (hn : isWordRun name) (ha : containment? name = none) (r : Relation)
    (hq : IsQuotable q cs) :
    parse (name ++ (r.padded ++ q :: (cs ++ [q]))) =
      .ok (if cs.any isBlank
        then holds (String.ofList (name ++ (r.padded ++ q :: (cs ++ [q]))))
        else compare (.var (String.ofList name)) r (.ofText (String.ofList cs))) := by
  have hb : (q :: (cs ++ [q])).any isBlank = cs.any isBlank := by
    have hquote : isBlank q = false := by rcases hq.isQuote with rfl | rfl <;> rfl
    simp [hquote]
  rw [parse_padded hn ha r hq.isUncut, hb, operand_quoted hq.isQuote hq.unquoted hq.oneLine]
  split <;> rfl

/-- One blank between the quotes makes the difference by symbol, and none in words. -/
theorem parse_quoted_two_words :
    parse "x == \x27a b\x27".toList = .ok (holds "x == \x27a b\x27") ∧
      parse "x == \x27ab\x27".toList = .ok (compare (.var "x") .equal (.ofText "ab")) ∧
      parse "x is \x27a b\x27".toList = .ok (compare (.var "x") .equal (.ofText "a b")) := by
  have hx : isWordRun ['x'] := by decide
  have ha : containment? ['x'] = none := by decide
  have hspaced : IsQuotable '\x27' ['a', ' ', 'b'] :=
    ⟨by decide, by decide, by decide, by decide, by rintro ⟨⟩ <;> decide, by decide⟩
  have hsolid : IsQuotable '\x27' ['a', 'b'] :=
    ⟨by decide, by decide, by decide, by decide, by rintro ⟨⟩ <;> decide, by decide⟩
  have htwo : "x == \x27a b\x27".toList =
      ['x'] ++ (Relation.equal.padded ++ '\x27' :: (['a', ' ', 'b'] ++ ['\x27'])) := by decide
  have hone : "x == \x27ab\x27".toList =
      ['x'] ++ (Relation.equal.padded ++ '\x27' :: (['a', 'b'] ++ ['\x27'])) := by decide
  refine ⟨?_, ?_, by decide +kernel⟩
  · rw [htwo, parse_quoted hx ha .equal hspaced, if_pos (by decide), ← htwo, String.ofList_toList]
  · rw [hone, parse_quoted hx ha .equal hsolid, if_neg (by decide)]

end Condition
end FlowScript
