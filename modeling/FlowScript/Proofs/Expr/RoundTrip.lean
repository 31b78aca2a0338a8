import FlowScript.Proofs.Expr.Printed
import FlowScript.Proofs.Numeric.Text

/-!
# Expressions that are read from their texts

An expression that has been read is read again from its text if all its numbers are written with
digits and a point alone. Very large and very small doubles are written with an exponent, and the
sign of the exponent is read as an operator; an infinite double is written with a word, which is
read as a variable. An expression with one of these is not read again, and what is read in its
place, if anything, differs from it.

## Main definitions

* `Expr.isPlain`: the expressions whose numbers are written with digits and a point alone.
* `Expr.named`: an expression with variables in place of infinite doubles.

## Main statements

* `Expr.parse_chars`: which expressions that have been read are read again from their texts.
-/
namespace FlowScript

open Text

namespace Expr

/-- Whether all numbers of an expression are written with digits and a point alone. -/
def isPlain : Expr → Bool
  | literal (.number x) => x.isPlain
  | literal _ => true
  | var _ => true
  | binary _ l r => l.isPlain && r.isPlain
  | classify _ i => i.isPlain

/-- An infinite double as an operand. -/
def infinite : Expr :=
  ofNumber (.double (.infinite false))

/-- An expression with variables in place of infinite doubles. -/
def named : Expr → Expr
  | literal v => if literal v = infinite then var "inf" else literal v
  | var name => var name
  | binary op l r => binary op l.named r.named
  | classify m i => classify m i.named

variable {n : Nat} {k : Rank} {ts : List Token} {t : Token} {e : Expr}

/-! ## Operands -/

/-- An operand without a point is an integer with few digits. -/
theorem of_ofNumeral_none {whole : List Char} (h : ofNumeral whole none = .ok e) :
    ∃ n : Nat, n < 10 ^ maxDigits ∧ e = ofInt n := by
  simp only [ofNumeral, Numeral.value, bind, Except.bind, pure, Except.pure] at h
  cases hw : wholeNumber whole with
  | error f => simp [hw] at h
  | ok size =>
    obtain ⟨hl, rfl⟩ := wholeNumber_eq_ok_iff.1 hw
    simp only [hw, Except.ok.injEq] at h
    refine ⟨digitsValue whole, ?_, h.symm⟩
    exact (digitsValue_lt whole).trans_le (Nat.pow_le_pow_right (by decide) hl)

/-- An operand with a point is a double that is not negative. -/
theorem of_ofNumeral_some {whole fraction : List Char}
    (h : ofNumeral whole (some fraction) = .ok e) :
    e = infinite ∨
      ∃ m x, Double.Canonical m x ∧ e = ofNumber (.double (.finite false m x)) := by
  simp only [ofNumeral, Numeral.value, Except.ok.injEq] at h
  have hd : (Numeral.mk false whole (some fraction) none).double =
      Double.ofDecimal false (digitsValue (whole ++ fraction)) (0 - fraction.length) := rfl
  rw [hd] at h
  obtain hi | ⟨m, x, hc, hf⟩ := Double.ofDecimal_cases false (digitsValue (whole ++ fraction))
    (0 - fraction.length)
  · exact .inl (by rw [← h, hi, infinite])
  · exact .inr ⟨m, x, hc, by rw [← h, hf]⟩

/-- An integer with few digits is an operand, which its text writes. -/
theorem stands_toDigits {n : Nat} (hn : n < 10 ^ maxDigits) :
    Stands (.number (Nat.toDigits 10 n) none) (ofInt n) := by
  have hl : (Nat.toDigits 10 n).length ≤ maxDigits :=
    (Nat.length_toDigits_le_iff (by decide) (by decide)).2 hn
  have hw := wholeNumber_eq_ok_iff.2 ⟨hl, digitsValue_toDigits n⟩
  refine .number ?_
  simp only [ofNumeral, Numeral.value, hw, bind, Except.bind, pure, Except.pure]
  rfl

/-- An integer with few digits is what a token with its text stands for. -/
theorem exists_token_ofInt {n : Nat} (hn : n < 10 ^ maxDigits) :
    ∃ u : Token, u.Whole ∧ u.chars = (ofInt n).chars ∧ Stands u (ofInt n) := by
  have hw : (Token.number (Nat.toDigits 10 n) none).Whole :=
    ⟨by simp, fun c hc => isDigit_of_ascii (isDigit_toDigits hc)⟩
  exact ⟨_, hw, (toList_toString (Int.natCast_nonneg n)).symm, stands_toDigits hn⟩

/-- A truth value is what a token with its text stands for. -/
theorem exists_token_ofBool (b : Bool) :
    ∃ u : Token, u.Whole ∧ u.chars = (ofBool b).chars ∧ Stands u (ofBool b) := by
  cases b with
  | false => exact ⟨.word "false".toList, Token.whole_word (by decide) (by decide), rfl, .word _⟩
  | true => exact ⟨.word "true".toList, Token.whole_word (by decide) (by decide), rfl, .word _⟩

/-- **An operand that is plain is what a token with its text stands for.** -/
theorem Stands.of_isPlain (h : Stands t e) (ht : t.Whole) (hp : e.isPlain) :
    ∃ u : Token, u.Whole ∧ u.chars = e.chars ∧ Stands u e := by
  cases h with
  | word name =>
    unfold ofWord
    cases hb : truth? name with
    | none => exact ⟨.word name, ht, by simp [Token.chars, chars], by
        have := Stands.word name
        rwa [ofWord, hb] at this⟩
    | some b => exact exists_token_ofBool b
  | @number whole fraction e h =>
    cases fraction with
    | none =>
      obtain ⟨n, hn, rfl⟩ := of_ofNumeral_none h
      exact exists_token_ofInt hn
    | some fraction =>
      obtain rfl | ⟨m, x, hc, rfl⟩ := of_ofNumeral_some h
      · exact absurd hp (by decide)
      · obtain ⟨whole', fraction', htext, hw, hf, hd, hv⟩ := Double.double_text hc hp
        refine ⟨.number whole' (some fraction'), ⟨hw, hf, ?_, ?_⟩, htext.symm, .number ?_⟩
        · exact fun c hc => isDigit_of_ascii (hd c (List.mem_append_left _ hc))
        · exact fun c hc => isDigit_of_ascii (hd c (List.mem_append_right _ hc))
        · simp only [ofNumeral, Numeral.value, hv]

/-- An operand that is not plain is infinite, or there is an operator in its text. -/
theorem Stands.of_not_isPlain (h : Stands t e) (hp : e.isPlain = false) :
    e = infinite ∨ 0 < e.chars.countP Token.isSymbol := by
  cases h with
  | word name =>
    unfold ofWord at hp
    split at hp <;> simp [ofBool, isPlain] at hp
  | @number whole fraction e h =>
    cases fraction with
    | none =>
      obtain ⟨n, -, rfl⟩ := of_ofNumeral_none h
      exact absurd (hp.symm.trans (Number.isPlain_natCast n)) Bool.false_ne_true
    | some fraction =>
      refine (of_ofNumeral_some h).imp_right ?_
      rintro ⟨m, x, hc, rfl⟩
      rw [List.countP_pos_iff]
      obtain hs | hs := Double.sign_mem_text hc hp
      · exact ⟨_, hs, by decide⟩
      · exact ⟨_, hs, by decide⟩

/-! ## Counting operators in texts -/

theorem countP_isSymbol_binary (op : ArithOp) (l r : Expr) :
    (binary op l r).chars.countP Token.isSymbol =
      l.chars.countP Token.isSymbol + r.chars.countP Token.isSymbol + 1 := by
  have hsymbol : [' ', op.symbol, ' '].countP Token.isSymbol = 1 := by cases op <;> decide
  have hparens : ['(', ')'].countP Token.isSymbol = 0 := by decide
  rw [countP_chars_binary, hsymbol, hparens, Nat.mul_zero, Nat.add_zero]

/-- A plain expression is written with tokens that it can be read from. -/
theorem written_of_isPlain {cs : List Char} (h : parse cs = .ok (some e)) (hp : e.isPlain) :
    ∃ us, Written e us := by
  refine parse_induction (K := fun e => e.isPlain → ∃ us, Written e us) ?_ ?_ h hp
  · intro t e _ ht hs hp
    obtain ⟨u, hu, hc, hs⟩ := hs.of_isPlain ht hp
    exact ⟨[u], .operand hu hc hs⟩
  · intro op l r hl hr hp
    rw [isPlain, Bool.and_eq_true] at hp
    obtain ⟨us, hus⟩ := hl hp.1
    obtain ⟨vs, hvs⟩ := hr hp.2
    exact ⟨_, .binary op hus hvs⟩

/-! ## Variables in place of infinite doubles -/

theorem named_literal_cases (v : Json) :
    literal v = infinite ∧ (literal v).named = var "inf" ∨ (literal v).named = literal v := by
  by_cases h : literal v = infinite
  · exact .inl ⟨h, by rw [named, if_pos h]⟩
  · exact .inr (by rw [named, if_neg h])

theorem exceeds_named (e : Expr) (k : Rank) : e.named.exceeds k = e.exceeds k := by
  cases e with
  | literal v =>
    obtain ⟨-, h⟩ | h := named_literal_cases v
    · rw [h]
      cases k <;> rfl
    · rw [h]
  | var name => rfl
  | binary op l r => cases k <;> rfl
  | classify m i => cases k <;> rfl

/-- The variables are written like the infinite doubles. -/
theorem chars_named (e : Expr) : e.named.chars = e.chars := by
  induction e with
  | literal v =>
    obtain ⟨hi, h⟩ | h := named_literal_cases v
    · rw [h, hi]
      rfl
    · rw [h]
  | var name => rfl
  | binary op l r ihl ihr =>
    rw [named, chars, chars, ihl, ihr, looserThan_eq, looserThan_eq, noTighterThan_eq,
      noTighterThan_eq, exceeds_named, exceeds_named]
  | classify m i ih => rw [named, chars, chars, ih]

theorem nesting_named (e : Expr) : e.named.nesting = e.nesting := by
  induction e with
  | literal v =>
    obtain ⟨-, h⟩ | h := named_literal_cases v
    · rw [h]
      rfl
    · rw [h]
  | var name => rfl
  | binary op l r ihl ihr =>
    rw [named, nesting, nesting, ihl, ihr, looserThan_eq, looserThan_eq, noTighterThan_eq,
      noTighterThan_eq, exceeds_named, exceeds_named]
  | classify m i ih => rw [named, nesting, nesting, ih]

/-- An expression whose text has no exponents is written with variables in place of its infinite
doubles, and it is not the same with them. -/
structure WrittenNamed (e : Expr) : Prop where
  operations_le : e.operations ≤ e.chars.countP Token.isSymbol
  written : e.chars.countP Token.isSymbol = e.operations → ∃ us, Written e.named us
  isPlain : e.chars.countP Token.isSymbol = e.operations → e.named.same e → e.isPlain

theorem Stands.writtenNamed (ht : t.Whole) (h : Stands t e) : WrittenNamed e := by
  have hops := h.atomic.1
  cases hp : e.isPlain with
  | true =>
    have hnamed : e.named = e := by
      obtain ⟨v, rfl⟩ | ⟨name, rfl⟩ := h.leaf
      · refine (named_literal_cases v).resolve_left fun hi => ?_
        rw [hi.1] at hp
        exact absurd hp (by decide)
      · rfl
    obtain ⟨u, hu, hc, hs⟩ := h.of_isPlain ht hp
    refine ⟨hops ▸ Nat.zero_le _, fun _ => ⟨[u], ?_⟩, fun _ _ => hp⟩
    rw [hnamed]
    exact .operand hu hc hs
  | false =>
    refine ⟨hops ▸ Nat.zero_le _, fun hs => ?_, fun hs hsame => ?_⟩
    · obtain rfl | hpos := h.of_not_isPlain hp
      · have hw : (Token.word "inf".toList).Whole := Token.whole_word (by decide) (by decide)
        exact ⟨_, .operand hw rfl (.word _)⟩
      · omega
    · obtain rfl | hpos := h.of_not_isPlain hp
      · exact absurd hsame (by decide)
      · omega

theorem WrittenNamed.binary (op : ArithOp) {l r : Expr} (hl : WrittenNamed l)
    (hr : WrittenNamed r) : WrittenNamed (binary op l r) := by
  have hlle := hl.operations_le
  have hrle := hr.operations_le
  refine ⟨?_, fun hs => ?_, fun hs hsame => ?_⟩
  all_goals rw [countP_isSymbol_binary, operations] at *
  · omega
  · obtain ⟨us, hus⟩ := hl.written (by omega)
    obtain ⟨vs, hvs⟩ := hr.written (by omega)
    exact ⟨_, .binary op hus hvs⟩
  · simp only [named, same, Bool.and_eq_true] at hsame
    rw [Expr.isPlain, hl.isPlain (by omega) hsame.1.2, hr.isPlain (by omega) hsame.2]
    rfl

/-! ## Reading texts again -/

theorem same_operations {e' : Expr} (h : e.same e') : e.operations = e'.operations := by
  induction e generalizing e' with
  | literal v =>
    cases e' with
    | literal w => rfl
    | _ => simp [same] at h
  | var name =>
    cases e' with
    | var name' => rfl
    | _ => simp [same] at h
  | binary op l r ihl ihr =>
    cases e' with
    | binary op' l' r' =>
      simp only [same, Bool.and_eq_true] at h
      rw [operations, operations, ihl h.1.2, ihr h.2]
    | _ => simp [same] at h
  | classify m i ih =>
    cases e' with
    | classify m' i' =>
      simp only [same, Bool.and_eq_true] at h
      rw [operations, operations, ih h.2]
    | _ => simp [same] at h

/-- **An expression that has been read is read again from its text if all its numbers are written
with digits and a point alone. If not, its text is read as nothing that is the same.** -/
theorem parse_chars {cs : List Char} (h : parse cs = .ok (some e)) :
    (e.isPlain → parse e.chars = .ok (some e)) ∧
      ∀ e', parse e.chars = .ok (some e') → e'.same e → e.isPlain := by
  obtain ⟨hd, ho⟩ := parse_eq_some_iff.1 h
  have hn : e.nesting ≤ maxNesting := (Nat.le_add_right _ _).trans hd.nesting_le
  rw [hd.countP_isOperator] at ho
  refine ⟨fun hp => ?_, fun e' he hsame => ?_⟩
  · obtain ⟨us, hw⟩ := written_of_isPlain h hp
    exact hw.parse_eq hn ho
  · -- the operators that are read are those of the text, so that no number has an exponent
    have hs : e.chars.countP Token.isSymbol = e.operations := by
      rw [← Token.countP_isOperator_scan, (parse_eq_some_iff.1 he).1.countP_isOperator,
        same_operations hsame]
    have hnamed : WrittenNamed e :=
      parse_induction (fun _ ht hs => hs.writtenNamed ht) (fun hl hr => hl.binary _ hr) h
    obtain ⟨us, hw⟩ := hnamed.written hs
    have hagain : parse e.named.chars = .ok (some e.named) := by
      refine hw.parse_eq (by rwa [nesting_named]) ?_
      rwa [← hw.countP_chars, chars_named, hs]
    obtain rfl : e' = e.named := by simpa [chars_named, he] using hagain
    exact hnamed.isPlain hs hsame

/-- A difference with a difference on its right. -/
theorem parse_chars_of_difference :
    let e := binary .subtract (ofNumber (.double (.finite false 6755399441055744 (-52))))
      (binary .subtract (var "b") (ofInt 2))
    parse "(1.50) - (b-02)".toList = .ok (some e) ∧ e.chars = "1.5 - (b - 2)".toList ∧
      parse e.chars = .ok (some e) := by
  have hread : parse "(1.50) - (b-02)".toList = .ok (some (binary .subtract
      (ofNumber (.double (.finite false 6755399441055744 (-52))))
      (binary .subtract (var "b") (ofInt 2)))) := by
    decide +kernel
  exact ⟨hread, by decide +kernel, (parse_chars hread).1 (by decide +kernel)⟩

/-- The sign of an exponent is read as an operator. -/
example : ∃ e, parse "0.00001".toList = .ok (some e) ∧ e.chars = "1e-05".toList ∧
    parse e.chars = .ok (some (binary .subtract (var "1e") (ofInt 5))) :=
  ⟨ofNumber (.double (.finite false 5902958103587057 (-69))), by decide +kernel⟩

end Expr
end FlowScript
