import FlowScript.Proofs.Numeric.Text
import FlowScript.Proofs.Value.Counter
import FlowScript.Proofs.Value.WellFormed

/-!
# Values of one line

A value that is read from a text without line feeds is written without them. What is quoted, and
what names a variable, is a part of the text; what is calculated is written in words, numbers and
symbols.

## Main statements

* `Expr.oneLine_of_read`, `Condition.oneLine_of_parse`, `Value.oneLine_of_read`: expressions,
  conditions and values of one line.
-/
namespace FlowScript

open Text

/-! ## Numbers -/

theorem Number.oneLine_text (n : Number) : '\n' ∉ n.text.toList := by
  intro h
  rcases mem_text h with h | h
  · exact absurd h (by decide)
  · exact absurd h (by decide)

/-! ## Expressions -/

namespace Expr

variable {cs : List Char} {e : Expr}

theorem oneLine_ofNumber (n : Number) : '\n' ∉ (ofNumber n).chars :=
  n.oneLine_text

theorem oneLine_ofBool (b : Bool) : '\n' ∉ (ofBool b).chars := by
  cases b <;> decide

theorem oneLine_ofText (h : '\n' ∉ cs) : '\n' ∉ (ofText (String.ofList cs)).chars := by
  simpa [ofText, chars, literalChars] using h

theorem oneLine_var (h : '\n' ∉ cs) : '\n' ∉ (var (String.ofList cs)).chars := by
  simpa [chars] using h

theorem oneLine_parenthesised (h : '\n' ∉ cs) : '\n' ∉ parenthesised cs := by
  simpa [parenthesised] using h

theorem oneLine_binary {op : ArithOp} {l r : Expr} (hl : '\n' ∉ l.chars) (hr : '\n' ∉ r.chars) :
    '\n' ∉ (binary op l r).chars := by
  have hs : '\n' ≠ op.symbol := by cases op <;> decide
  have hp {b : Bool} {cs : List Char} (h : '\n' ∉ cs) :
      '\n' ∉ if b then parenthesised cs else cs := by
    cases b
    · exact h
    · exact oneLine_parenthesised h
  simp only [chars, List.mem_append, List.mem_cons, not_or]
  exact ⟨hp hl, by decide, hs, by decide, hp hr⟩

theorem oneLine_classify {model : List Char} (hm : '\n' ∉ model) (he : '\n' ∉ e.chars) :
    '\n' ∉ (classify (String.ofList model) e).chars := by
  simp only [chars, String.toList_ofList, List.mem_append, List.mem_cons, not_or]
  exact ⟨⟨by decide, hm⟩, by decide, oneLine_parenthesised he⟩

theorem Stands.oneLine {t : Token} (ht : t.Whole) (h : Stands t e) : '\n' ∉ e.chars := by
  cases h with
  | word name =>
    rw [ofWord]
    split
    · exact oneLine_ofBool _
    · exact oneLine_var ht.isSolid.isFree.oneLine
  | number h =>
    unfold ofNumeral at h
    split at h
    · obtain rfl := Except.ok.inj h
      exact oneLine_ofNumber _
    · simp at h

/-- An expression that a text writes has one line, because it is made of words and numbers. -/
theorem oneLine_of_parse (h : parse cs = .ok (some e)) : '\n' ∉ e.chars :=
  parse_induction (fun _ ht hs => hs.oneLine ht) oneLine_binary h

/-- **An expression that is read from one line is written on one line.** -/
theorem oneLine_of_read (hl : '\n' ∉ cs) (h : Expr.read cs = .ok e) : '\n' ∉ e.chars := by
  rcases read_cases h with ⟨inside, hi, rfl⟩ | ⟨n, rfl⟩ | hp | ⟨-, rfl⟩
  · exact oneLine_ofText fun hm => hl (hi.subset hm)
  · exact oneLine_ofNumber n
  · exact oneLine_of_parse hp
  · exact oneLine_var fun hm => hl ((isInfix_trim cs).subset hm)

end Expr

/-! ## Conditions and values -/

namespace Condition

variable {cs : List Char} {c : Condition}

theorem oneLine_compare {l r : Expr} (relation : Relation) (hl : '\n' ∉ l.chars)
    (hr : '\n' ∉ r.chars) : '\n' ∉ (compare l relation r).chars := by
  have hs : '\n' ∉ relation.symbol.toList := by cases relation <;> decide
  simp only [chars, List.mem_append, List.mem_cons, not_or]
  exact ⟨⟨hl, by decide, hs⟩, by decide, hr⟩

theorem oneLine_join (k : Connective) {l r : Condition} (hl : '\n' ∉ l.chars)
    (hr : '\n' ∉ r.chars) : '\n' ∉ (join k l r).chars := by
  have hs : '\n' ∉ k.symbol.toList := by cases k <;> decide
  simp only [chars, List.mem_append, List.mem_cons, List.not_mem_nil, not_or]
  exact ⟨⟨⟨⟨by decide, hl⟩, by decide, hs⟩, by decide, hr⟩, by decide, by decide⟩

theorem oneLine_of_operand {e : Expr} (hl : '\n' ∉ cs) (h : operand cs = .ok e) :
    '\n' ∉ e.chars := by
  rcases operand_cases h with ⟨n, rfl⟩ | ⟨b, rfl⟩ | ⟨inside, hi, rfl⟩ | rfl
  · exact Expr.oneLine_ofNumber n
  · exact Expr.oneLine_ofBool b
  · exact Expr.oneLine_ofText fun hm => hl (hi.subset hm)
  · exact Expr.oneLine_var fun hm => hl ((isInfix_trim cs).subset hm)

theorem oneLine_of_clause (hl : '\n' ∉ cs) (h : clause cs = .ok c) : '\n' ∉ c.chars := by
  rcases clause_cases h with rfl | ⟨input, piece, hi, hp, rfl⟩ |
    ⟨name, r, right, e, -, hn, hr, -, ho, rfl⟩ | ⟨-, rfl⟩
  · decide
  · simp only [chars, String.toList_ofList, List.mem_append, not_or]
    exact ⟨⟨fun hm => hl (hi hm), by decide⟩, fun hm => hl (hp hm)⟩
  · exact oneLine_compare r (Expr.oneLine_var fun hm => hl (hn.subset hm))
      (oneLine_of_operand (fun hm => hl (hr.subset hm)) ho)
  · exact oneLine_compare _ (Expr.oneLine_var hl) (Expr.oneLine_ofBool true)

/-- **A condition that is read from one line is written on one line.** -/
theorem oneLine_of_parse (hl : '\n' ∉ cs) (h : parse cs = .ok c) : '\n' ∉ c.text.toList := by
  rw [text, String.toList_ofList]
  exact parse_induction (K := fun c => '\n' ∉ c.chars)
    (fun hp => oneLine_of_clause fun hm => hl (hp hm)) (fun k _ _ => oneLine_join k) h

end Condition

/-- **A value that is read from one line is written on one line.** -/
theorem Value.oneLine_of_read {cs : List Char} {v : Value} (hl : '\n' ∉ trim cs)
    (h : Value.read cs = .ok v) : '\n' ∉ v.text.toList := by
  rw [← Value.read_trim] at h
  rcases read_cases h with ⟨model, input, e, hm, hi, he, rfl⟩ | ⟨c, hc, rfl⟩ | ⟨e, he, rfl⟩
  · have hmodel : '\n' ∉ model := (IsSolid.of_isWordRun hm).isFree.oneLine
    rw [text, Expr.text, String.toList_ofList]
    exact Expr.oneLine_classify hmodel (Expr.oneLine_of_read (fun hm => hl (hi.subset hm)) he)
  · rw [trim_trim] at hc
    exact Condition.oneLine_of_parse hl hc
  · rw [trim_trim] at he
    rw [text, Expr.text, String.toList_ofList]
    exact Expr.oneLine_of_read hl he

end FlowScript
