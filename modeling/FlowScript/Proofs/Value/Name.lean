import FlowScript.Proofs.Expr.Digits
import FlowScript.Proofs.Expr.Printed
import FlowScript.Proofs.Text.Keyword
import FlowScript.Proofs.Value.Counter

/-!
# Names as values

A variable is named by a word of letters and numerals of any script, but the words of expressions
are of ASCII, and every other letter is passed over there. A name is a variable again when it is the
value of another one if it is one token as a whole, or if its tokens are no expression: none at all,
or more than one. A name of which one token is left is read as that token.

## Main definitions

* `Expr.IsReadable`: the names that are read as the variables that they name.

## Main statements

* `Value.read_name_iff`: which names are read as variables, on their own and in values.
* `Value.read_ascii`: names of ASCII are.
-/
namespace FlowScript

open Text

variable {name cs : List Char}

/-! ## Words are neither quoted nor questions nor conditions -/

/-- A name is a word, up to one final line feed. -/
theorem isWordRun_trim {s : String} (h : isIdentifier s) : isWordRun (trim s.toList) := by
  simp only [isIdentifier] at h
  split at h
  · rename_i hl
    have hs : s.toList = s.toList.dropLast ++ ['\n'] := by
      rw [← List.dropLast_append_getLast? '\n' hl]
      simp
    rwa [hs, trim_append_blank (by decide), trim_of_solid (IsSolid.of_isWordRun h).solid]
  · rwa [trim_of_solid (IsSolid.of_isWordRun h).solid]

theorem unquote?_of_isWordRun (h : isWordRun name) : unquote? name = none := by
  cases name with
  | nil => rfl
  | cons c cs =>
    have hc : ¬ (c = '\x27' ∨ c = '\x22') := by
      rintro (rfl | rfl) <;> exact notMem_of_isWordRun h (by decide) List.mem_cons_self
    rw [unquote?, if_neg hc]

theorem Value.question?_of_isWordRun (h : isWordRun name) : question? name = none := by
  have hsolid := (IsSolid.of_isWordRun h).solid
  simp only [question?, Scan.either, Scan.keyword_gap_of_solid hsolid]
  rfl

/-- A word is read as a value as it is read as an expression. -/
theorem Value.read_of_isWordRun (h : isWordRun name) :
    Value.read name = (Expr.read name).map .expr := by
  have htrim := (IsSolid.of_isWordRun h).isFree.trim_eq
  have hand : hasPair '&' name = false := hasPair_eq_false (notMem_of_isWordRun h (by decide))
  have hor : hasPair '|' name = false := hasPair_eq_false (notMem_of_isWordRun h (by decide))
  simp only [Value.read, htrim, question?_of_isWordRun h, isConditional, hand, hor, Bool.or_self,
    Bool.and_false, Bool.false_eq_true, if_false]
  rfl

/-! ## Tokens of words -/

namespace Token

/-- Whether a token is an integer or a word. -/
def isOperand : Token → Bool
  | number _ none => true
  | word _ => true
  | _ => false

/-- The tokens of a word are integers and words. -/
theorem isOperand_of_mem_scan (h : isWordRun name) {t : Token} (ht : t ∈ scan name) :
    t.isOperand := by
  have hsub : t.chars ⊆ name := by
    have hi := (of_mem_scanAfter ht).1.trans (isInfix_trim _)
    exact List.Subset.trans hi.subset (List.filter_subset_self _)
  have hno {c : Char} (hc : isWord c = false) : c ∉ t.chars :=
    fun hm => notMem_of_isWordRun h hc (hsub hm)
  cases t with
  | number whole fraction =>
    cases fraction with
    | none => rfl
    | some fraction => exact absurd (by simp [chars]) (hno (c := '.') (by decide))
  | word word => rfl
  | operator op =>
    exact absurd (by simp [chars]) (hno (c := op.symbol) (by cases op <;> decide))
  | leftParen => exact absurd (by simp [chars]) (hno (c := '(') (by decide))
  | rightParen => exact absurd (by simp [chars]) (hno (c := ')') (by decide))

end Token

namespace Expr

/-- Integers and words derive nothing if they stand side by side. -/
theorem Derives.eq_singleton {n : Nat} {k : Rank} {ts : List Token} {e : Expr}
    (h : Derives n k ts e) (hts : ∀ t ∈ ts, t.isOperand) : ∃ t, ts = [t] ∧ Stands t e := by
  induction h with
  | operand h => exact ⟨_, rfl, h⟩
  | group h ih => exact absurd (hts .leftParen (by simp)) (by decide)
  | product h ih => exact ih hts
  | sum h ih => exact ih hts
  | binary op hl hr ihl ihr =>
    exact absurd (hts (.operator op) (by simp)) (by simp [Token.isOperand])

/-- A word is read as an expression if it has one token. -/
theorem parse_word_iff (h : isWordRun name) {e : Expr} :
    parse name = .ok (some e) ↔ ∃ t, Token.scan name = [t] ∧ Stands t e := by
  rw [parse_eq_some_iff]
  constructor
  · rintro ⟨hd, -⟩
    exact hd.eq_singleton fun t ht => Token.isOperand_of_mem_scan h ht
  · rintro ⟨t, ht, hs⟩
    rw [ht]
    exact ⟨.sum (.product (.operand hs)), by simp [hs.not_isOperator]⟩

/-! ## Names as expressions -/

/-- The names that are read as the variables that they name: the tokens of such a name do not start
with an integer that is too long, and if there is only one, then it is the name. -/
structure IsReadable (name : List Char) : Prop where
  isWordRun : isWordRun name
  short : ¬ OverlongOperand name
  whole : ∀ t, Token.scan name = [t] → t = .word name

/-- A word that is no number is an expression or else a variable. -/
theorem read_word (h : isWordRun name) (hn : number? name = .ok none) :
    Expr.read name = (parse name).map (·.getD (.var (String.ofList name))) := by
  simp only [Expr.read, (IsSolid.of_isWordRun h).isFree.trim_eq, unquote?_of_isWordRun h, hn, h,
    bind, Except.bind, pure, Except.pure, if_true]
  cases parse name with
  | error f => rfl
  | ok e => cases e <;> rfl

theorem ofWord_eq_var (h : truth? name = none) : ofWord name = .var (String.ofList name) := by
  rw [ofWord, h]

/-- What stands for a variable is a word, which is its name. -/
theorem Stands.eq_word {t : Token} {s : String} (h : Stands t (.var s)) : t = .word s.toList := by
  generalize he : Expr.var s = e at h
  cases h with
  | number h =>
    unfold ofNumeral at h
    split at h
    · obtain rfl := Except.ok.inj h
      simp [ofNumber] at he
    · simp at h
  | word name =>
    unfold ofWord at he
    split at he
    · simp [ofBool] at he
    · rw [Expr.var.inj he, String.toList_ofList]

/-- One token is read, unless it is an integer that is too long. -/
theorem exists_stands {t : Token} (ht : t.isOperand) (hs : Token.scan name = [t])
    (hshort : ¬ OverlongOperand name) : ∃ e, Stands t e := by
  cases t with
  | number whole fraction =>
    cases fraction with
    | none =>
      cases hw : ofNumeral whole none with
      | ok e => exact ⟨e, .number hw⟩
      | error halt =>
        obtain ⟨f, rfl⟩ : ∃ f, halt = .fault f := by
          unfold ofNumeral at hw
          split at hw
          · simp at hw
          · exact ⟨_, (Except.error.inj hw).symm⟩
        obtain ⟨-, hl, -⟩ := ofNumeral_eq_fault_iff.1 hw
        exact absurd ⟨[], whole, [], .start, hs, hl, rfl, rfl⟩ hshort
    | some fraction => simp [Token.isOperand] at ht
  | word word => exact ⟨_, .word word⟩
  | _ => simp [Token.isOperand] at ht

/-- A name that is read as a variable is a word. -/
theorem isWordRun_of_read (h : isWordRun name) (hn : number? name = .ok none) {s : String}
    (hr : Expr.read name = .ok (.var s)) : isWordRun s.toList := by
  rw [read_word h hn] at hr
  cases hp : parse name with
  | error f => simp [hp, Except.map] at hr
  | ok e =>
    cases e with
    | none =>
      obtain rfl : String.ofList name = s := by simpa [hp, Except.map] using hr
      rwa [String.toList_ofList]
    | some e =>
      obtain rfl : e = .var s := by simpa [hp, Except.map] using hr
      obtain ⟨t, ht, hs⟩ := (parse_word_iff h).1 hp
      have hmem : t ∈ Token.scan name := ht ▸ List.mem_singleton_self t
      have hw : (Token.word s.toList).Whole := hs.eq_word ▸ (Token.of_mem_scanAfter hmem).2
      exact isWordRun_iff.2 ⟨hw.chars_ne_nil, fun c hc => isWord_of_isAsciiWord (hw.1 c hc)⟩

/-- **The words that are read as the variables that they name.** -/
theorem read_eq_var_iff (h : isWordRun name) (hn : number? name = .ok none)
    (ht : truth? name = none) :
    Expr.read name = .ok (.var (String.ofList name)) ↔ IsReadable name := by
  rw [read_word h hn]
  constructor
  · intro hr
    have hshort : ¬ OverlongOperand name := fun ho => by
      obtain ⟨f, hf⟩ := parse_eq_error_iff.2 ho
      simp [hf, Except.map] at hr
    refine ⟨h, hshort, fun t hs => ?_⟩
    have hmem := Token.isOperand_of_mem_scan h (hs ▸ List.mem_singleton_self t)
    obtain ⟨e, he⟩ := exists_stands hmem hs hshort
    rw [(parse_word_iff h).2 ⟨t, hs, he⟩] at hr
    obtain rfl : e = .var (String.ofList name) := by simpa [Except.map] using hr
    rw [he.eq_word, String.toList_ofList]
  · rintro ⟨-, hshort, hwhole⟩
    cases hp : parse name with
    | error f => exact absurd (parse_eq_error_iff.1 ⟨f, hp⟩) hshort
    | ok e =>
      cases e with
      | none => rfl
      | some e =>
        obtain ⟨t, hs, he⟩ := (parse_word_iff h).1 hp
        obtain rfl := hwhole t hs
        cases he with
        | word _ => rw [ofWord_eq_var ht]; rfl

theorem not_overlongOperand (h : ∀ digits, .number digits none ∉ Token.scan cs) :
    ¬ OverlongOperand cs := by
  rintro ⟨before, digits, after, r, hs, -⟩
  exact h digits (by simp [hs])

/-- The names of ASCII are among them. -/
theorem isReadable_of_ascii (hne : name ≠ []) (h : ∀ c ∈ name, isAsciiWord c)
    (hn : number? name = .ok none) (ht : truth? name = none) : IsReadable name := by
  have hrun : isWordRun name := isWordRun_iff.2 ⟨hne, fun c hc => isWord_of_isAsciiWord (h c hc)⟩
  have hdigit : ∃ c ∈ name, isDigit c = false := by
    by_contra hall
    have hd : name.all isDigit := by simpa using hall
    have hread : Numeral.read? ([] ++ name) = _ := Numeral.read?_digits (by simp) hd hne
    rw [List.nil_append] at hread
    simp only [number?, (IsSolid.of_isWordRun hrun).isFree.trim_eq, hread] at hn
    generalize Numeral.value _ = v at hn
    cases v <;> simp [Except.map] at hn
  have hscan : Token.scan name = [.word name] := by
    have hw : Written (.var (String.ofList name)) [.word name] :=
      .operand ⟨h, hdigit⟩ (by simp [Token.chars, chars]) (ofWord_eq_var ht ▸ .word name)
    simpa [chars] using hw.scan_chars
  refine ⟨hrun, not_overlongOperand fun digits => ?_, fun t hs => ?_⟩
  · rw [hscan]
    simp
  · rw [hscan] at hs
    exact (List.singleton_inj.1 hs).symm

end Expr

/-! ## Names as values -/

namespace Value

/-- **A variable that is written is read again exactly if its name is readable.** A name that is no
number and no truth value is read as a value as it is as an expression. -/
theorem read_name_iff {s : String} (hs : isIdentifier s) (hn : number? s.toList = .ok none)
    (ht : Expr.truth? s.toList = none) :
    Value.read s.toList = (Expr.read s.toList).map .expr ∧
      (Expr.read s.toList = .ok (.var s) ↔ Expr.IsReadable s.toList) := by
  have hrun := isWordRun_trim hs
  have hself (h : isWordRun s.toList) : trim s.toList = s.toList :=
    (IsSolid.of_isWordRun h).isFree.trim_eq
  refine ⟨?_, fun hr => ?_, fun hr => ?_⟩
  · rw [← Value.read_trim, ← Expr.read_trim, read_of_isWordRun hrun]
  · have hword : isWordRun s.toList := by
      refine Expr.isWordRun_of_read hrun ?_ ((Expr.read_trim _).trans hr)
      rw [number?, trim_trim]
      exact hn
    exact (Expr.read_eq_var_iff hword hn ht).1 (by rwa [String.ofList_toList])
  · have hread := (Expr.read_eq_var_iff hr.isWordRun hn ht).2 hr
    rwa [String.ofList_toList] at hread

/-- A letter beyond ASCII is passed over if a single word is left, but not between two words. -/
theorem read_name_accent :
    (Value.read "aé".toList = .ok (.expr (.var "a")) ∧ ¬ Expr.IsReadable "aé".toList) ∧
      Value.read "aéb".toList = .ok (.expr (.var "aéb")) := by
  have hend := read_name_iff (by decide +kernel : isIdentifier "aé") (by decide +kernel)
    (by decide +kernel)
  have hmiddle := read_name_iff (by decide +kernel : isIdentifier "aéb") (by decide +kernel)
    (by decide +kernel)
  refine ⟨⟨hend.1.trans (by decide +kernel), fun h => ?_⟩, ?_⟩
  · exact absurd (hend.2.2 h) (by decide +kernel)
  · rw [hmiddle.1, hmiddle.2.2 ?_]
    · rfl
    · have hscan : Token.scan "aéb".toList = [.word ['a'], .word ['b']] := by decide +kernel
      refine ⟨by decide +kernel, Expr.not_overlongOperand fun digits => ?_, fun t ht => ?_⟩
      · rw [hscan]
        simp
      · rw [hscan] at ht
        simp at ht

/-- Names of ASCII are read as the variables that they name. -/
theorem read_ascii {s : String} (hne : s.toList ≠ []) (h : ∀ c ∈ s.toList, isAsciiWord c)
    (hn : number? s.toList = .ok none) (ht : Expr.truth? s.toList = none) :
    Value.read s.toList = .ok (.expr (.var s)) := by
  have hr := Expr.isReadable_of_ascii hne h hn ht
  rw [read_of_isWordRun hr.isWordRun, (Expr.read_eq_var_iff hr.isWordRun hn ht).2 hr,
    String.ofList_toList]
  rfl

end Value
end FlowScript
