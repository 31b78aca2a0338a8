import FlowScript.Proofs.Name
import FlowScript.Proofs.Text.Trim
import FlowScript.Proofs.Token
import FlowScript.Value.Parser

/-!
# Counting up

The texts of the values that the counter of a loop is given are read as these values: zero, and the
counter plus one.

## Main definitions

* `IsCounter`: names that are read as variables, whatever surrounds them.

## Main statements

* `Value.read_trim`, `Expr.read_trim`: blanks at the ends of a value do not matter.
* `Value.read_zero`, `Value.read_succ`: the values of a counter are read from their texts.
-/
namespace FlowScript

open Text

theorem Expr.read_trim (cs : List Char) : Expr.read (trim cs) = Expr.read cs := by
  simp only [Expr.read, trim_trim]

theorem Value.read_trim (cs : List Char) : Value.read (trim cs) = Value.read cs := by
  simp only [Value.read, trim_trim]

/-- A name of ASCII word characters that starts with an underscore. -/
structure IsCounter (name : List Char) : Prop where
  head : name.head? = some '_'
  ascii : ∀ c ∈ name, isAsciiWord c

variable {name : List Char}

theorem isCounter_loopCounter {n : Int} (hn : 0 ≤ n) : IsCounter (loopCounter (stepId n)).toList := by
  have hs : (loopCounter (stepId n)).toList =
      ("_loop_counter_".toList ++ "step".toList) ++ Nat.toDigits 10 n.toNat := by
    simp [loopCounter, toList_stepId hn]
  rw [hs]
  refine ⟨by simp, fun c hc => ?_⟩
  rcases List.mem_append.1 hc with hc | hc
  · have hw : ("_loop_counter_".toList ++ "step".toList).all isAsciiWord := by decide
    exact List.all_eq_true.1 hw c hc
  · simp [isAsciiWord, Char.isAlphanum, Nat.isDigit_of_mem_toDigits (by decide) (by decide) hc]

theorem IsCounter.isSolid (h : IsCounter name) : IsSolid name := by
  refine ⟨?_, fun c hc => not_isBlank_of_isAsciiWord (h.ascii c hc)⟩
  rintro rfl
  simpa using h.head

namespace Token

/-- A name is one token. -/
theorem scanAfter_name (h : IsCounter name) (cs : List Char) :
    scanAfter 0 (name ++ ' ' :: cs) = word name :: scanAfter 0 cs := by
  have hw : (word name).Whole :=
    ⟨h.ascii, '_', List.mem_of_mem_head? h.head, by decide⟩
  exact scanAfter_append_of_whole hw (breaks_blank cs)

end Token

/-- The text of the counter plus one. -/
def succText (name : List Char) : List Char :=
  name ++ [' ', '+', ' ', '1']

theorem not_mem_succText (h : IsCounter name) {c : Char} (hc : isAsciiWord c = false)
    (hs : c ≠ ' ') (hp : c ≠ '+') : c ∉ succText name := by
  have hn : c ∉ name := fun hm => by simp [h.ascii c hm] at hc
  have h1 : c ≠ '1' := by
    rintro rfl
    exact absurd hc (by decide)
  simp [succText, hn, hs, hp, h1]

theorem isFree_succText (h : IsCounter name) : IsFree (succText name) := by
  have hl : '\n' ∉ succText name := not_mem_succText h (by decide) (by decide) (by decide)
  obtain ⟨rest, rfl⟩ := List.head?_eq_some_iff.1 h.head
  have hs : succText ('_' :: rest) = '_' :: (rest ++ [' ', '+', ' ']) ++ ['1'] := by
    simp [succText]
  refine ⟨by simp [succText], ?_, hl⟩
  rw [hs]
  exact trim_eq_self (by decide) (by decide)

theorem Expr.truth?_counter (h : IsCounter name) : truth? name = none := by
  obtain ⟨rest, rfl⟩ := List.head?_eq_some_iff.1 h.head
  have hl : Char.toLower '_' = '_' := by decide
  simp [truth?, hl]

theorem Expr.parse_succ (h : IsCounter name) :
    Expr.parse (succText name) =
      .ok (some (.binary .add (.var (String.ofList name)) (.ofInt 1))) := by
  have hf : (succText name).filter (!Token.isDropped ·) = succText name := by
    refine List.filter_eq_self.2 fun c hc => ?_
    by_contra hd
    simp only [Token.isDropped, Bool.not_eq_true', Bool.not_eq_false, Bool.or_eq_true,
      beq_iff_eq] at hd
    rcases hd with ((rfl | rfl) | rfl) | rfl <;>
      exact not_mem_succText h (by decide) (by decide) (by decide) hc
  have hs : Token.scan (succText name) = [.word name, .operator .add, .number ['1'] none] := by
    rw [Token.scan, Token.cleaned, hf, (isFree_succText h).trim_eq, succText,
      Token.scanAfter_name h]
    rfl
  have hr : ofTokens [.word name, .operator .add, .number ['1'] none] =
      .ok (.binary .add (.var (String.ofList name)) (.ofInt 1)) := by
    simp only [ofTokens, List.foldlM_cons, Reading.step, Reading.start, ofWord, truth?_counter h]
    rfl
  rw [parse, hs, hr]

namespace Value

theorem hasPair_eq_false {c : Char} {cs : List Char} (h : c ∉ cs) : hasPair c cs = false := by
  induction cs with
  | nil => rfl
  | cons a cs ih =>
    cases cs with
    | nil => rfl
    | cons b cs =>
      simp only [List.mem_cons, not_or] at h
      rw [hasPair, ih (by simpa using h.2)]
      simp [Ne.symm h.1]

theorem toList_text_succ (name : String) :
    (Value.expr (.binary .add (.var name) (.ofInt 1))).text.toList = succText name.toList := by
  have h1 : (Expr.ofInt 1).chars = ['1'] := by decide
  have hl : (Expr.var name).looserThan .add = false := rfl
  have hr : (Expr.ofInt 1).noTighterThan .add = false := rfl
  rw [Value.text, Expr.text, String.toList_ofList, Expr.chars, hl, hr, h1]
  rfl

theorem read_zero : Value.read ['0'] = .ok (.expr (.ofInt 0)) := rfl

/-- **The counter plus one is read from its text.** -/
theorem read_succ (h : IsCounter name) :
    Value.read (succText name) =
      .ok (.expr (.binary .add (.var (String.ofList name)) (.ofInt 1))) := by
  have htrim := (isFree_succText h).trim_eq
  have ha : hasPair '&' (succText name) = false :=
    hasPair_eq_false (not_mem_succText h (by decide) (by decide) (by decide))
  have ho : hasPair '|' (succText name) = false :=
    hasPair_eq_false (not_mem_succText h (by decide) (by decide) (by decide))
  have hp := Expr.parse_succ h
  -- all other readings fail at the underscore
  obtain ⟨rest, hrest⟩ : ∃ rest, succText name = '_' :: rest := by
    obtain ⟨rest, rfl⟩ := List.head?_eq_some_iff.1 h.head
    exact ⟨_, rfl⟩
  have hq : question? (succText name) = none := by
    rw [hrest]
    rfl
  have hu : unquote? (succText name) = none := by
    rw [hrest]
    rfl
  have hn : number? (succText name) = .ok none := by
    rw [number?, htrim, hrest]
    rfl
  have he : Expr.read (succText name) =
      .ok (.binary .add (.var (String.ofList name)) (.ofInt 1)) := by
    simp only [Expr.read, htrim, hu, hn, hp, bind, Except.bind, pure, Except.pure]
  simp only [Value.read, htrim, hq, isConditional, hu, ha, ho, he, bind, Except.bind, pure,
    Except.pure]
  rfl

end Value
end FlowScript
