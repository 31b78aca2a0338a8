import FlowScript.Expr.Parser
import FlowScript.Proofs.Token

/-!
# Tokens with blanks between them

A token that has been cut off a text is cut off again wherever it stands alone, although it may have
been found in front of a letter or of a digit of another script. So the tokens of a text, written
one behind the other with single blanks between them, are the tokens of what is written, and they
are read as the same expression.

## Main definitions

* `Token.spaced`: tokens with a blank between any two of them.

## Main statements

* `Token.scan_spaced`: tokens with blanks between them are cut off again.
* `Expr.parse_spaced_scan`: a text and its tokens with blanks between them are read alike.
-/
namespace FlowScript

open Text

namespace Token

variable {t : Token} {ts : List Token}

/-- Tokens as they are written with a blank between any two of them. -/
def spaced (ts : List Token) : List Char :=
  [' '].intercalate (ts.map chars)

theorem spaced_singleton (t : Token) : spaced [t] = t.chars :=
  List.intercalate_singleton

theorem spaced_cons_cons (t u : Token) (ts : List Token) :
    spaced (t :: u :: ts) = t.chars ++ ' ' :: spaced (u :: ts) := by
  rw [spaced, List.map_cons, List.map_cons, List.intercalate_cons_cons, List.append_assoc,
    List.singleton_append, ← List.map_cons, ← spaced]

section Whole

variable (hw : ∀ t ∈ ts, t.Whole)
include hw

/-- Each token ends at the blank behind it. -/
theorem scanAfter_spaced : scanAfter 0 (spaced ts) = ts := by
  induction ts with
  | nil => rfl
  | cons t ts ih =>
    have ht := hw t List.mem_cons_self
    cases ts with
    | nil =>
      have h := scanAfter_append_of_whole ht breaks_nil
      rwa [List.append_nil, ← spaced_singleton] at h
    | cons u ts =>
      rw [spaced_cons_cons, scanAfter_append_of_whole ht (breaks_blank _), scanAfter_blank,
        ih fun v hv => hw v (List.mem_cons_of_mem _ hv)]

theorem not_isDropped_spaced : ∀ c ∈ spaced ts, isDropped c = false := by
  induction ts with
  | nil => simp [spaced]
  | cons t ts ih =>
    have ht := hw t List.mem_cons_self
    cases ts with
    | nil =>
      rw [spaced_singleton]
      exact fun c hc => ht.not_isDropped hc
    | cons u ts =>
      rw [spaced_cons_cons]
      intro c hc
      rcases List.mem_append.1 hc with hc | hc
      · exact ht.not_isDropped hc
      · rcases List.mem_cons.1 hc with rfl | hc
        · rfl
        · exact ih (fun v hv => hw v (List.mem_cons_of_mem _ hv)) c hc

/-- There are no blanks at the ends of a token, and none at those of several ones. -/
theorem isFree_spaced (hne : ts ≠ []) : IsFree (spaced ts) := by
  induction ts with
  | nil => exact absurd rfl hne
  | cons t ts ih =>
    have ht := (hw t List.mem_cons_self).isSolid.isFree
    cases ts with
    | nil => rwa [spaced_singleton]
    | cons u ts =>
      rw [spaced_cons_cons]
      have hblank : '\n' ∉ [' '] := by decide
      have hts := ih (fun v hv => hw v (List.mem_cons_of_mem _ hv)) (by simp)
      exact ht.append hts hblank

/-- **Tokens with blanks between them are cut off again.** -/
theorem scan_spaced : scan (spaced ts) = ts := by
  have htrim : trim (spaced ts) = spaced ts := by
    by_cases hne : ts = []
    · subst hne
      rfl
    · exact (isFree_spaced hw hne).trim_eq
  have hkept : (spaced ts).filter (!isDropped ·) = spaced ts :=
    List.filter_eq_self.2 fun c hc => by simp [not_isDropped_spaced hw c hc]
  rw [scan, cleaned, hkept, htrim, scanAfter_spaced hw]

end Whole

/-- The tokens of a text can be cut off again. -/
theorem whole_of_mem_scan {cs : List Char} (h : t ∈ scan cs) : t.Whole :=
  (of_mem_scanAfter h).2

end Token

/-- **A text and its tokens with blanks between them are read alike**: they are cut into the same
tokens, and they are the same expression, no expression, or at fault alike. -/
theorem Expr.parse_spaced_scan (cs : List Char) :
    Token.scan (Token.spaced (Token.scan cs)) = Token.scan cs ∧
      Expr.parse (Token.spaced (Token.scan cs)) = Expr.parse cs := by
  have h : Token.scan (Token.spaced (Token.scan cs)) = Token.scan cs :=
    Token.scan_spaced fun _ => Token.whole_of_mem_scan
  exact ⟨h, by rw [parse, parse, h]⟩

example : Token.spaced (Token.scan "1.5x".toList) = "1 5x".toList := by decide

end FlowScript
