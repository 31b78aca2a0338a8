import FlowScript.Proofs.Token
import Mathlib.Data.List.DropRight

/-!
# Where tokens stand

Tokens are cut off a text from its start to its end, so that they stand in it one behind the other,
and no letter, operator or parenthesis between them is lost. The brackets that are dropped are
dropped before that. So such brackets may stand inside of what becomes one token, but what anything
else keeps apart is never joined.

## Main definitions

* `Token.isRead`: the characters that are never passed over.
* `Token.Stretches`: stretches of a text, one behind the other.

## Main statements

* `Token.stretches_scanAfter`: the tokens that are cut off a text are stretches of it.
* `Token.scan_stretches`: the tokens of a text are stretches of it without the brackets in them.
-/
namespace FlowScript.Token

open Text

variable {cs gap : List Char} {parts : List (List Char)}

/-- A letter, digit or underscore of ASCII, an operator or a parenthesis: what is never passed
over. -/
def isRead (c : Char) : Bool :=
  isAsciiWord c || punctuation.contains c

/-- The text without the brackets that are dropped. -/
def bare (cs : List Char) : List Char :=
  cs.filter (!isDropped ·)

/-- A text neither starts nor ends with a bracket that is dropped. -/
structure IsTight (cs : List Char) : Prop where
  head : ∀ c ∈ cs.head?, isDropped c = false
  last : ∀ c ∈ cs.getLast?, isDropped c = false

/-- Tight stretches of a text, one behind the other. What lies before, between and behind them may
be passed over. -/
inductive Stretches : List (List Char) → List Char → Prop
  | nil {gap : List Char} (hg : gap.any isRead = false) : Stretches [] gap
  | cons {gap stretch rest : List Char} {stretches : List (List Char)}
      (hg : gap.any isRead = false) (ht : IsTight stretch) (h : Stretches stretches rest) :
      Stretches (stretch :: stretches) (gap ++ (stretch ++ rest))

/-! ## What may be passed over -/

theorem at?_ne_none_of_isRead {c : Char} (h : isRead c) (cs : List Char) : at? (c :: cs) ≠ none := by
  rw [isRead, Bool.or_eq_true] at h
  rcases h with hw | hp
  · unfold at?
    cases numberAt? (c :: cs) with
    | none => simp [hw]
    | some t => simp
  · exact at?_ne_none_of_punctuation (by simpa using hp) cs

theorem not_isRead_of_isBlank {c : Char} (h : isBlank c) : isRead c = false := by
  have hplain : punctuation.all (!isBlank ·) := by decide
  rw [isRead, Bool.or_eq_false_iff]
  constructor
  · by_contra hw
    simp [not_isBlank_of_isAsciiWord (by simpa using hw)] at h
  · by_contra hp
    have := List.all_eq_true.1 hplain c (by simpa using hp)
    simp [h] at this

theorem not_isRead_of_isDropped {c : Char} (h : isDropped c) : isRead c = false := by
  simp only [isDropped, Bool.or_eq_true, beq_iff_eq] at h
  rcases h with ((rfl | rfl) | rfl) | rfl <;> decide

/-! ## The ends of a text -/

/-- A text is what is left of it without the characters of a class at its ends, between these. If
they may be passed over, then so may all that is taken away. -/
theorem exists_ends {p : Char → Bool} (hp : ∀ c, p c → isRead c = false) (cs : List Char) :
    ∃ front back, cs = front ++ ((cs.dropWhile p).rdropWhile p ++ back) ∧ (∀ c ∈ front, p c) ∧
      (∀ c ∈ back, p c) ∧ front.any isRead = false ∧ back.any isRead = false := by
  have hpass {bs : List Char} (hb : ∀ c ∈ bs, p c) : bs.any isRead = false :=
    List.any_eq_false.2 fun c hc => by simp [hp c (hb c hc)]
  have hfront : ∀ c ∈ cs.takeWhile p, p c := fun c hc => List.mem_takeWhile_imp hc
  have hback : ∀ c ∈ (cs.dropWhile p).rtakeWhile p, p c := fun c hc => List.mem_rtakeWhile_imp hc
  refine ⟨_, _, ?_, hfront, hback, hpass hfront, hpass hback⟩
  rw [List.rdropWhile_append_rtakeWhile, List.takeWhile_append_dropWhile]

theorem bare_append (as bs : List Char) : bare (as ++ bs) = bare as ++ bare bs :=
  List.filter_append ..

theorem bare_eq_nil (h : ∀ c ∈ cs, isDropped c) : bare cs = [] :=
  List.filter_eq_nil_iff.2 fun c hc => by simp [h c hc]

theorem any_isRead_bare (cs : List Char) : (bare cs).any isRead = cs.any isRead := by
  rw [bare, List.any_filter]
  congr 1
  funext c
  cases hd : isDropped c with
  | true => simp [not_isRead_of_isDropped hd]
  | false => simp

/-- Between brackets that are dropped lies a tight stretch. -/
theorem exists_isTight (cs : List Char) :
    ∃ front stretch back, cs = front ++ (stretch ++ back) ∧ front.any isRead = false ∧
      back.any isRead = false ∧ IsTight stretch ∧ bare stretch = bare cs := by
  obtain ⟨front, back, happ, hf, hb, hfront, hback⟩ :=
    exists_ends (fun _ => not_isRead_of_isDropped) cs
  refine ⟨front, _, back, happ, hfront, hback, ⟨fun c hc => ?_, fun c hc => ?_⟩, ?_⟩
  · obtain ⟨more, hmore⟩ := List.rdropWhile_prefix isDropped (cs.dropWhile isDropped)
    have hhead := List.head?_dropWhile_not isDropped cs
    rwa [← hmore, List.head?_append, hc] at hhead
  · obtain ⟨hne, rfl⟩ := List.mem_getLast?_eq_getLast hc
    simpa using List.rdropWhile_last_not isDropped _ hne
  · conv_rhs => rw [happ]
    rw [bare_append, bare_append, bare_eq_nil hf, bare_eq_nil hb, List.append_nil, List.nil_append]

/-! ## Stretches -/

namespace Stretches

theorem append_left (h : Stretches parts cs) (hg : gap.any isRead = false) :
    Stretches parts (gap ++ cs) := by
  cases h with
  | nil hg' => exact .nil (by simp [List.any_append, hg, hg'])
  | cons hg' ht h =>
    rw [← List.append_assoc]
    exact .cons (by simp [List.any_append, hg, hg']) ht h

theorem append_right (h : Stretches parts cs) (hg : gap.any isRead = false) :
    Stretches parts (cs ++ gap) := by
  induction h with
  | nil hg' => exact .nil (by simp [List.any_append, hg, hg'])
  | cons hg' ht h ih =>
    rw [List.append_assoc, List.append_assoc]
    exact .cons hg' ht ih

/-- Blanks at the ends of a text do not matter. -/
theorem of_trim (h : Stretches parts (trim cs)) : Stretches parts cs := by
  obtain ⟨front, back, happ, -, -, hfront, hback⟩ :=
    exists_ends (fun _ => not_isRead_of_isBlank) cs
  rw [happ]
  exact (h.append_right hback).append_left hfront

/-- Brackets that are dropped may stand anywhere, also inside of a stretch. -/
theorem of_bare (h : Stretches parts (bare cs)) :
    ∃ stretches, Stretches stretches cs ∧ stretches.map bare = parts := by
  generalize hb : bare cs = text at h
  induction h generalizing cs with
  | nil hg => exact ⟨[], .nil (by rw [← any_isRead_bare, hb, hg]), rfl⟩
  | cons hg ht h ih =>
    obtain ⟨gap, more, rfl, hgap, hmore⟩ := List.filter_eq_append_iff.1 hb
    obtain ⟨part, rest, rfl, hpart, hrest⟩ := List.filter_eq_append_iff.1 hmore
    obtain ⟨stretches, hs, rfl⟩ := ih hrest
    obtain ⟨front, stretch, back, rfl, hfront, hback, hstretch, hbare⟩ := exists_isTight part
    refine ⟨stretch :: stretches, ?_, by rw [List.map_cons, hbare, bare, hpart]⟩
    have hg' : gap.any isRead = false := by rw [← any_isRead_bare, bare, hgap, hg]
    rw [List.append_assoc, List.append_assoc, ← List.append_assoc]
    exact .cons (by simp [List.any_append, hg', hfront]) hstretch (hs.append_left hback)

end Stretches

/-! ## Tokens -/

/-- Nothing of a token is dropped. -/
theorem Whole.isTight {t : Token} (h : t.Whole) : IsTight t.chars :=
  ⟨fun _ hc => h.not_isDropped (List.mem_of_mem_head? hc),
    fun _ hc => h.not_isDropped (List.mem_of_getLast? hc)⟩

/-- The tokens that are cut off a text behind some characters stand there one behind the other. -/
theorem stretches_scanAfter (n : Nat) (cs : List Char) :
    Stretches ((scanAfter n cs).map chars) (cs.drop n) := by
  induction cs generalizing n with
  | nil => simpa [scanAfter] using Stretches.nil rfl
  | cons c cs ih =>
    cases n with
    | succ n => exact ih n
    | zero =>
      cases ha : at? (c :: cs) with
      | none =>
        have hc : [c].any isRead = false := by
          by_contra hk
          exact at?_ne_none_of_isRead (by simpa using hk) cs ha
        simp only [scanAfter, ha]
        exact (ih 0).append_left hc
      | some t =>
        simp only [scanAfter, ha, List.map_cons, List.drop_zero]
        rw [← at?_append_drop ha]
        have hgap : [].any isRead = false := rfl
        exact .cons hgap (of_at?_eq_some ha).2.isTight (ih _)

/-- **The tokens of a text are stretches of it without the brackets that are dropped**, one behind
the other, and nothing between them has to be read. -/
theorem scan_stretches (cs : List Char) :
    ∃ stretches, Stretches stretches cs ∧ stretches.map bare = (scan cs).map chars :=
  (stretches_scanAfter 0 (cleaned cs)).of_trim.of_bare

/-- A bracket joins what stands on both of its sides, so that a token need not stand in its text. -/
theorem scan_not_infix : ¬ ∀ t ∈ scan "a<b".toList, t.chars <:+: "a<b".toList := by
  decide

end FlowScript.Token
