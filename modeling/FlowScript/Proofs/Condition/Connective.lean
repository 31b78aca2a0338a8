import FlowScript.Condition.Parser
import FlowScript.Proofs.Text.Keyword

/-!
# Texts cut at a connective

A text is cut at the first connective that has something on either side. What stands to the left of
the cut is not cut again, as long as the text is one line: a connective in it would have been taken
first.

## Main statements

* `Condition.connectiveAt?_eq_some_iff`: where a connective is found.
* `Condition.joined?_eq_none`: a text without connectives is not cut.
* `Condition.joined?_append`: a text is cut behind a part without connectives.
* `Condition.joined?_trim_left`: the left side of a cut is not cut again.
* `Condition.split?_eq_some`: the two sides of a cut.
-/
namespace FlowScript

open Text

/-! ## Symbols -/

namespace Connective

/-- A connective is one character written twice. -/
def char : Connective → Char
  | and => '&'
  | or => '|'

theorem toList_symbol (k : Connective) : k.symbol.toList = [k.char, k.char] := by
  cases k <;> rfl

theorem not_isBlank_char (k : Connective) : isBlank k.char = false := by
  cases k <;> rfl

theorem not_isWord_char (k : Connective) : isWord k.char = false := by
  cases k <;> rfl

theorem symbol_ne_nil (k : Connective) : k.symbol.toList ≠ [] := by
  simp [toList_symbol]

theorem notMem_symbol {k : Connective} {c : Char} (h : c ≠ k.char) : c ∉ k.symbol.toList := by
  simp [toList_symbol, h]

theorem not_infix_of_notMem {k : Connective} {cs : List Char} (h : k.char ∉ cs) :
    ¬ k.symbol.toList <:+: cs := fun hi =>
  h (hi.subset (by simp [toList_symbol]))

/-- A connective with a blank on either side. -/
def padded (k : Connective) : List Char :=
  ' ' :: k.symbol.toList ++ [' ']

end Connective

namespace Condition

variable {cs part left right : List Char} {k : Connective}

/-! ## Connectives at a place -/

/-- Where a connective is found: behind blanks, in front of more than blanks on one line. -/
theorem connectiveAt?_eq_some_iff : connectiveAt? cs = some (k, right) ↔
    ∃ blanks after, cs = blanks ++ (k.symbol.toList ++ after) ∧ (∀ b ∈ blanks, isBlank b) ∧
      right = trimStart after ∧ right ≠ [] ∧ '\n' ∉ right := by
  constructor
  · intro h
    simp only [connectiveAt?, Option.filter_eq_some_iff, Bool.and_eq_true, Bool.not_eq_eq_eq_not,
      Bool.not_true, List.isEmpty_eq_false_iff, List.contains_eq_mem, decide_eq_false_iff_not] at h
    obtain ⟨h, hne, hl⟩ := h
    have hb : ∀ b ∈ cs.takeWhile isBlank, isBlank b := fun b hb => List.mem_takeWhile_imp hb
    have hcs : cs = cs.takeWhile isBlank ++ trimStart cs :=
      List.takeWhile_append_dropWhile.symm
    split at h
    · rename_i after ht
      obtain ⟨rfl, rfl⟩ : Connective.or = k ∧ trimStart after = right := by simpa using h
      exact ⟨_, after, hcs.trans (by rw [ht]; rfl), hb, rfl, hne, hl⟩
    · rename_i after ht
      obtain ⟨rfl, rfl⟩ : Connective.and = k ∧ trimStart after = right := by simpa using h
      exact ⟨_, after, hcs.trans (by rw [ht]; rfl), hb, rfl, hne, hl⟩
    · simp at h
  · rintro ⟨blanks, after, rfl, hb, rfl, hne, hl⟩
    have ht : trimStart (blanks ++ (k.symbol.toList ++ after)) = k.symbol.toList ++ after := by
      rw [trimStart_append_of_blank hb, k.toList_symbol, List.cons_append,
        trimStart_eq_self k.not_isBlank_char]
    simp only [connectiveAt?, ht]
    cases k <;> simp [Connective.symbol, hne, hl]

theorem trimStart_append {front : List Char} (h : trimStart front ≠ []) (back : List Char) :
    trimStart (front ++ back) = trimStart front ++ back := by
  have he : (front.dropWhile isBlank).isEmpty = false := List.isEmpty_eq_false_iff.2 h
  rw [trimStart, List.dropWhile_append, he]
  rfl

/-- A connective is found where it was when the line goes on. -/
theorem connectiveAt?_append {more : List Char} (h : connectiveAt? cs = some (k, right))
    (hm : '\n' ∉ more) : connectiveAt? (cs ++ more) = some (k, right ++ more) := by
  obtain ⟨blanks, after, rfl, hb, rfl, hne, hl⟩ := connectiveAt?_eq_some_iff.1 h
  refine connectiveAt?_eq_some_iff.2 ⟨blanks, after ++ more, by simp, hb, ?_, by simp [hne], ?_⟩
  · rw [trimStart_append hne]
  · simp [hl, hm]

/-- No connective is found in front of a part that holds none and does not end in blanks, when a
blank follows it. -/
theorem connectiveAt?_eq_none {back after : List Char} (hb : ¬ ∀ b ∈ back, isBlank b)
    (hk : ∀ k : Connective, ¬ k.symbol.toList <:+: back) :
    connectiveAt? (back ++ ' ' :: after) = none := by
  cases h : connectiveAt? (back ++ ' ' :: after) with
  | none => rfl
  | some found =>
    obtain ⟨k, right⟩ := found
    obtain ⟨blanks, more, hcs, hblanks, -⟩ := connectiveAt?_eq_some_iff.1 h
    have hd : ' ' ∉ k.symbol.toList := Connective.notMem_symbol (by cases k <;> decide)
    rcases append_cons_eq_append hcs hd k.symbol_ne_nil with ⟨rest, hback, -⟩ | ⟨rest, -, hfront⟩
    · exact absurd ⟨blanks, rest, by rw [hback, List.append_assoc]⟩ (hk k)
    · exact absurd (fun b hm => hblanks b (hfront ▸ List.mem_append_left _ hm)) hb

/-! ## Cuts -/

/-- A text without connectives is not cut. -/
theorem joined?_eq_none (hk : ∀ k : Connective, ¬ k.symbol.toList <:+: cs) : joined? cs = none := by
  cases h : joined? cs with
  | none => rfl
  | some found =>
    obtain ⟨part, k, right⟩ := found
    obtain ⟨after, rfl, -, -, ha, -⟩ := Scan.shortest_minimal h
    obtain ⟨blanks, more, rfl, -⟩ := connectiveAt?_eq_some_iff.1 ha
    exact absurd ⟨part ++ blanks, more, by simp⟩ (hk k)

/-- A text is cut behind a first part that holds no connective. -/
theorem joined?_append (hp : IsFree part) (hk : ∀ k : Connective, ¬ k.symbol.toList <:+: part)
    (hr : IsFree right) (k : Connective) :
    joined? (part ++ (k.padded ++ right)) = some (part, k, right) := by
  have ha : connectiveAt? (k.padded ++ right) = some (k, right) :=
    connectiveAt?_eq_some_iff.2 ⟨[' '], ' ' :: right, by simp [Connective.padded],
      List.forall_mem_singleton.2 rfl,
      by rw [trimStart_blank (by decide), hr.trimStart_eq], hr.ne_nil, hr.oneLine⟩
  refine Scan.shortest_append hp.ne_nil hp.oneLine ha ?_
  rintro front back rfl - hback
  exact connectiveAt?_eq_none (hp.not_blank hback)
    fun k hi => hk k (hi.trans (List.suffix_append _ _).isInfix)

/-- **The left side of a cut is not cut again**: a connective in it would have been taken first. -/
theorem joined?_trim_left (h : joined? cs = some (part, k, right)) (hl : '\n' ∉ cs) :
    joined? (trim part) = none := by
  obtain ⟨after, rfl, -, -, -, hmin⟩ := Scan.shortest_minimal h
  cases h' : joined? (trim part) with
  | none => rfl
  | some found =>
    obtain ⟨front, k', right'⟩ := found
    obtain ⟨back, hpart, hne, -, hback, -⟩ := Scan.shortest_minimal h'
    obtain ⟨before, behind, hp⟩ := isInfix_trim part
    have hsplit : part = (before ++ front) ++ (back ++ behind) := by
      rw [← hp, hpart]
      simp only [List.append_assoc]
    have hb : back ≠ [] := by
      rintro rfl
      exact absurd hback (by simp [connectiveAt?, trimStart])
    have hm : '\n' ∉ behind ++ after := by
      intro hm
      refine hl ?_
      rw [hsplit]
      rcases List.mem_append.1 hm with hm | hm <;> simp [hm]
    have hnone := hmin _ _ hsplit (by simp [hne]) (by simp [hb])
    rw [List.append_assoc, connectiveAt?_append hback hm] at hnone
    exact absurd hnone (by simp)

/-- The two sides of a cut, without the blanks around them. -/
theorem split?_eq_some (h : split? cs = some (left, k, right)) :
    ∃ part more, joined? cs = some (part, k, more) ∧ left = trim part ∧ right = trim more := by
  unfold split? at h
  split at h
  · simp at h
  · simp only [Option.map_eq_some_iff, Prod.mk.injEq] at h
    obtain ⟨⟨part, _, more⟩, hj, rfl, rfl, rfl⟩ := h
    exact ⟨part, more, hj, rfl, rfl⟩

theorem split?_of_joined? (h : joined? cs = none) : split? cs = none := by
  unfold split?
  split
  · rfl
  · rw [h]
    rfl

end Condition
end FlowScript
