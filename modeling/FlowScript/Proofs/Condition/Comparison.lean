import FlowScript.Proofs.Condition.Outline
import FlowScript.Proofs.Name

/-!
# Comparisons by symbol

A name, the symbol of a relation and an operand, with single blanks between them, are read as the
parts that they are if there is no blank in the operand. Whatever the operand is, such a text makes
no comparison in words.

## Main statements

* `Condition.comparison?_padded`: the parts of a comparison by symbol.
* `Comparative.parts?_padded`: a comparison by symbol is none in words.
* `Condition.parse_padded`: what a comparison by symbol is read as.
-/
namespace FlowScript

open Text

variable {name operand : List Char} {d : Char}

/-! ## Symbols -/

namespace Relation

/-- The symbol of a relation with a blank on either side. -/
def padded (r : Relation) : List Char :=
  ' ' :: r.symbol.toList ++ [' ']

/-- Symbols are not made of word characters. -/
theorem not_isWord_padded (r : Relation) : r.padded.any isWord = false := by
  cases r <;> decide

end Relation

namespace Condition

/-! ## Comparisons by symbol -/

/-- Between blanks a symbol is found as a whole. A shorter one does not stand for it when the operand
has blanks, since what follows it then has blanks, too. -/
theorem findSome?_rightOf? (name : List Char) (r : Relation) (hne : operand ≠ [])
    (ht : trimStart operand = operand) :
    (Relation.all.findSome? fun s =>
      (rightOf? s (r.symbol.toList ++ ' ' :: operand)).map fun right => (name, s, right)) =
        if operand.any isBlank then none else some (name, r, operand) := by
  have hb : isBlank ' ' = true := rfl
  have hwhole : trimStart (' ' :: operand) = operand := by rw [trimStart_blank hb, ht]
  have hshorter : trimStart ('=' :: ' ' :: operand) = '=' :: ' ' :: operand :=
    trimStart_eq_self (by decide) _
  simp only [rightOf?, ← String.length_toList]
  by_cases hx : ∃ c ∈ operand, isBlank c
  · cases r <;>
      simp [Relation.all, Relation.symbol, hwhole, hshorter, hne, hx, hb]
  · cases r <;> simp [Relation.all, Relation.symbol, hwhole, hne, hx]

/-- The parts of a comparison by symbol. -/
theorem comparison?_padded (hn : isWordRun name) (r : Relation) (hne : operand ≠ [])
    (ht : trimStart operand = operand) :
    comparison? (name ++ (r.padded ++ operand)) =
      if operand.any isBlank then none else some (name, r, operand) := by
  have hempty : name.isEmpty = false := by simpa using (IsSolid.of_isWordRun hn).ne_nil
  have hspace : ∀ c ∈ (r.padded ++ operand).head?, isWord c = false := by
    rintro c ⟨⟩
    rfl
  obtain ⟨hname, hdrop⟩ := takeWhile_run (isWordRun_iff.1 hn).2 hspace
  have hafter : afterName (name ++ (r.padded ++ operand)) = r.symbol.toList ++ ' ' :: operand := by
    rw [afterName, hdrop]
    cases r <;> rfl
  rw [comparison?_eq, hname, hafter, hempty]
  exact findSome?_rightOf? name r hne ht

end Condition

/-! ## Comparisons in words -/

namespace Comparative

variable {c : Comparative}

theorem head_isLower (hc : c ∈ all) :
    ∀ phrase ∈ c.spoken, (phrase.head?.bind (·.toList.head?)).any Char.isLower := by
  revert c
  decide

theorem phrased_eq_none (hc : c ∈ all) (hd : isWord d = false) (cs : List Char) :
    phrased c.spoken (d :: cs) = none := by
  refine List.findSome?_eq_none_iff.2 fun phrase hp => ?_
  have hl := head_isLower hc phrase hp
  cases phrase with
  | nil => simp at hl
  | cons w ws => exact Scan.keyword_eq_none (by simpa using hl) hd _ cs

/-- Where a phrase would have to stand there is none. -/
theorem read?_eq_none (hc : c ∈ all) (hn : isWordRun name) (hd : isWord d = false)
    (hb : isBlank d = false) (cs : List Char) : c.read? (name ++ ' ' :: d :: cs) = none := by
  have hplain : isPlainWord ' ' = false := rfl
  rw [read?_eq]
  split
  · simp only [Scan.some1]
    split
    · rfl
    · cases hr : name.dropWhile isPlainWord with
      | nil =>
        -- the plain name is the whole name
        rw [List.dropWhile_append_of_pos (List.dropWhile_eq_nil_iff.1 hr),
          List.dropWhile_cons_of_neg (by simp [hplain]), Scan.gap_blank (by decide),
          trimStart_eq_self hb, phrased_eq_none hc hd, Option.map_none]
      | cons a rest =>
        -- a word character that is not plain follows the plain name
        have ha : isBlank a = false := by
          refine (IsSolid.of_isWordRun hn).solid a ?_
          exact (List.dropWhile_suffix _).subset (hr ▸ List.mem_cons_self)
        rw [List.dropWhile_append, hr]
        simp [Scan.gap, ha]
  · rfl

/-- **A comparison by symbol is none in words.** -/
theorem parts?_padded (hn : isWordRun name) (r : Relation) (operand : List Char) :
    parts? (name ++ (r.padded ++ operand)) = none := by
  refine List.findSome?_eq_none_iff.2 fun c hc => ?_
  have hr : ∃ d cs, r.padded ++ operand = ' ' :: d :: cs ∧ isWord d = false ∧ isBlank d = false := by
    cases r <;> exact ⟨_, _, rfl, by decide, by decide⟩
  obtain ⟨d, cs, hr, hd, hb⟩ := hr
  rw [hr, read?_eq_none hc hn hd hb, Option.map_none]

end Comparative

namespace Condition

/-! ## Reading -/

/-- A name is not cut if it is not the keyword for what a variable contains. -/
theorem IsUncut.of_isWordRun (hn : isWordRun name) (ha : containment? name = none) :
    IsUncut name := by
  refine ⟨(IsSolid.of_isWordRun hn).isFree, List.any_eq_false.2 fun c hc hd => ?_, fun k =>
    Connective.not_infix_of_notMem (notMem_of_isWordRun hn k.not_isWord_char), ha⟩
  simp only [isDropped, Bool.or_eq_true, beq_iff_eq] at hd
  rcases hd with rfl | rfl <;> exact notMem_of_isWordRun hn (by decide) hc

/-- A symbol brings nothing with it at which a text is cut. -/
theorem IsUncut.padded (hn : isWordRun name) (ha : containment? name = none) (r : Relation)
    (ho : IsUncut operand) : IsUncut (name ++ (r.padded ++ operand)) := by
  have hname := IsUncut.of_isWordRun hn ha
  have hfree : IsFree (name ++ (r.padded ++ operand)) :=
    hname.toIsFree.append ho.toIsFree (by cases r <;> decide)
  refine ⟨hfree, ?_, fun k => ?_, ?_⟩
  · have hpadded : r.padded.any isDropped = false := by cases r <;> decide
    rw [List.any_append, List.any_append, hname.kept, hpadded, ho.kept]
    rfl
  · have hpadded : r.padded.Disjoint k.symbol.toList := by
      have hk : k.char ∉ r.padded := by cases r <;> cases k <;> decide
      intro d hd hs
      obtain rfl : d = k.char := by simpa [k.toList_symbol] using hs
      exact hk hd
    rw [infix_append_append_iff hpadded (by simp [Relation.padded]) k.symbol_ne_nil]
    exact not_or.2 ⟨hname.unjoined k, ho.unjoined k⟩
  · rw [containment?_eq_none_iff hfree.oneLine,
      asks_append_append_iff (by simp [Relation.padded]) r.not_isWord_padded]
    exact not_or.2 ⟨hname.not_asks, ho.not_asks⟩

/-- **A comparison by symbol is read as such if its operand has no blanks**, and as the name of a
variable otherwise. -/
theorem parse_padded (hn : isWordRun name) (ha : containment? name = none) (r : Relation)
    (ho : IsUncut operand) :
    parse (name ++ (r.padded ++ operand)) =
      if operand.any isBlank then .ok (holds (String.ofList (name ++ (r.padded ++ operand))))
      else (Condition.operand operand).map (compare (.var (String.ofList name)) r) := by
  have hu := ho.padded hn ha r
  have hc := comparison?_padded hn r ho.ne_nil ho.trimStart_eq
  have hw : comparative (name ++ (r.padded ++ operand)) = .ok none :=
    comparative_of_none (by rw [hu.trim_eq, Comparative.parts?_padded hn])
  rw [hu.parse_eq, clause, if_neg (by simp [hu.ne_nil]), hu.asksNothing, hc, hw]
  by_cases hb : operand.any isBlank
  · rw [if_pos hb, if_pos hb]
    rfl
  · rw [if_neg hb, if_neg hb]
    rfl

end Condition
end FlowScript
