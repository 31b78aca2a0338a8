import FlowScript.Proofs.Condition.Connective
import Mathlib.Data.List.TakeWhile

/-!
# Parts of conditions

A clause is taken apart into a name, a relation and an operand, and a condition into its clauses.
All that is read later on is a stretch of the text, and the names and the operands hold more than
blanks.

## Main definitions

* `Comparative.spoken`: the phrases of a comparison with the words before them.
* `Condition.rightOf?`: the operand behind the symbol of a relation.
* `Condition.joinAll`: the reading of the clauses before the last one.

## Main statements

* `Comparative.parts_eq_some`, `Condition.comparison_eq_some`: the parts of a comparison.
* `Condition.comparison?_eq_some`: the relations that were tried before the one that is found.
* `Condition.infix_of_chain?`: the clauses of a condition are stretches of it.
-/
namespace FlowScript

open Text

variable {cs : List Char}

theorem Text.trim_ne_nil {c : Char} (hc : isBlank c = false) : trim (c :: cs) ≠ [] := by
  intro h
  have := trim_eq_nil_iff.1 h c (by simp)
  simp [hc] at this

/-! ## Comparisons -/

namespace Comparative

/-- The phrases of a comparison, each with the words that may stand before it. -/
def spoken (c : Comparative) : List (List String) :=
  if c.linked then
    c.phrases.map ("is" :: ·) ++ (c.phrases.map ("are" :: ·) ++ c.phrases)
  else c.phrases

theorem phrased_append (ps qs : List (List String)) :
    phrased (ps ++ qs) = Scan.either (phrased ps) (phrased qs) := by
  funext cs
  simp only [phrased, Scan.either, List.findSome?_append, Option.orElse_eq_orElse,
    Option.orElse_eq_or]

/-- A word before a phrase is one more word of it. -/
theorem keyword_phrased (word : String) (phrases : List (List String)) :
    Scan.keyword word (Scan.gap (phrased phrases)) = phrased (phrases.map (word :: ·)) := by
  funext cs
  have hnone : none = phrases.findSome? fun _ => (none : Option (List Char)) :=
    (List.findSome?_eq_none_iff.2 fun _ _ => rfl).symm
  simp only [phrased, List.findSome?_map, Function.comp_def, words, Scan.keyword]
  cases afterWord? word.toList cs with
  | none => exact hnone
  | some after =>
    cases after with
    | nil => exact hnone
    | cons b after =>
      cases hb : isBlank b with
      | false => simpa [Scan.gap, hb] using hnone
      | true =>
        simp only [Option.bind_some, Scan.gap, hb, if_true]
        rfl

/-- **A comparison in words** is a name, one of its phrases and an operand. -/
theorem read?_eq (c : Comparative) (cs : List Char) : c.read? cs =
    if isPlainStart (cs.headD '0') then
      Scan.some1 isPlainWord (fun name => Scan.gap fun after =>
        (phrased c.spoken after).map fun operand => (name, operand)) cs
    else none := by
  simp only [read?, spoken, apply_ite phrased, phrased_append, keyword_phrased]

/-- What is taken for the operand of a comparison in words holds more than blanks. -/
theorem value_eq_some {operand : List Char} (h : value cs = some operand) :
    operand = cs ∧ trim operand ≠ [] := by
  unfold value at h
  split at h
  · rename_i hv
    obtain rfl := Option.some.inj h
    refine ⟨rfl, ?_⟩
    cases cs with
    | nil => exact absurd hv (by decide)
    | cons c cs =>
      refine trim_ne_nil ?_
      simp only [Bool.or_eq_true] at hv
      obtain (hv | hv) | hv := hv
      · refine not_isBlank_of_isDigit ?_
        unfold isDecimal at hv
        split at hv
        · rename_i hd
          exact List.dropWhile_eq_nil_iff.1 hd c (by simp)
        · simp only [List.headD_cons, Bool.and_eq_true] at hv
          exact hv.1
        · simp at hv
      · simp only [isQuotation, Bool.and_eq_true, Bool.or_eq_true, beq_iff_eq] at hv
        obtain ⟨⟨rfl | rfl, -⟩, -⟩ := hv <;> decide
      · simp only [isPlainName, List.headD_cons, Bool.and_eq_true] at hv
        exact not_isBlank_of_isWord (isWord_of_isPlainStart hv.1)
  · simp at h

theorem words_eq_some {phrase : List String} {operand : List Char}
    (h : words value phrase cs = some operand) : operand <:+: cs ∧ trim operand ≠ [] := by
  induction phrase generalizing cs with
  | nil =>
    obtain ⟨rfl, hne⟩ := value_eq_some h
    exact ⟨List.infix_refl _, hne⟩
  | cons w ws ih =>
    obtain ⟨_, h₁, h⟩ := Scan.keyword_suffix h
    obtain ⟨_, h₂, h⟩ := Scan.gap_suffix h
    obtain ⟨hi, hne⟩ := ih h
    exact ⟨hi.trans (h₂.trans h₁).isInfix, hne⟩

theorem phrased_eq_some {phrases : List (List String)} {operand : List Char}
    (h : phrased phrases cs = some operand) : operand <:+: cs ∧ trim operand ≠ [] := by
  obtain ⟨_, -, h⟩ := List.exists_of_findSome?_eq_some h
  exact words_eq_some h

/-- The parts of a comparison in words. -/
theorem parts_eq_some {r : Relation} {name operand : List Char}
    (h : parts? cs = some (r, name, operand)) :
    name ≠ [] ∧ name <:+: cs ∧ operand <:+: cs ∧ trim operand ≠ [] := by
  obtain ⟨c, -, h⟩ := List.exists_of_findSome?_eq_some h
  simp only [Option.map_eq_some_iff, Prod.mk.injEq] at h
  obtain ⟨⟨_, _⟩, h, -, rfl, rfl⟩ := h
  rw [read?_eq] at h
  split at h
  · obtain ⟨_, _, hi, h₁, hname, -, h⟩ := Scan.some1_eq_some h
    obtain ⟨_, h₂, h⟩ := Scan.gap_suffix h
    simp only [Option.map_eq_some_iff, Prod.mk.injEq] at h
    obtain ⟨_, ho, rfl, rfl⟩ := h
    obtain ⟨ho, hne⟩ := phrased_eq_some ho
    exact ⟨hname, hi, ho.trans (h₂.trans h₁).isInfix, hne⟩
  · simp at h

end Comparative

namespace Condition

/-- What follows the name that a text starts with, and the blanks behind that. -/
def afterName (cs : List Char) : List Char :=
  trimStart (cs.dropWhile isWord)

/-- The operand behind the symbol of a relation: the rest of the text, if it has no blanks. -/
def rightOf? (r : Relation) (cs : List Char) : Option (List Char) :=
  if r.symbol.toList.isPrefixOf cs then
    let operand := trimStart (cs.drop r.symbol.length)
    if operand.isEmpty || operand.any isBlank then none else some operand
  else none

variable {name operand : List Char} {r : Relation}

theorem rightOf?_eq_some_iff : rightOf? r cs = some operand ↔
    ∃ rest, cs = r.symbol.toList ++ rest ∧ operand = trimStart rest ∧ operand ≠ [] ∧
      ∀ c ∈ operand, isBlank c = false := by
  constructor
  · intro h
    unfold rightOf? at h
    split at h
    · rename_i hp
      obtain ⟨rest, rfl⟩ := List.isPrefixOf_iff_prefix.1 hp
      rw [← String.length_toList, List.drop_left] at h
      simp only at h
      split at h
      · simp at h
      · rename_i hs
        obtain rfl := Option.some.inj h
        simp only [Bool.or_eq_true, List.isEmpty_iff, List.any_eq_true, not_or, not_exists,
          not_and, Bool.not_eq_true] at hs
        exact ⟨rest, rfl, rfl, hs⟩
    · simp at h
  · rintro ⟨rest, rfl, rfl, hne, hs⟩
    have hp : r.symbol.toList.isPrefixOf (r.symbol.toList ++ rest) :=
      List.isPrefixOf_iff_prefix.2 (List.prefix_append _ _)
    rw [rightOf?, if_pos hp, ← String.length_toList, List.drop_left]
    simp [hne, any_isBlank_eq_false hs]

/-- A comparison by symbol is one by the first relation whose symbol has an operand behind it. -/
theorem comparison?_eq (cs : List Char) : comparison? cs =
    if (cs.takeWhile isWord).isEmpty then none
    else Relation.all.findSome? fun r =>
      (rightOf? r (afterName cs)).map fun operand => (cs.takeWhile isWord, r, operand) := by
  have hmap (r : Relation) (after : List Char) :
      (rightOf? r after).map (fun operand => (cs.takeWhile isWord, r, operand)) =
        if r.symbol.toList.isPrefixOf after then
          let operand := trimStart (after.drop r.symbol.length)
          if operand.isEmpty || operand.any isBlank then none
          else some (cs.takeWhile isWord, r, operand)
        else none := by
    simp only [rightOf?]
    split_ifs <;> rfl
  simp only [comparison?, afterName, hmap]

theorem comparative_of_none (h : Comparative.parts? (trim cs) = none) :
    comparative cs = .ok none := by
  rw [comparative, h]
  rfl

/-- A comparison in words is read as one with what its operand is read as. -/
theorem comparative_of_some (h : Comparative.parts? (trim cs) = some (r, name, operand)) :
    comparative cs =
      (Condition.operand operand).map fun e => some (.compare (.var (String.ofList name)) r e) := by
  rw [comparative, h]
  cases ho : Condition.operand operand <;>
    simp [ho, bind, Except.bind, pure, Except.pure, Except.map, Functor.map]

/-- The parts of a comparison by symbol, and the relations that were tried in vain. -/
theorem comparison?_eq_some (h : comparison? cs = some (name, r, operand)) :
    name = cs.takeWhile isWord ∧ name ≠ [] ∧ rightOf? r (afterName cs) = some operand ∧
      ∃ tried more, Relation.all = tried ++ r :: more ∧
        ∀ s ∈ tried, rightOf? s (afterName cs) = none := by
  rw [comparison?_eq] at h
  split at h
  · simp at h
  · rename_i hname
    obtain ⟨tried, s, more, hall, hs, htried⟩ := List.findSome?_eq_some_iff.1 h
    simp only [Option.map_eq_some_iff, Prod.mk.injEq] at hs
    obtain ⟨_, hs, rfl, rfl, rfl⟩ := hs
    exact ⟨rfl, by simpa using hname, hs, tried, more, hall, by simpa using htried⟩

/-- The parts of a comparison by symbol are stretches of it. -/
theorem comparison_eq_some (h : comparison? cs = some (name, r, operand)) :
    name ≠ [] ∧ name <:+: cs ∧ operand <:+: cs ∧ trim operand ≠ [] := by
  obtain ⟨rfl, hne, hr, -⟩ := comparison?_eq_some h
  obtain ⟨rest, hrest, rfl, ho, hs⟩ := rightOf?_eq_some_iff.1 hr
  refine ⟨hne, (List.takeWhile_prefix _).isInfix, ?_, by rwa [trim_of_solid hs]⟩
  have hafter : rest <:+ afterName cs := hrest ▸ List.suffix_append _ _
  exact ((trimStart_suffix rest).trans (hafter.trans
    ((trimStart_suffix _).trans (List.dropWhile_suffix _)))).isInfix

/-- What is asked, and for which piece of text, are parts of the text. -/
theorem containmentAfter_eq_some {read left right : List Char}
    (h : containmentAfter read cs = some (left, right)) : left ⊆ read ++ cs ∧ right ⊆ cs := by
  have hpiece {before cs piece : List Char} (h : pieceAt? before cs = some piece) :
      piece ⊆ cs := by
    unfold pieceAt? at h
    split at h
    · split at h
      · rename_i after ha
        simp only at h
        split at h
        · rw [← Option.some.inj h]
          exact ((trimStart_suffix after).trans
            ((afterWord?_suffix ha).trans (trimStart_suffix cs))).subset
        · simp at h
      · simp at h
    · simp at h
  have hread (read cs : List Char) : read.reverse ⊆ read ++ cs :=
    fun _ hm => List.mem_append_left _ (List.mem_reverse.1 hm)
  induction cs generalizing read with
  | nil =>
    simp only [containmentAfter, Option.map_eq_some_iff, Prod.mk.injEq] at h
    obtain ⟨piece, hp, rfl, rfl⟩ := h
    exact ⟨hread read [], hpiece hp⟩
  | cons c cs ih =>
    rw [containmentAfter] at h
    cases hp : pieceAt? read (c :: cs) with
    | some piece =>
      obtain ⟨rfl, rfl⟩ : read.reverse = left ∧ piece = right := by simpa [hp] using h
      exact ⟨hread read _, hpiece hp⟩
    | none =>
      obtain ⟨-, h⟩ : ¬c = '\n' ∧ containmentAfter (c :: read) cs = some (left, right) := by
        simpa [hp] using h
      obtain ⟨hl, hr⟩ := ih h
      exact ⟨fun _ hm => by simpa [or_left_comm] using hl hm,
        List.Subset.trans hr (List.subset_cons_self _ _)⟩

/-! ## Chains of clauses -/

theorem infix_of_split? {left right : List Char} {k : Connective}
    (h : split? cs = some (left, k, right)) : left <:+: cs ∧ right <:+: cs := by
  obtain ⟨part, more, hj, rfl, rfl⟩ := split?_eq_some h
  obtain ⟨_, hpart, ha, -, hc⟩ := Scan.shortest_eq_some hj
  obtain ⟨blanks, after, rfl, -, rfl, -⟩ := connectiveAt?_eq_some_iff.1 hc
  refine ⟨(isInfix_trim part).trans hpart, (isInfix_trim _).trans (List.IsInfix.trans ?_ ha.isInfix)⟩
  exact ((trimStart_suffix after).trans
    ((List.suffix_append _ after).trans (List.suffix_append _ _))).isInfix

theorem infix_of_chain? {n : Nat} {parts : List (List Char × Connective)} {last : List Char}
    (h : chain? n cs = some (parts, last)) :
    last <:+: cs ∧ ∀ part ∈ parts, part.1 <:+: cs := by
  induction n generalizing cs parts with
  | zero =>
    unfold chain? at h
    split at h
    · simp only [Option.some.injEq, Prod.mk.injEq] at h
      obtain ⟨rfl, rfl⟩ := h
      exact ⟨List.infix_refl _, by simp⟩
    · simp at h
  | succ n ih =>
    unfold chain? at h
    split at h
    · simp only [Option.some.injEq, Prod.mk.injEq] at h
      obtain ⟨rfl, rfl⟩ := h
      exact ⟨List.infix_refl _, by simp⟩
    · rename_i left k right hs
      obtain ⟨hl, hr⟩ := infix_of_split? hs
      simp only [Option.map_eq_some_iff, Prod.mk.injEq] at h
      obtain ⟨⟨others, last'⟩, hc, rfl, rfl⟩ := h
      obtain ⟨hlast, hparts⟩ := ih hc
      refine ⟨hlast.trans hr, fun part hp => ?_⟩
      obtain rfl | hp := List.mem_cons.1 hp
      · exact hl
      · exact (hparts part hp).trans hr

/-- The reading of the clauses before the last one, from the last to the first. -/
def joinAll (parts : List (List Char × Connective)) (last : Condition) : Except Fault Condition :=
  parts.foldrM (fun (left, k) right => return join k (← clause (cleaned left)) right) last

theorem joinAll_cons (part : List Char × Connective) (parts : List (List Char × Connective))
    (last : Condition) :
    joinAll (part :: parts) last =
      (joinAll parts last).bind fun right =>
        (clause (cleaned part.1)).bind fun left => .ok (join part.2 left right) := by
  simp only [joinAll, List.foldrM_cons, bind, pure, Except.pure]

end Condition
end FlowScript
