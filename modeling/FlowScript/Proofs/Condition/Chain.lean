import FlowScript.Proofs.Condition.Outline

/-!
# Clauses in a row

Clauses that are put together by connectives, with single blanks around each, are taken apart into
the clauses that they are, and their conditions are joined to the right. A clause may hold single
bars and ampersands, as long as it holds no connective.

## Main definitions

* `Condition.IsClause`: the texts that can be put together.
* `Condition.spaced`: clauses put together by connectives.
* `Condition.joinRight`: conditions joined to the right.

## Main statements

* `Condition.split?_spaced`: clauses in a row are cut behind the first one.
* `Condition.outline_spaced`: the outline of clauses in a row.
* `Condition.parse_spaced`: clauses in a row are joined to the right, up to the connectives that are
  allowed.
-/
namespace FlowScript.Condition

open Text

/-- A text that can be put together with others: it is not cut, and it compares nothing with an
integer that has too many digits. -/
structure IsClause (cs : List Char) : Prop extends IsUncut cs where
  notOverlong : ¬ OverlongClause cs

/-- Clauses put together by connectives, with a blank on either side of each. -/
def spaced (first : List Char) : List (Connective × List Char) → List Char
  | [] => first
  | (k, next) :: more => first ++ (k.padded ++ spaced next more)

/-- Conditions joined to the right. -/
def joinRight (first : Condition) : List (Connective × Condition) → Condition
  | [] => first
  | (k, next) :: more => join k first (joinRight next more)

variable {cs first next : List Char} {k : Connective} {more : List (Connective × List Char)}

/-! ## Single clauses -/

theorem not_overlong_of_clause {c : Condition} (h : clause cs = .ok c) : ¬ OverlongClause cs := by
  intro ho
  obtain ⟨f, hf⟩ := clause_of_overlong ho
  simp [hf] at h

/-- A clause has a condition. -/
theorem IsClause.exists_clause (h : IsClause cs) : ∃ c, clause cs = .ok c := by
  cases hc : clause cs with
  | ok c => exact ⟨c, rfl⟩
  | error f => exact absurd (clause_eq_error hc).1 h.notOverlong

/-! ## Clauses in a row -/

variable (hc : ∀ clause ∈ first :: more.map Prod.snd, IsClause clause)
include hc

theorem isFree_spaced : IsFree (spaced first more) := by
  induction more generalizing first with
  | nil => exact (hc first (by simp)).toIsFree
  | cons part more ih =>
    obtain ⟨k, next⟩ := part
    exact (hc first (by simp)).toIsFree.append
      (ih fun clause hm => hc clause (List.mem_cons_of_mem _ hm)) (by cases k <;> decide)

theorem kept_spaced : (spaced first more).any isDropped = false := by
  induction more generalizing first with
  | nil => exact (hc first (by simp)).kept
  | cons part more ih =>
    obtain ⟨k, next⟩ := part
    have hk : k.padded.any isDropped = false := by cases k <;> decide
    have hrest := ih fun clause hm => hc clause (List.mem_cons_of_mem _ hm)
    rw [spaced, List.any_append, List.any_append, (hc first (by simp)).kept, hk, hrest]
    rfl

theorem not_asks_spaced : ¬ Asks (spaced first more) := by
  induction more generalizing first with
  | nil => exact (hc first (by simp)).not_asks
  | cons part more ih =>
    obtain ⟨k, next⟩ := part
    have hk : k.padded.any isWord = false := by cases k <;> decide
    have hrest := ih fun clause hm => hc clause (List.mem_cons_of_mem _ hm)
    rw [spaced, asks_append_append_iff (by simp [Connective.padded]) hk]
    exact not_or.2 ⟨(hc first (by simp)).not_asks, hrest⟩

theorem cleaned_spaced : cleaned (spaced first more) = spaced first more :=
  cleaned_of_kept (kept_spaced hc) (isFree_spaced hc).trim_eq

omit hc

/-- Clauses in a row are cut behind the first one. -/
theorem split?_spaced (hc : ∀ clause ∈ first :: next :: more.map Prod.snd, IsClause clause)
    (k : Connective) :
    split? (spaced first ((k, next) :: more)) = some (first, k, spaced next more) := by
  have hfirst := hc first List.mem_cons_self
  have hrest := isFree_spaced fun clause hm => hc clause (List.mem_cons_of_mem _ hm)
  have hwhole : ∀ clause ∈ first :: ((k, next) :: more).map Prod.snd, IsClause clause := hc
  obtain ⟨hne, -, hl⟩ := isFree_spaced hwhole
  have hn := (containment?_eq_none_iff hl).2 (not_asks_spaced hwhole)
  have hj := joined?_append hfirst.toIsFree hfirst.unjoined hrest k
  rw [split?, if_neg (by simp [hne, hn]), spaced, hj]
  simp only [Option.map_some, hfirst.trim_eq, hrest.trim_eq]

/-- The outline of clauses in a row: there is one connective on the right spine for each one that is
written, and the condition is joined to the right. -/
theorem outline_spaced (hc : ∀ clause ∈ first :: more.map Prod.snd, IsClause clause)
    {value : List Char → Condition}
    (hv : ∀ cs ∈ first :: more.map Prod.snd, clause cs = .ok (value cs)) :
    (outline (spaced first more)).spine = more.length ∧
      (outline (spaced first more)).condition =
        .ok (joinRight (value first) (more.map fun part => (part.1, value part.2))) := by
  induction more generalizing first with
  | nil =>
    have hfirst := hc first List.mem_cons_self
    rw [spaced, hfirst.outline_eq]
    exact ⟨rfl, hv first List.mem_cons_self⟩
  | cons part more ih =>
    obtain ⟨k, next⟩ := part
    obtain ⟨hs, hr⟩ := ih (fun clause hm => hc clause (List.mem_cons_of_mem _ hm))
      fun cs hm => hv cs (List.mem_cons_of_mem _ hm)
    rw [outline_of_split? (cleaned_spaced hc) (isFree_spaced hc).oneLine (split?_spaced hc k)]
    refine ⟨by rw [Outline.spine, hs, List.length_cons], ?_⟩
    simp only [Outline.condition, hr, hv first List.mem_cons_self]
    rfl

/-- **Clauses in a row are joined to the right**: every clause has a condition of its own, and the
clauses with connectives between them are read as the join of these conditions to the right, or as
the condition that never holds if there are more connectives than allowed. -/
theorem parse_spaced (hc : ∀ clause ∈ first :: more.map Prod.snd, IsClause clause) :
    ∃ value : List Char → Condition,
      (∀ clause ∈ first :: more.map Prod.snd, parse clause = .ok (value clause)) ∧
        parse (spaced first more) =
          .ok (if more.length ≤ maxNesting
            then joinRight (value first) (more.map fun part => (part.1, value part.2))
            else never) := by
  let value (cs : List Char) : Condition := (clause cs).toOption.getD never
  have hv : ∀ cs ∈ first :: more.map Prod.snd, clause cs = .ok (value cs) := by
    intro cs hm
    obtain ⟨c, h⟩ := (hc cs hm).exists_clause
    simp [value, h, Except.toOption]
  obtain ⟨hs, hr⟩ := outline_spaced hc hv
  refine ⟨value, fun cs hm => by rw [(hc cs hm).parse_eq, hv cs hm], ?_⟩
  rw [parse_of_oneLine (isFree_spaced hc).oneLine, hs, hr]
  split <;> rfl

/-- Single bars and ampersands do not end a clause. A row of clauses may hold as many connectives as
are allowed, and with one more it never holds. -/
theorem parse_longest_row :
    let more := List.replicate maxNesting (Connective.and, "b & c".toList)
    (∀ cs ∈ ["a|".toList, "b & c".toList], IsClause cs) ∧
      parse (spaced "a|".toList more) =
        .ok (joinRight (holds "a|") (List.replicate maxNesting (.and, holds "b & c"))) ∧
      parse (spaced "a|".toList ((.or, "b & c".toList) :: more)) = .ok never := by
  intro more
  have hclauses : ∀ cs ∈ ["a|".toList, "b & c".toList], IsClause cs := by
    simp only [List.forall_mem_cons, List.not_mem_nil, false_imp_iff, forall_const, and_true]
    exact ⟨⟨⟨⟨by decide, by decide, by decide⟩, by decide, by rintro ⟨⟩ <;> decide, by decide⟩,
        not_overlong_of_clause (c := holds "a|") (by decide +kernel)⟩,
      ⟨⟨⟨by decide, by decide, by decide⟩, by decide, by rintro ⟨⟩ <;> decide, by decide⟩,
        not_overlong_of_clause (c := holds "b & c") (by decide +kernel)⟩⟩
  have hrow {row : List (Connective × List Char)} (h : ∀ part ∈ row, part.2 = "b & c".toList) :
      ∀ cs ∈ "a|".toList :: row.map Prod.snd, IsClause cs := by
    simp only [List.forall_mem_cons, List.forall_mem_map]
    exact ⟨hclauses _ (by simp), fun part hp => h part hp ▸ hclauses _ (by simp)⟩
  have hmore : ∀ part ∈ more, part.2 = "b & c".toList := fun part hp => by
    rw [List.eq_of_mem_replicate hp]
  refine ⟨hclauses, ?_, ?_⟩
  · obtain ⟨value, hv, hread⟩ := parse_spaced (hrow hmore)
    have ha : value "a|".toList = holds "a|" :=
      Except.ok.inj ((hv _ List.mem_cons_self).symm.trans (by decide +kernel))
    have hb : value "b & c".toList = holds "b & c" :=
      Except.ok.inj ((hv _ (by decide)).symm.trans (by decide +kernel))
    rw [hread, if_pos (by decide), ha, List.map_replicate, hb]
  · have hlonger : ∀ part ∈ (.or, "b & c".toList) :: more, part.2 = "b & c".toList :=
      List.forall_mem_cons.2 ⟨rfl, hmore⟩
    obtain ⟨value, -, hread⟩ := parse_spaced (hrow hlonger)
    rw [hread, if_neg (by decide)]

end FlowScript.Condition
