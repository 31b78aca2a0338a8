import FlowScript.Proofs.Pattern.Reads

/-!
# What patterns must have read

When a goal is reached behind a pattern, the pattern has been read up to some place, and the goal is
reached from there. Where these places can be is known part by part, so that a text which has a
pattern is known to have its form.

## Main definitions

* `Pattern.Confined`: whatever is reached behind a pattern is reached from one of some places.

## Main statements

* `Pattern.confined_many1`, `Pattern.confined_text`: runs of characters of a set, and texts.
* `Pattern.exists_of_occursIn`: a pattern that begins at the start of a text is read from there.
-/
namespace FlowScript.Pattern

/-- Whatever is reached behind a pattern is reached from one of some places. -/
def Confined (a : Pattern) (p : Place) (ends : Place → Prop) : Prop :=
  ∀ goal : Goal, (a.run goal p).isSome → ∃ q, ends q ∧ (goal q).isSome

variable {a b : Pattern} {p : Place} {ends ends' : Place → Prop} {set : CharSet}

theorem Confined.mono (h : Confined a p ends) (hm : ∀ q, ends q → ends' q) :
    Confined a p ends' := by
  intro goal hg
  obtain ⟨q, hq, hs⟩ := h goal hg
  exact ⟨q, hm q hq, hs⟩

theorem confined_empty : Confined empty p (· = p) :=
  fun _ hg => ⟨p, rfl, hg⟩

theorem confined_edge {e : Edge} : Confined (edge e) p fun q => q = p ∧ p.isAt e := by
  intro goal hg
  simp only [run] at hg
  split at hg
  · rename_i he
    exact ⟨p, ⟨rfl, he⟩, hg⟩
  · simp at hg

theorem Confined.seq (h : Confined a p ends) (h' : ∀ q, ends q → Confined b q ends') :
    Confined (seq a b) p ends' := by
  intro goal hg
  obtain ⟨q, hq, hs⟩ := h _ hg
  exact h' q hq goal hs

theorem confined_one :
    Confined (one set) p fun q => ∃ c cs, p.rest = c :: cs ∧ set.has .exact c ∧ q = p.next := by
  intro goal hg
  simp only [one, run] at hg
  split at hg
  · simp at hg
  · rename_i c cs hr
    split at hg
    · rename_i hc
      exact ⟨p.next, ⟨c, cs, hr, hc, rfl⟩, hg⟩
    · simp at hg

/-! ## Repetitions -/

/-- The places behind some characters of a set. -/
def Behind (set : CharSet) (p q : Place) : Prop :=
  ∃ cs rest, p.rest = cs ++ rest ∧ (∀ c ∈ cs, set.has .exact c) ∧ q = p.after cs

theorem behind_refl : Behind set p p :=
  ⟨[], p.rest, rfl, by simp, rfl⟩

theorem Behind.cons {q : Place} {c : Char} {cs : List Char} (h : Behind set p.next q)
    (hr : p.rest = c :: cs) (hc : set.has .exact c) : Behind set p q := by
  obtain ⟨ds, rest, hd, hs, rfl⟩ := h
  rw [Place.next_rest hr] at hd
  exact ⟨c :: ds, rest, by rw [hr, hd, List.cons_append], by simpa using ⟨hc, hs⟩, rfl⟩

theorem behind_of_iterateMore {turns : Nat} {bound last : Option Nat} {goal : Goal}
    (hg : (iterateMore (one set).run false turns bound last goal p).isSome) :
    ∃ q, Behind set p q ∧ (goal q).isSome := by
  induction turns generalizing p bound last with
  | zero => exact ⟨p, behind_refl, hg⟩
  | succ turns ih =>
    simp only [iterateMore, Bool.false_eq_true, if_false] at hg
    split at hg
    · exact ⟨p, behind_refl, hg⟩
    · by_cases ht : ((one set).run (iterateMore (one set).run false turns (bound.map (· - 1))
          (some p.position) goal) p).isSome
      · obtain ⟨_, ⟨c, cs, hr, hc, rfl⟩, hs⟩ := confined_one _ ht
        obtain ⟨q, hq, hs⟩ := ih hs
        exact ⟨q, hq.cons hr hc, hs⟩
      · rw [Option.not_isSome_iff_eq_none.1 ht] at hg
        exact ⟨p, behind_refl, hg⟩

/-- A pattern that occurs at least once is read up to behind some characters. -/
theorem confined_many1 : Confined (many1 (one set)) p fun q =>
    ∃ cs rest, cs ≠ [] ∧ p.rest = cs ++ rest ∧ (∀ c ∈ cs, set.has .exact c) ∧
      q = p.after cs := by
  intro goal hg
  obtain ⟨_, ⟨c, cs, hr, hc, rfl⟩, hs⟩ := confined_one _ hg
  obtain ⟨q, ⟨ds, rest, hd, hds, rfl⟩, hs⟩ := behind_of_iterateMore hs
  rw [Place.next_rest hr] at hd
  exact ⟨_, ⟨c :: ds, rest, by simp, by rw [hr, hd, List.cons_append],
    by simpa using ⟨hc, hds⟩, rfl⟩, hs⟩

/-! ## Texts -/

theorem eq_of_has_one {c d : Char} (h : (CharSet.one c).has .exact d) : d = c := by
  simp only [CharSet.has, CharSet.one, CharSet.code, CharSet.covers, Text.CaseRule.variants,
    List.any_cons, List.any_nil, Bool.or_false, Bool.and_eq_true, decide_eq_true_eq] at h
  exact Char.toNat_inj.1 (Nat.le_antisymm h.2 h.1)

/-- A text is read where it stands. -/
theorem confined_text {cs : List Char} :
    Confined (sequence (cs.map fun c => one (.one c))) p fun q =>
      ∃ rest, p.rest = cs ++ rest ∧ q = p.after cs := by
  induction cs generalizing p with
  | nil => exact confined_empty.mono fun q hq => ⟨p.rest, rfl, hq⟩
  | cons c cs ih =>
    refine confined_one.seq ?_
    rintro q ⟨d, ds, hr, hd, rfl⟩
    refine ih.mono ?_
    rintro q ⟨rest, hq, rfl⟩
    rw [Place.next_rest hr] at hq
    exact ⟨rest, by rw [hr, hq, eq_of_has_one hd, List.cons_append], rfl⟩

theorem foundFrom_of_before {cs : List Char} (hp : p.before ≠ []) :
    foundFrom (seq (edge .start) a) p cs = false := by
  have hn : ∀ p : Place, p.before ≠ [] → (seq (edge .start) a).run some p = none := by
    intro p hp
    simp [run, Place.isAt, hp]
  induction cs generalizing p with
  | nil => simp [foundFrom, hn p hp]
  | cons c cs ih =>
    have hb : p.next.before ≠ [] := by
      unfold Place.next
      split
      · exact hp
      · simp
    rw [foundFrom, hn p hp, ih hb]
    rfl

/-- A pattern that begins at the start of a text is read from there. -/
theorem exists_of_occursIn {s : String} (h : (seq (edge .start) a).occursIn s)
    (hc : Confined a (.start s.toList) ends) : ∃ q, ends q := by
  have hr : ((seq (edge .start) a).run some (.start s.toList)).isSome := by
    unfold occursIn at h
    cases hs : s.toList with
    | nil => simpa [hs, foundFrom] using h
    | cons c cs =>
      rw [hs, foundFrom, Bool.or_eq_true] at h
      refine h.resolve_right ?_
      rw [foundFrom_of_before (by simp [Place.next, Place.start])]
      simp
  obtain ⟨q, hq, -⟩ := (confined_edge.seq fun q hq => hq.1 ▸ hc) _ hr
  exact ⟨q, hq⟩

end FlowScript.Pattern
