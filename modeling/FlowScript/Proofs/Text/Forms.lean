import FlowScript.Proofs.Text.Scan
import FlowScript.Proofs.Text.Trim

/-!
# Texts that have a form

What has been read can be written down again: parts between single blanks are read as the parts
that they are. The two parts of a form that are read anew when what follows fails are described
exactly, free text by the fact that no shorter one would do.

## Main definitions

* `Scan.Yields`: what holds of all answers of a recogniser.

## Main statements

* `Scan.gap_solid`, `Scan.gap_word`, `Scan.gap_keyword`, `Scan.gap_rest`: parts that are read back.
* `Scan.gap_eq_some_iff`, `Scan.slack_eq_some`: what is passed over.
* `Scan.shortest_minimal`, `Scan.shortest_append`: what is kept of free text.
-/
namespace FlowScript.Text

variable {cs : List Char}

namespace Scan

variable {α β : Type} {a : α}

/-! ## Reading parts back -/

theorem gap_blank {b : Char} (hb : isBlank b) (next : Scan α) (cs : List Char) :
    gap next (b :: cs) = next (trimStart cs) := by
  simp [gap, hb]

/-- A run of a class is read as a whole, up to the first character that is not of the class. -/
theorem some1_append {p : Char → Bool} {run : List Char} (hne : run ≠ []) (hr : ∀ c ∈ run, p c)
    (after : List Char) (ha : ∀ c ∈ after.head?, p c = false) (next : List Char → Scan α) :
    some1 p next (run ++ after) = next run after := by
  obtain ⟨ht, hd⟩ := takeWhile_run hr ha
  have he : run.isEmpty = false := by simpa using hne
  simp only [some1, ht, hd, he, Bool.false_eq_true, if_false]

theorem solid_append {run : List Char} (hr : IsSolid run) (next : List Char → Scan α)
    (cs : List Char) : solid next (run ++ ' ' :: cs) = next run (' ' :: cs) := by
  refine some1_append hr.ne_nil (fun c hc => by simp [hr.solid c hc]) _ (fun c hc => ?_) next
  obtain rfl : ' ' = c := by simpa using hc
  decide

theorem word_append {run : List Char} (hr : isWordRun run) (next : List Char → Scan α)
    (cs : List Char) : word next (run ++ ' ' :: cs) = next run (' ' :: cs) := by
  have hs := IsSolid.of_isWordRun hr
  simp only [isWordRun, Bool.and_eq_true, List.all_eq_true] at hr
  refine some1_append hs.ne_nil hr.2 _ (fun c hc => ?_) next
  obtain rfl : ' ' = c := by simpa using hc
  decide

theorem word_all {run : List Char} (hr : isWordRun run) (next : List Char → Scan α) :
    word next run = next run [] := by
  have hs := IsSolid.of_isWordRun hr
  simp only [isWordRun, Bool.and_eq_true, List.all_eq_true] at hr
  have h := some1_append hs.ne_nil hr.2 [] (by simp) next
  rwa [List.append_nil] at h

theorem gap_solid {run : List Char} (hr : IsSolid run) (next : List Char → Scan α)
    (cs : List Char) : gap (solid next) (' ' :: (run ++ ' ' :: cs)) = next run (' ' :: cs) := by
  rw [gap_blank (by decide), hr.trimStart_append, solid_append hr]

theorem gap_word {run : List Char} (hr : isWordRun run) (next : List Char → Scan α)
    (cs : List Char) : gap (word next) (' ' :: (run ++ ' ' :: cs)) = next run (' ' :: cs) := by
  rw [gap_blank (by decide), (IsSolid.of_isWordRun hr).trimStart_append, word_append hr]

theorem gap_word_all {run : List Char} (hr : isWordRun run) (next : List Char → Scan α) :
    gap (word next) (' ' :: run) = next run [] := by
  have ht := (IsSolid.of_isWordRun hr).trimStart_append []
  rw [List.append_nil] at ht
  rw [gap_blank (by decide), ht, word_all hr]

theorem gap_rest (h : IsFree cs) (next : List Char → α) :
    gap (rest next) (' ' :: cs) = some (next cs) := by
  rw [gap_blank (by decide), h.trimStart_eq]
  exact rest_eq_some.2 ⟨h.ne_nil, h.oneLine, rfl⟩

/-- Whether a text is a keyword in lower case. -/
def isKeyword (word : String) : Bool :=
  !word.isEmpty && word.toList.all fun c => fold c == c && !isBlank c

theorem keyword_append {word : String} (h : isKeyword word) (next : Scan α) (cs : List Char) :
    keyword word next (word.toList ++ cs) = next cs := by
  simp only [isKeyword, Bool.and_eq_true, List.all_eq_true, beq_iff_eq] at h
  have hf : word.toList.map fold = word.toList :=
    (List.map_congr_left fun c hc => (h.2 c hc).1).trans (List.map_id' _)
  rw [keyword, afterWord?_eq_some_iff.2 ⟨_, rfl, hf⟩, Option.bind_some]

theorem gap_keyword {word : String} (h : isKeyword word) (next : Scan α) (cs : List Char) :
    gap (keyword word next) (' ' :: (word.toList ++ cs)) = next cs := by
  have hs : IsSolid word.toList := by
    simp only [isKeyword, Bool.and_eq_true, List.all_eq_true, Bool.not_eq_eq_eq_not, Bool.not_true,
      String.isEmpty_eq_false_iff] at h
    exact ⟨by simpa using h.1, fun c hc => (h.2 c hc).2⟩
  rw [gap_blank (by decide), hs.trimStart_append, keyword_append h]

/-! ## What is passed over -/

theorem gap_append {blanks after : List Char} (hne : blanks ≠ []) (hb : ∀ b ∈ blanks, isBlank b)
    (ht : trimStart after = after) (next : Scan α) : gap next (blanks ++ after) = next after := by
  cases blanks with
  | nil => exact absurd rfl hne
  | cons b bs =>
    rw [List.cons_append, gap_blank (hb b List.mem_cons_self),
      trimStart_append_of_blank fun c hc => hb c (List.mem_cons_of_mem _ hc), ht]

/-- A gap passes over all blanks at the start of a text. -/
theorem gap_eq_some_iff {next : Scan α} :
    gap next cs = some a ↔ ∃ blanks after, cs = blanks ++ after ∧ blanks ≠ [] ∧
      (∀ b ∈ blanks, isBlank b) ∧ trimStart after = after ∧ next after = some a := by
  constructor
  · intro h
    cases cs with
    | nil => simp [gap] at h
    | cons b cs =>
      simp only [gap] at h
      split at h
      · rename_i hb
        refine ⟨b :: cs.takeWhile isBlank, trimStart cs, ?_, by simp, ?_, trimStart_trimStart cs, h⟩
        · simp [trimStart]
        · intro c hc
          obtain rfl | hc := List.mem_cons.1 hc
          · exact hb
          · exact List.mem_takeWhile_imp hc
      · simp at h
  · rintro ⟨blanks, after, rfl, hne, hb, ht, h⟩
    rw [gap_append hne hb ht, h]

/-- A word that blanks have to follow does not stand in a text without blanks. -/
theorem keyword_gap_of_solid (h : ∀ c ∈ cs, isBlank c = false) (word : String) (next : Scan α) :
    keyword word (gap next) cs = none := by
  cases hk : keyword word (gap next) cs with
  | none => rfl
  | some a =>
    obtain ⟨after, hs, hg⟩ := keyword_suffix hk
    obtain ⟨blanks, rest, rfl, hne, hb, -⟩ := gap_eq_some_iff.1 hg
    obtain ⟨b, hmem⟩ := List.exists_mem_of_ne_nil blanks hne
    have hsolid := h b (hs.subset (List.mem_append_left _ hmem))
    simp [hb b hmem] at hsolid

theorem gap_cons {b : Char} (hb : isBlank b) {next : Scan α} (h : gap next cs = some a) :
    gap next (b :: cs) = some a := by
  obtain ⟨blanks, after, rfl, -, hbs, ht, ha⟩ := gap_eq_some_iff.1 h
  refine gap_eq_some_iff.2 ⟨b :: blanks, after, rfl, by simp, ?_, ht, ha⟩
  simpa [hb] using hbs

/-- Blanks that can be read anew: as many as let the rest of the form be read. -/
theorem slack_eq_some {next : Scan α} (h : slack next cs = some a) :
    ∃ blanks after, cs = blanks ++ after ∧ blanks ≠ [] ∧ (∀ b ∈ blanks, isBlank b) ∧
      slack next after = none ∧ next after = some a := by
  induction cs with
  | nil => simp [slack] at h
  | cons b cs ih =>
    simp only [slack] at h
    split at h
    · rename_i hb
      simp only [Option.orElse_eq_orElse, Option.orElse_eq_or, Option.or_eq_some_iff] at h
      rcases h with h | ⟨hn, h⟩
      · obtain ⟨blanks, after, rfl, -, hbs, hm, ha⟩ := ih h
        refine ⟨b :: blanks, after, rfl, by simp, ?_, hm, ha⟩
        simpa [hb] using hbs
      · exact ⟨[b], cs, rfl, by simp, by simpa using hb, hn, h⟩
    · simp at h

/-- A single blank is passed over if no other one follows. -/
theorem slack_single {b : Char} (hb : isBlank b) (ht : trimStart cs = cs) (next : Scan α) :
    slack next (b :: cs) = next cs := by
  rw [slack, if_pos hb]
  cases cs with
  | nil => rfl
  | cons c cs =>
    rw [slack, if_neg (by simp [not_isBlank_of_trimStart_eq ht])]
    rfl

theorem slack_map {f : β → α} {next : Scan β} (cs : List Char) :
    slack (map f next) cs = (slack next cs).map f := by
  induction cs with
  | nil => rfl
  | cons c cs ih =>
    simp only [slack, ih, map]
    cases isBlank c <;> cases slack next cs <;> simp

/-! ## What is kept -/

/-- A run of a class stands at the start of a text. -/
theorem some1_append_eq_some {p : Char → Bool} {next : List Char → Scan α}
    (h : some1 p next cs = some a) :
    ∃ run after, cs = run ++ after ∧ run ≠ [] ∧ run.all p ∧ next run after = some a := by
  rw [some1] at h
  split at h
  · simp at h
  · rename_i hne
    exact ⟨_, _, List.takeWhile_append_dropWhile.symm, by simpa using hne, List.all_takeWhile, h⟩

/-- A word is a run at the start of a text. -/
theorem word_append_eq_some {next : List Char → Scan α} (h : word next cs = some a) :
    ∃ run after, cs = run ++ after ∧ isWordRun run ∧ next run after = some a := by
  obtain ⟨run, after, hc, hne, hw, ha⟩ := some1_append_eq_some h
  exact ⟨run, after, hc, by simp [isWordRun, hne, hw], ha⟩

theorem shortestAfter_eq {next : Scan α} (read cs : List Char) :
    shortestAfter next read cs =
      (shortest next cs).map fun (part, a) => (read.reverse ++ part, a) := by
  induction cs generalizing read with
  | nil => rfl
  | cons c cs ih =>
    simp only [shortest, shortestAfter]
    split
    · rfl
    · cases next cs with
      | some a => simp
      | none =>
        rw [ih (c :: read), ih [c]]
        simp [Function.comp_def]

theorem shortest_cons {next : Scan α} (c : Char) (cs : List Char) :
    shortest next (c :: cs) =
      if c = '\n' then none
      else match next cs with
        | some a => some ([c], a)
        | none => (shortest next cs).map fun (part, a) => (c :: part, a) := by
  simp only [shortest, shortestAfter, shortestAfter_eq [c]]
  rfl

/-- No shorter free text lets the rest of the form be read. -/
theorem shortest_minimal {next : Scan α} {part : List Char}
    (h : shortest next cs = some (part, a)) :
    ∃ after, cs = part ++ after ∧ part ≠ [] ∧ '\n' ∉ part ∧ next after = some a ∧
      ∀ front back, part = front ++ back → front ≠ [] → back ≠ [] →
        next (back ++ after) = none := by
  induction cs generalizing part with
  | nil => simp [shortest, shortestAfter] at h
  | cons c cs ih =>
    rw [shortest_cons] at h
    split at h
    · simp at h
    · rename_i hc
      cases hn : next cs with
      | some b =>
        simp only [hn, Option.some.injEq, Prod.mk.injEq] at h
        obtain ⟨rfl, rfl⟩ := h
        refine ⟨cs, rfl, by simp, by simpa using Ne.symm hc, hn, ?_⟩
        intro front back he hf hb
        rcases List.append_eq_singleton_iff.1 he.symm with ⟨h, -⟩ | ⟨-, h⟩
        · exact absurd h hf
        · exact absurd h hb
      | none =>
        simp only [hn, Option.map_eq_some_iff, Prod.exists, Prod.mk.injEq] at h
        obtain ⟨rest, b, h, rfl, rfl⟩ := h
        obtain ⟨after, rfl, -, hl, ha, hm⟩ := ih h
        refine ⟨after, rfl, by simp, by simpa [Ne.symm hc] using hl, ha, ?_⟩
        intro front back he hf hb
        cases front with
        | nil => exact absurd rfl hf
        | cons d ds =>
          obtain ⟨rfl, rfl⟩ := List.cons.inj he
          cases ds with
          | nil => exact hn
          | cons e es => exact hm (e :: es) back rfl (by simp) hb

/-- Free text that no shorter one can stand for is read back. -/
theorem shortest_append {next : Scan α} {part after : List Char} (hne : part ≠ [])
    (hl : '\n' ∉ part) (ha : next after = some a)
    (hm : ∀ front back, part = front ++ back → front ≠ [] → back ≠ [] →
      next (back ++ after) = none) :
    shortest next (part ++ after) = some (part, a) := by
  induction part with
  | nil => exact absurd rfl hne
  | cons c cs ih =>
    have hc : ¬ c = '\n' := fun h => hl (h ▸ List.mem_cons_self)
    rw [List.cons_append, shortest_cons, if_neg hc]
    cases cs with
    | nil => rw [List.nil_append, ha]
    | cons d ds =>
      have hn := hm [c] (d :: ds) rfl (by simp) (by simp)
      have hr : shortest next (d :: ds ++ after) = some (d :: ds, a) := by
        refine ih (by simp) (fun h => hl (List.mem_cons_of_mem _ h)) ?_
        intro front back he hf hb
        exact hm (c :: front) back (by rw [he, List.cons_append]) (by simp) hb
      rw [hn, hr]
      rfl

/-! ## What all answers have in common -/

/-- What holds of all answers of a recogniser. -/
def Yields (next : Scan α) (P : α → Prop) : Prop :=
  ∀ cs a, next cs = some a → P a

namespace Yields

variable {P : α → Prop}

theorem done (h : P a) : Yields (done a) P := by
  intro cs b hb
  obtain ⟨-, rfl⟩ := done_eq_some.1 hb
  exact h

theorem either {first second : Scan α} (h₁ : Yields first P) (h₂ : Yields second P) :
    Yields (either first second) P := by
  intro cs a h
  rcases either_eq_some h with h | h
  · exact h₁ cs a h
  · exact h₂ cs a h

theorem keyword {word : String} {next : Scan α} (h : Yields next P) :
    Yields (keyword word next) P := by
  intro cs a ha
  obtain ⟨after, -, ha⟩ := keyword_suffix ha
  exact h after a ha

theorem gap {next : Scan α} (h : Yields next P) : Yields (gap next) P := by
  intro cs a ha
  obtain ⟨after, -, ha⟩ := gap_suffix ha
  exact h after a ha

theorem slack {next : Scan α} (h : Yields next P) : Yields (slack next) P := by
  intro cs a ha
  obtain ⟨after, -, ha⟩ := slack_suffix ha
  exact h after a ha

theorem map_of {Q : β → Prop} {f : β → α} {next : Scan β} (hn : Yields next Q)
    (h : ∀ b, Q b → P (f b)) : Yields (map f next) P := by
  intro cs a ha
  obtain ⟨b, hb, rfl⟩ := map_eq_some.1 ha
  exact h b (hn cs b hb)

theorem map {f : β → α} {next : Scan β} (h : ∀ b, P (f b)) : Yields (map f next) P :=
  map_of (Q := fun _ => True) (fun _ _ _ => trivial) fun b _ => h b

/-- Free text passes on what the rest of the form answers. -/
theorem shortest {next : Scan α} (h : Yields next P) :
    Yields (shortest next) fun answer => P answer.2 := by
  intro cs answer ha
  obtain ⟨after, -, -, -, ha⟩ := shortest_eq_some ha
  exact h after answer.2 ha

theorem some1 {p : Char → Bool} {next : List Char → Scan α}
    (h : ∀ run, run ≠ [] → run.all p → Yields (next run) P) : Yields (some1 p next) P := by
  intro cs a ha
  obtain ⟨run, after, -, -, hne, hall, ha⟩ := some1_eq_some ha
  exact h run hne hall after a ha

theorem solid {next : List Char → Scan α} (h : ∀ run, IsSolid run → Yields (next run) P) :
    Yields (solid next) P :=
  some1 fun run hne hall => h run ⟨hne, by simpa using hall⟩

theorem word {next : List Char → Scan α} (h : ∀ run, isWordRun run → Yields (next run) P) :
    Yields (word next) P :=
  some1 fun run hne hall => h run (by simp [isWordRun, hne, hall])

/-- After a gap the rest of a text starts with a character that is no blank. -/
theorem gap_rest {next : List Char → α} (h : ∀ cs, IsFree (trim cs) → P (next cs)) :
    Yields (Scan.gap (rest next)) P := by
  intro cs a ha
  obtain ⟨blanks, after, -, -, -, ht, ha⟩ := gap_eq_some_iff.1 ha
  obtain ⟨hne, hl, rfl⟩ := rest_eq_some.1 ha
  refine h after (isFree_trim (fun hb => hne ?_) hl)
  rw [← ht, trimStart_eq_nil_iff, ← trim_eq_nil_iff, hb]

end Yields

end Scan
end FlowScript.Text
