import FlowScript.Proofs.Text.Blank
import FlowScript.Text.Scan

/-!
# What recognisers read

A recogniser that answers has read its text to the end. Each part of a form takes a stretch of the
text and leaves what follows it to the next one, so that the parts of a form are stretches of the
text that it reads.

## Main statements

* `afterWord?_eq_some_iff`: what stands before the text after a keyword.
* `Scan.some1_eq_some`, `Scan.shortest_eq_some`, `Scan.rest_eq_some`: the stretches that are kept.
* `Scan.keyword_suffix`, `Scan.gap_suffix`, `Scan.slack_suffix`: the stretches that are passed over.
-/
namespace FlowScript.Text

/-- What stands before the text after a keyword is the keyword in some case. -/
theorem afterWord?_eq_some_iff {word cs after : List Char} :
    afterWord? word cs = some after ↔ ∃ head, cs = head ++ after ∧ head.map fold = word := by
  constructor
  · intro h
    induction word generalizing cs with
    | nil =>
      simp only [afterWord?, Option.some.injEq] at h
      exact ⟨[], h, rfl⟩
    | cons w ws ih =>
      cases cs with
      | nil => simp [afterWord?] at h
      | cons c cs =>
        simp only [afterWord?] at h
        split at h
        · rename_i hc
          obtain ⟨head, rfl, hw⟩ := ih h
          exact ⟨c :: head, rfl, by rw [List.map_cons, hc, hw]⟩
        · simp at h
  · rintro ⟨head, rfl, rfl⟩
    induction head with
    | nil => rfl
    | cons c head ih => rw [List.map_cons, List.cons_append, afterWord?, if_pos rfl, ih]

theorem afterWord?_suffix {word cs after : List Char} (h : afterWord? word cs = some after) :
    after <:+ cs := by
  obtain ⟨head, rfl, -⟩ := afterWord?_eq_some_iff.1 h
  exact List.suffix_append _ _

namespace Scan

variable {α β : Type} {cs : List Char} {a : α}

/-! ## Parts that are passed over -/

theorem keyword_suffix {word : String} {next : Scan α} (h : keyword word next cs = some a) :
    ∃ after, after <:+ cs ∧ next after = some a := by
  simp only [keyword, Option.bind_eq_some_iff] at h
  obtain ⟨after, hw, hn⟩ := h
  exact ⟨after, afterWord?_suffix hw, hn⟩

theorem gap_suffix {next : Scan α} (h : gap next cs = some a) :
    ∃ after, after <:+ cs ∧ next after = some a := by
  cases cs with
  | nil => simp [gap] at h
  | cons c cs =>
    simp only [gap] at h
    split at h
    · exact ⟨_, (trimStart_suffix cs).trans (List.suffix_cons c cs), h⟩
    · simp at h

theorem slack_suffix {next : Scan α} (h : slack next cs = some a) :
    ∃ after, after <:+ cs ∧ next after = some a := by
  induction cs with
  | nil => simp [slack] at h
  | cons c cs ih =>
    simp only [slack] at h
    split at h
    · simp only [Option.orElse_eq_orElse, Option.orElse_eq_or, Option.or_eq_some_iff] at h
      rcases h with h | ⟨-, h⟩
      · obtain ⟨after, hs, hn⟩ := ih h
        exact ⟨after, hs.trans (List.suffix_cons c cs), hn⟩
      · exact ⟨cs, List.suffix_cons c cs, h⟩
    · simp at h

/-! ## Parts that are kept -/

theorem done_eq_some {b : α} : done b cs = some a ↔ cs = [] ∧ b = a := by
  simp [done]

theorem either_eq_some {first second : Scan α} (h : either first second cs = some a) :
    first cs = some a ∨ second cs = some a := by
  simp only [either, Option.orElse_eq_orElse, Option.orElse_eq_or, Option.or_eq_some_iff] at h
  rcases h with h | ⟨-, h⟩
  · exact .inl h
  · exact .inr h

theorem map_eq_some {f : β → α} {next : Scan β} :
    map f next cs = some a ↔ ∃ b, next cs = some b ∧ f b = a := by
  simp [map]

theorem some1_eq_some {p : Char → Bool} {next : List Char → Scan α}
    (h : some1 p next cs = some a) :
    ∃ run after, run <:+: cs ∧ after <:+ cs ∧ run ≠ [] ∧ run.all p ∧ next run after = some a := by
  simp only [some1] at h
  split at h
  · simp at h
  · rename_i hr
    exact ⟨_, _, (List.takeWhile_prefix _).isInfix, List.dropWhile_suffix _, by simpa using hr,
      List.all_takeWhile, h⟩

theorem word_eq_some {next : List Char → Scan α} (h : word next cs = some a) :
    ∃ run after, run <:+: cs ∧ after <:+ cs ∧ isWordRun run ∧ next run after = some a := by
  obtain ⟨run, after, hr, ha, hne, hall, hn⟩ := some1_eq_some h
  exact ⟨run, after, hr, ha, by simp [isWordRun, hne, hall], hn⟩

theorem solid_eq_some {next : List Char → Scan α} (h : solid next cs = some a) :
    ∃ run after, run <:+: cs ∧ after <:+ cs ∧ run ≠ [] ∧ next run after = some a := by
  obtain ⟨run, after, hr, ha, hne, -, hn⟩ := some1_eq_some h
  exact ⟨run, after, hr, ha, hne, hn⟩

theorem rest_eq_some {next : List Char → α} :
    rest next cs = some a ↔ cs ≠ [] ∧ '\n' ∉ cs ∧ next cs = a := by
  simp only [rest]
  by_cases h : (cs.isEmpty || cs.contains '\n') = true
  · rw [if_pos h]
    simp only [Bool.or_eq_true, List.isEmpty_iff, List.contains_iff_mem] at h
    simp only [reduceCtorEq, false_iff, not_and]
    intro hne hn
    exact absurd (h.resolve_left hne) hn
  · rw [if_neg h]
    simp only [Bool.or_eq_true, List.isEmpty_iff, List.contains_iff_mem, not_or] at h
    simp [h.1, h.2]

theorem shortestAfter_eq_some {next : Scan α} {read part : List Char}
    (h : shortestAfter next read cs = some (part, a)) :
    ∃ more after, cs = more ++ after ∧ part = read.reverse ++ more ∧ more ≠ [] ∧
      next after = some a := by
  induction cs generalizing read with
  | nil => simp [shortestAfter] at h
  | cons c cs ih =>
    simp only [shortestAfter] at h
    split at h
    · simp at h
    · cases hn : next cs with
      | some b =>
        simp only [hn, Option.some.injEq, Prod.mk.injEq] at h
        obtain ⟨rfl, rfl⟩ := h
        exact ⟨[c], cs, rfl, by simp, by simp, hn⟩
      | none =>
        simp only [hn] at h
        obtain ⟨more, after, rfl, rfl, -, ha⟩ := ih h
        exact ⟨c :: more, after, rfl, by simp, by simp, ha⟩

theorem shortest_eq_some {next : Scan α} {part : List Char}
    (h : shortest next cs = some (part, a)) :
    ∃ after, part <:+: cs ∧ after <:+ cs ∧ part ≠ [] ∧ next after = some a := by
  obtain ⟨more, after, rfl, rfl, hne, ha⟩ := shortestAfter_eq_some h
  exact ⟨after, by simpa using (List.prefix_append _ _).isInfix, List.suffix_append _ _,
    by simpa using hne, ha⟩

end Scan
end FlowScript.Text
