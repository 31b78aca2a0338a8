import FlowScript.Proofs.Command.Written
import FlowScript.Proofs.Text.Keyword

/-!
# Branches that are written down

The condition of a branch ends where `then` first stands as a word of its own, and its command where
`else` does. So a branch is read as it is written if no word of the condition is the one keyword and
no word of the command the other one. Both may stand inside of longer words, in quotes with
something else beside them, or in the alternative, and the command may be a branch itself.

## Main definitions

* `Text.Lacks`: a keyword is no word of a text.
* `Command.branchText`: how a branch is written.

## Main statements

* `Text.Scan.gap_keyword_eq_none`: a keyword that a text lacks is not read in it.
* `Command.read?_branch`: a branch that is written is read back.
-/
namespace FlowScript

open Text Scan

/-! ## Words of a text -/

namespace Text

variable {word : String} {cs front back after written : List Char}

/-- A keyword, in whatever case, is none of the words that blanks separate in a text. -/
def Lacks (word : String) (cs : List Char) : Prop :=
  ∀ w ∈ cs.splitOnP isBlank, w.map fold ≠ word.toList

instance : Decidable (Lacks word cs) :=
  inferInstanceAs (Decidable (∀ w ∈ cs.splitOnP isBlank, w.map fold ≠ word.toList))

/-- What stands between a blank and the next one, or the end, is a word of a text. -/
theorem mem_splitOnP {b : Char} (hb : isBlank b) (hw : ∀ c ∈ written, isBlank c = false)
    (ha : ∀ c ∈ after.head?, isBlank c) (front : List Char) :
    written ∈ (front ++ b :: (written ++ after)).splitOnP isBlank := by
  rw [List.splitOnP_append_cons _ _ hb]
  refine List.mem_append_right _ ?_
  cases after with
  | nil =>
    rw [List.append_nil, List.splitOnP_eq_singleton hw]
    exact List.mem_singleton_self written
  | cons d after =>
    rw [List.splitOnP_append_cons_of_forall_mem hw d (ha d rfl)]
    exact List.mem_cons_self

/-- A recogniser of texts that start with a blank, if they start with anything. -/
def Scan.WantsBlank {α : Type} (next : Scan α) : Prop :=
  ∀ c cs, isBlank c = false → next (c :: cs) = none

theorem Scan.wantsBlank_gap {α : Type} (next : Scan α) : WantsBlank (gap next) := by
  intro c cs hc
  simp [gap, hc]

theorem Scan.wantsBlank_slack {α : Type} (next : Scan α) : WantsBlank (slack next) := by
  intro c cs hc
  simp [slack, hc]

/-- **A keyword that a text lacks is not read in it**, and neither is one that starts in the text
and ends behind it. -/
theorem Scan.gap_keyword_eq_none {α : Type} {next : Scan α} (hn : WantsBlank next)
    (hs : isSpelled word) (hf : IsFree (front ++ back)) (hl : Lacks word (front ++ back))
    (hb : back ≠ []) (ha : ∀ c ∈ after.head?, isBlank c) :
    gap (keyword word next) (back ++ after) = none := by
  by_contra hne
  obtain ⟨a, hread⟩ := Option.ne_none_iff_exists'.1 hne
  obtain ⟨blanks, rest, happ, hblanks, hblank, -, hk⟩ := gap_eq_some_iff.1 hread
  obtain ⟨behind, hw, hbehind⟩ := Option.bind_eq_some_iff.1 hk
  obtain ⟨written, rfl, hfold⟩ := afterWord?_eq_some_iff.1 hw
  have hrun := isWordRun_of_map_fold hs hfold
  have hsolid := IsSolid.of_isWordRun hrun
  -- the keyword lies in the text as a whole, since the text does not end in blanks
  obtain ⟨more, rfl, rfl⟩ : ∃ more, back = blanks ++ (written ++ more) ∧ behind = more ++ after := by
    cases after with
    | nil => exact ⟨behind, by simpa using happ, by simp⟩
    | cons c after =>
      have hc : c ∉ written := fun hm => by simp [hsolid.solid c hm] at ha
      rcases append_cons_eq_append happ hc hsolid.ne_nil with h | ⟨more, -, rfl⟩
      · exact h
      · exact absurd (fun b hm => hblank b (List.mem_append_left _ hm)) (hf.not_blank hb)
  have hmore : ∀ c ∈ more.head?, isBlank c := by
    intro c hc
    by_contra hcb
    cases more with
    | nil => simp at hc
    | cons d more =>
      obtain rfl := Option.some.inj hc
      rw [List.cons_append, hn d _ (by simpa using hcb)] at hbehind
      simp at hbehind
  obtain ⟨bs, b, rfl⟩ := (List.eq_nil_or_concat' blanks).resolve_left hblanks
  have hmem := mem_splitOnP (hblank b (by simp)) hsolid.solid hmore (front ++ bs)
  exact hl written (by simpa using hmem) hfold

end Text

namespace Command

variable {condition yes : String} {no : Option String}

/-! ## The text of a branch -/

/-- What follows the command of a branch. -/
def otherwise : Option String → List Char
  | none => []
  | some no => ' ' :: ("else".toList ++ ' ' :: no.toList)

/-- A branch as it is written, with single blanks between its parts. -/
def branchText (condition yes : String) : Option String → String
  | none => .join ["if ", condition, " then ", yes]
  | some no => .join ["if ", condition, " then ", yes, " else ", no]

theorem toList_branchText : (branchText condition yes no).toList =
    "if".toList ++ ' ' :: (condition.toList ++ ' ' :: ("then".toList ++
      ' ' :: (yes.toList ++ otherwise no))) := by
  cases no <;> simp [branchText, otherwise]

section Parts

variable (hc : IsFree condition.toList) (hy : IsFree yes.toList)
  (hn : ∀ text ∈ no, IsFree text.toList)

include hy hn in
/-- A branch that is written is a line. -/
theorem trimmed_branchText : trimmed (branchText condition yes no) = branchText condition yes no := by
  cases no with
  | none =>
    exact trimmed_join "if " [condition, " then ", yes] (by simp) (by decide) hy.ne_nil
      hy.trimEnd_eq
  | some no =>
    have hno := hn no rfl
    exact trimmed_join "if " [condition, " then ", yes, " else ", no] (by simp) (by decide)
      hno.ne_nil hno.trimEnd_eq

/-! ## Reading it back -/

include hn in
theorem alternative_otherwise : alternative (otherwise no) = some no := by
  cases no with
  | none => rfl
  | some no =>
    rw [otherwise, alternative, either, between_append (by decide), gap_rest (hn no rfl)]
    simp

include hy hn in
/-- The command ends where the alternative starts. -/
theorem shortest_alternative (hl : Lacks "else" yes.toList) :
    shortest alternative (yes.toList ++ otherwise no) = some (yes.toList, no) := by
  refine shortest_append hy.ne_nil hy.oneLine (alternative_otherwise hn) ?_
  intro front back he hf hb
  rw [he] at hy hl
  have hhead : ∀ c ∈ (otherwise no).head?, isBlank c := by
    cases no with
    | none => simp [otherwise]
    | some no =>
      rintro c ⟨⟩
      decide
  rw [alternative, either, between,
    gap_keyword_eq_none (wantsBlank_gap _) (by decide) hy hl hb hhead]
  simp [done, hb]

include hc hy hn in
theorem branchForm_branchText (ht : Lacks "then" condition.toList) (hl : Lacks "else" yes.toList) :
    branchForm (branchText condition yes no).toList = some (branch condition yes no) := by
  have hafter : slack (shortest alternative) (' ' :: (yes.toList ++ otherwise no)) =
      some (yes.toList, no) := by
    rw [slack_single (by decide) (hy.trimStart_append _), shortest_alternative hy hn hl]
  have hparts : shortest (gap (keyword "then" (slack (shortest alternative))))
      (condition.toList ++ ' ' :: ("then".toList ++ ' ' :: (yes.toList ++ otherwise no))) =
        some (condition.toList, yes.toList, no) := by
    refine shortest_append hc.ne_nil hc.oneLine ?_ ?_
    · rw [gap_keyword (by decide), hafter]
    · intro front back he hf hb
      rw [he] at hc ht
      refine gap_keyword_eq_none (wantsBlank_slack _) (by decide) hc ht hb ?_
      rintro c ⟨⟩
      decide
  rw [toList_branchText, branchForm, keyword_append (by decide), slack_map,
    slack_single (by decide) (hc.trimStart_append _), hparts]
  simp

include hc hy hn in
/-- **A branch that is written is read back.** -/
theorem read?_branch (ht : Lacks "then" condition.toList) (hl : Lacks "else" yes.toList) :
    read? rules (trimmed (branchText condition yes no)) =
      some ("if", branch condition yes no) := by
  rw [trimmed_branchText hy hn]
  exact read?_of_mem (by simp [rules]) (branchForm_branchText hc hy hn ht hl)

end Parts

end Command
end FlowScript
