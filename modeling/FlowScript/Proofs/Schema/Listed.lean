import FlowScript.Schema.Packaged
import Mathlib.Data.List.Sort
import Mathlib.Data.Prod.Lex
import Mathlib.Data.String.Basic

/-!
# The order of reports

What is wrong in a document is listed by places and, at one place, by wordings. The list depends on
which reports there are, and not on the order in which they are made.

## Main definitions

* `Report.entry`: the place and the wording of a report, in the order of the list.

## Main statements

* `Report.listed_perm`: reports are listed alike in whatever order they are made.
* `Schema.Root.errors_eq_listed`: the errors of a document are the reports of its violations.
-/
namespace FlowScript

namespace Report

/-- The place and the wording of a report. -/
def entry (r : Report) : String ×ₗ String :=
  toLex (r.place, r.wording)

theorem le_eq (r r' : Report) : r.le r' = decide (r.entry ≤ r'.entry) := by
  rw [Bool.eq_iff_iff]
  simp [le, entry, Prod.Lex.toLex_le_toLex]

/-- The order of reports is that of their places and wordings. -/
theorem listed_eq (rs : List Report) :
    listed rs = ((rs.map entry).mergeSort (· ≤ ·)).map fun p =>
      .join ["Validation error: ", (ofLex p).1, ": ", (ofLex p).2] := by
  rw [listed, ← List.map_mergeSort fun r _ r' _ => le_eq r r', List.map_map]
  rfl

@[simp] theorem listed_nil : listed [] = [] := by
  simp [listed]

@[simp] theorem listed_eq_nil_iff {rs : List Report} : listed rs = [] ↔ rs = [] := by
  rw [← List.length_eq_zero_iff, listed, List.length_map, List.length_mergeSort,
    List.length_eq_zero_iff]

/-- The listing does not depend on the order in which reports are made. -/
theorem listed_perm {rs rs' : List Report} (h : rs.Perm rs') : listed rs = listed rs' := by
  have hp : ((rs.map entry).mergeSort (· ≤ ·)).Perm ((rs'.map entry).mergeSort (· ≤ ·)) :=
    (List.mergeSort_perm _ _).trans ((h.map entry).trans (List.mergeSort_perm _ _).symm)
  rw [listed_eq, listed_eq, hp.eq_of_sortedLE List.sortedLE_mergeSort List.sortedLE_mergeSort]

/-- What comes last in the order is listed last. -/
theorem listed_concat {rs : List Report} {r : Report} (h : ∀ r' ∈ rs, r'.entry ≤ r.entry) :
    listed (rs ++ [r]) = listed rs ++ [r.message] := by
  have hp : (((rs ++ [r]).map entry).mergeSort (· ≤ ·)).Perm
      ((rs.map entry).mergeSort (· ≤ ·) ++ [r.entry]) := by
    refine (List.mergeSort_perm _ _).trans ?_
    rw [List.map_append]
    exact (List.mergeSort_perm _ _).symm.append_right _
  have hs : ((rs.map entry).mergeSort (· ≤ ·) ++ [r.entry]).SortedLE := by
    refine (List.pairwise_append.2 ⟨List.sortedLE_mergeSort.pairwise, by simp, ?_⟩).sortedLE
    intro p hm q hq
    obtain rfl := List.mem_singleton.1 hq
    obtain ⟨r', hr, rfl⟩ := List.mem_map.1 (List.mem_mergeSort.1 hm)
    exact h r' hr
  rw [listed_eq, hp.eq_of_sortedLE List.sortedLE_mergeSort hs, List.map_append, ← listed_eq]
  rfl

end Report

namespace Schema.Root

/-- The errors of a document are the reports of its violations. -/
theorem errors_eq_listed (r : Root) (j : Json) :
    r.errors j = Report.listed ((r.found j).map Violation.report) := by
  have hle : ∀ v ∈ r.found j, ∀ w ∈ r.found j, v.report.le w.report = v.report.le w.report :=
    fun _ _ _ _ => rfl
  rw [errors, violations, Report.listed, ← List.map_mergeSort hle, List.map_map]
  rfl

end Schema.Root

end FlowScript
