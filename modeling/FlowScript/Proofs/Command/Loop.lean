import FlowScript.Proofs.Command.Written
import FlowScript.Proofs.Numeric.Digits
import FlowScript.Proofs.Text.Keyword

/-!
# Loops that are written down

A counted loop can be written with its body in front of the count or behind it. In front of it, the
body ends where a count and the word `times` end the text, and a text has only one such end. So the
body may hold counts of its own, the word `times`, or another loop: whichever way the loop is
written, the same body and the same count are read.

## Main definitions

* `Command.tally`: how the count is written behind the body.
* `Command.loopTexts`: how a loop is written.

## Main statements

* `number?_digits`: digits are read as an integer, unless there are too many of them.
* `Command.tallied_unique`: a text that ends with a count ends with no other one.
* `Command.read?_loop`: a loop that is written is read back.
-/
namespace FlowScript

open Text Scan

/-! ## Counts -/

namespace Text

variable {cs : List Char}

theorem isDigitRun_iff : isDigitRun cs ↔ cs ≠ [] ∧ ∀ c ∈ cs, isDigit c := by
  simp [isDigitRun]

theorem IsSolid.of_isDigitRun (h : isDigitRun cs) : IsSolid cs := by
  obtain ⟨hne, hd⟩ := isDigitRun_iff.1 h
  exact ⟨hne, fun c hc => not_isBlank_of_isDigit (hd c hc)⟩

end Text

/-- Digits are read as an integer, unless there are too many of them. -/
theorem number?_digits {digits : List Char} (h : isDigitRun digits) :
    number? digits = (wholeNumber digits).map fun n => some (.int n) := by
  obtain ⟨hne, hd⟩ := isDigitRun_iff.1 h
  have hr : Numeral.read? ([] ++ digits) = some ⟨false, digits, none, none⟩ :=
    Numeral.read?_digits (by simp) (List.all_eq_true.2 hd) hne
  rw [List.nil_append] at hr
  rw [number?, (IsSolid.of_isDigitRun h).isFree.trim_eq, hr]
  simp only [Numeral.value]
  cases wholeNumber digits <;> rfl

namespace Command

/-! ## The count behind a body -/

/-- What follows the body of a loop. -/
def tallied : Scan (List Char) :=
  gap (some1 isDigit fun times => gap (keyword "times" (done times)))

/-- The count that a loop ends with, as it is written. -/
def tally (times : List Char) : List Char :=
  ' ' :: (times ++ ' ' :: "times".toList)

/-- The count stands in front of a word, with blanks before and behind it. -/
theorem tallied_eq_some {cs times : List Char} (h : tallied cs = some times) :
    ∃ front behind word, cs = front ++ times ++ behind ++ word ∧ front ≠ [] ∧
      (∀ b ∈ front, isBlank b) ∧ isDigitRun times ∧ behind ≠ [] ∧ (∀ b ∈ behind, isBlank b) ∧
      isWordRun word := by
  obtain ⟨front, cs₁, rfl, hf, hfb, -, h₁⟩ := gap_eq_some_iff.1 h
  obtain ⟨run, cs₂, rfl, hne, hd, h₂⟩ := some1_append_eq_some h₁
  obtain ⟨behind, cs₃, rfl, hb, hbb, -, h₃⟩ := gap_eq_some_iff.1 h₂
  obtain ⟨cs₄, hw, h₄⟩ := Option.bind_eq_some_iff.1 h₃
  obtain ⟨word, rfl, hword⟩ := afterWord?_eq_some_iff.1 hw
  obtain ⟨rfl, rfl⟩ := done_eq_some.1 h₄
  exact ⟨front, behind, word, by simp, hf, hfb, by simp [isDigitRun, hne, hd], hb, hbb,
    isWordRun_of_map_fold (by decide) hword⟩

/-- **The only count that ends a text is the last one.** A count that is read from an earlier place
on has nothing but blanks in front of the last one. -/
theorem tallied_unique {back times found : List Char} (ht : isDigitRun times)
    (h : tallied (back ++ tally times) = some found) : ∀ b ∈ back, isBlank b := by
  obtain ⟨front, behind, word, hc, hf, hfb, hr, hb, hbb, hw⟩ := tallied_eq_some h
  have hword {run : List Char} (hr : isWordRun run) := (IsSolid.of_isWordRun hr).solid
  have hdigits {run : List Char} (hr : isDigitRun run) := (IsSolid.of_isDigitRun hr).solid
  have hc' : (back ++ ' ' :: times) ++ ' ' :: "times".toList =
      (front ++ found) ++ behind ++ word := by
    simpa [tally] using hc
  have hlast : ∀ c ∈ (back ++ ' ' :: times).getLast?, isBlank c = false := by
    intro c hc
    obtain ⟨ds, d, rfl⟩ := (List.eq_nil_or_concat' times).resolve_left (isDigitRun_iff.1 ht).1
    rw [← List.cons_append, ← List.append_assoc, List.getLast?_concat] at hc
    obtain rfl := Option.some.inj hc
    exact hdigits ht d (by simp)
  obtain ⟨hcount, -, -⟩ :=
    append_blanks_inj hb hbb (hword hw) (hword (by decide)) hlast hc'.symm
  -- what stands before the count that has been read are blanks, and so is its beginning
  obtain ⟨fs, f, rfl⟩ := (List.eq_nil_or_concat' front).resolve_left hf
  rw [List.append_assoc, List.singleton_append] at hcount
  obtain ⟨rfl, -, -⟩ :=
    append_blank_inj (hfb f (by simp)) (by decide) (hdigits hr) (hdigits ht) hcount
  exact fun b hm => hfb b (List.mem_append_left _ hm)

/-! ## The texts of a loop -/

variable {body times text : String}

/-- A loop as it is written, with single blanks between its parts: with its body first, under
either verb, or with its count first. -/
def loopTexts (body times : String) : List String :=
  [.join ["repeat ", body, " ", times, " times"], .join ["loop ", body, " ", times, " times"],
    .join ["for ", times, " times ", body]]

/-- The count is read back when the text goes on with a blank. -/
theorem some1_count {α : Type} {digits : List Char} (h : isDigitRun digits)
    (next : List Char → Scan α) (cs : List Char) :
    gap (some1 isDigit next) (' ' :: (digits ++ ' ' :: cs)) = next digits (' ' :: cs) := by
  obtain ⟨hne, hd⟩ := isDigitRun_iff.1 h
  rw [gap_blank (by decide), (IsSolid.of_isDigitRun h).trimStart_append]
  refine some1_append hne hd _ (fun c hc => ?_) next
  obtain rfl : ' ' = c := by simpa using hc
  decide

theorem tallied_tally {digits : List Char} (h : isDigitRun digits) :
    tallied (tally digits) = some digits := by
  have hword : keyword "times" (done digits) ("times".toList ++ []) = done digits [] :=
    keyword_append (by decide) _ _
  rw [List.append_nil] at hword
  rw [tallied, tally, some1_count h, gap_blank (by decide),
    show trimStart "times".toList = "times".toList by decide, hword]
  rfl

/-- A body ends where the count starts. -/
theorem countedBody_tally (hb : IsFree body.toList) (ht : isDigitRun times.toList) :
    countedBody (' ' :: (body.toList ++ tally times.toList)) = some (count body times) := by
  have hparts : shortest tallied (body.toList ++ tally times.toList) =
      some (body.toList, times.toList) := by
    refine shortest_append hb.ne_nil hb.oneLine (tallied_tally ht) ?_
    intro front back he hf hne
    by_contra hn
    obtain ⟨found, hfound⟩ := Option.ne_none_iff_exists'.1 hn
    exact (he ▸ hb).not_blank hne (tallied_unique ht hfound)
  rw [countedBody, slack_map, slack_single (by decide) (hb.trimStart_append _), ← tallied, hparts]
  simp [pair]

theorem toList_bodyFirst (verb : String) :
    (String.join [verb, body, " ", times, " times"]).toList =
      verb.toList ++ (body.toList ++ tally times.toList) := by
  simp [tally]

/-- A loop with its body in front of the count. -/
theorem repeatForm_loop (hb : IsFree body.toList) (ht : isDigitRun times.toList) {verb : String}
    (hv : verb = "repeat " ∨ verb = "loop ") :
    repeatForm (String.join [verb, body, " ", times, " times"]).toList =
      some (count body times) := by
  rw [toList_bodyFirst]
  rcases hv with rfl | rfl
  · have hs : "repeat ".toList ++ (body.toList ++ tally times.toList) =
        "repeat".toList ++ ' ' :: (body.toList ++ tally times.toList) := rfl
    rw [repeatForm, either, hs, keyword_append (by decide), countedBody_tally hb ht]
    rfl
  · have hs : "loop ".toList ++ (body.toList ++ tally times.toList) =
        "loop".toList ++ ' ' :: (body.toList ++ tally times.toList) := rfl
    have hword : isKeyword "loop" := by decide
    rw [repeatForm, either, hs, keyword_append hword, countedBody_tally hb ht]
    rfl

/-- A loop with its count in front of the body. -/
theorem forForm_loop (hb : IsFree body.toList) (ht : isDigitRun times.toList) :
    forForm (String.join ["for ", times, " times ", body]).toList = some (count body times) := by
  have hs : (String.join ["for ", times, " times ", body]).toList =
      "for".toList ++ ' ' :: (times.toList ++ ' ' :: ("times".toList ++ ' ' :: body.toList)) := by
    simp
  rw [hs, forForm, keyword_append (by decide), some1_count ht, between_append (by decide),
    gap_rest hb]
  simp [pair]

/-- A loop that is written is a line. -/
theorem trimmed_loop (hb : IsFree body.toList) (h : text ∈ loopTexts body times) :
    trimmed text = text := by
  have hlast : trimEnd " times".toList = " times".toList := by decide
  simp only [loopTexts, List.mem_cons, List.not_mem_nil, or_false] at h
  rcases h with rfl | rfl | rfl
  · exact trimmed_join "repeat " [body, " ", times, " times"] (by simp) (by decide) (by simp) hlast
  · exact trimmed_join "loop " [body, " ", times, " times"] (by simp) (by decide) (by simp) hlast
  · exact trimmed_join "for " [times, " times ", body] (by simp) (by decide) hb.ne_nil
      hb.trimEnd_eq

/-- **A loop that is written is read back**, whichever way it is written. -/
theorem read?_loop (hb : IsFree body.toList) (ht : isDigitRun times.toList)
    (h : text ∈ loopTexts body times) :
    ∃ verb, read? rules (trimmed text) = some (verb, count body times) := by
  rw [trimmed_loop hb h]
  simp only [loopTexts, List.mem_cons, List.not_mem_nil, or_false] at h
  rcases h with rfl | rfl | rfl
  · exact ⟨"repeat", read?_of_mem (by simp [rules]) (repeatForm_loop hb ht (.inl rfl))⟩
  · exact ⟨"repeat", read?_of_mem (by simp [rules]) (repeatForm_loop hb ht (.inr rfl))⟩
  · exact ⟨"for", read?_of_mem (by simp [rules]) (forForm_loop hb ht)⟩

example : read? rules "repeat repeat break 2 times 3 times" =
    some ("repeat", count "repeat break 2 times" "3") := by decide

end Command
end FlowScript
