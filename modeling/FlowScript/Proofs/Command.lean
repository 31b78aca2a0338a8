import FlowScript.Command
import FlowScript.Proofs.Text.Scan

/-!
# Parts of commands

What a line is read as fits the line: names are words, an endpoint is not empty, and all parts that
are read later on are stretches of the line.

## Main definitions

* `Command.Fits`: how the parts of a command fit a line.

## Main statements

* `Command.fits_of_read?`: every command fits the line that it is read from.
-/
namespace FlowScript.Command

open Text Scan

/-- How the parts of a command fit a line: those that are read later on are stretches of it, names
are words, and an endpoint is not empty. -/
def Fits (line : List Char) : Command → Prop
  | define _ body => body.toList <:+: line
  | fetch endpoint target => endpoint.toList ≠ [] ∧ isWordRun target.toList
  | invoke _ => True
  | count body times => body.toList <:+: line ∧ times.toList <:+: line
  | branch condition yes no =>
    condition.toList <:+: line ∧ yes.toList <:+: line ∧ ∀ text ∈ no, text.toList <:+: line
  | wait seconds => seconds.toList <:+: line
  | set _ value => value.toList <:+: line
  | leave => True
  | ret value => value.toList <:+: line
  | analyze input model => input.toList <:+: line ∧ isWordRun model.toList
  | render _ target => isWordRun target.toList
  | state _ initial => initial.toList <:+: line
  | style _ _ => True
  | listen _ _ => True

variable {line : List Char} {c : Command}

theorem Fits.mono {part : List Char} (h : Fits part c) (hp : part <:+: line) : Fits line c := by
  cases c with
  | define name body => exact h.trans hp
  | count body times => exact ⟨h.1.trans hp, h.2.trans hp⟩
  | branch condition yes no =>
    exact ⟨h.1.trans hp, h.2.1.trans hp, fun text ht => (h.2.2 text ht).trans hp⟩
  | wait seconds => exact h.trans hp
  | set target value => exact h.trans hp
  | ret value => exact h.trans hp
  | analyze input model => exact ⟨h.1.trans hp, h.2⟩
  | state name initial => exact h.trans hp
  | fetch endpoint target => exact h
  | render component target => exact h
  | invoke name => trivial
  | leave => trivial
  | style selector properties => trivial
  | listen event handler => trivial

/-! ## Forms -/

theorem between_suffix {α : Type} {word : String} {next : Scan α} {cs : List Char} {a : α}
    (h : between word next cs = some a) : ∃ after, after <:+ cs ∧ next after = some a := by
  obtain ⟨_, h₁, h⟩ := gap_suffix h
  obtain ⟨_, h₂, h⟩ := keyword_suffix h
  obtain ⟨after, h₃, h⟩ := gap_suffix h
  exact ⟨after, h₃.trans (h₂.trans h₁), h⟩

theorem fits_of_defineForm (h : defineForm line = some c) : c.Fits line := by
  obtain ⟨_, h₁, h⟩ := keyword_suffix h
  obtain ⟨_, h₂, h⟩ := gap_suffix h
  obtain ⟨_, _, -, h₃, -, h⟩ := word_eq_some h
  obtain ⟨body, h₄, h⟩ := gap_suffix h
  obtain ⟨-, -, rfl⟩ := rest_eq_some.1 h
  simpa [pair, Fits] using (h₄.trans (h₃.trans (h₂.trans h₁))).isInfix

theorem fits_of_fetchForm (h : fetchForm line = some c) : c.Fits line := by
  obtain ⟨_, -, h⟩ := keyword_suffix h
  obtain ⟨_, -, h⟩ := gap_suffix h
  obtain ⟨endpoint, _, -, -, he, h⟩ := solid_eq_some h
  obtain ⟨_, -, h⟩ := gap_suffix h
  obtain ⟨_, -, h⟩ := keyword_suffix h
  obtain ⟨_, -, h⟩ := between_suffix h
  obtain ⟨target, _, -, -, ht, h⟩ := word_eq_some h
  obtain ⟨-, rfl⟩ := done_eq_some.1 h
  simpa [pair, Fits] using ⟨he, ht⟩

theorem fits_of_invokeForm (h : invokeForm line = some c) : c.Fits line := by
  obtain ⟨_, -, h⟩ := keyword_suffix h
  obtain ⟨_, -, h⟩ := gap_suffix h
  obtain ⟨_, _, -, -, -, h⟩ := word_eq_some h
  obtain ⟨-, rfl⟩ := done_eq_some.1 h
  trivial

theorem fits_of_countedBody (h : countedBody line = some c) : c.Fits line := by
  obtain ⟨_, h₁, h⟩ := slack_suffix h
  obtain ⟨⟨body, times⟩, hr, rfl⟩ := map_eq_some.1 h
  obtain ⟨_, hb, h₂, -, h⟩ := shortest_eq_some hr
  obtain ⟨_, h₃, h⟩ := gap_suffix h
  obtain ⟨_, _, ht, -, -, -, h⟩ := some1_eq_some h
  obtain ⟨_, -, h⟩ := gap_suffix h
  obtain ⟨_, -, h⟩ := keyword_suffix h
  obtain ⟨-, rfl⟩ := done_eq_some.1 h
  simpa [pair, Fits] using
    ⟨hb.trans h₁.isInfix, ht.trans (h₃.trans (h₂.trans h₁)).isInfix⟩

theorem fits_of_repeatForm (h : repeatForm line = some c) : c.Fits line := by
  rcases either_eq_some h with h | h
  all_goals
    obtain ⟨_, h₁, h⟩ := keyword_suffix h
    exact (fits_of_countedBody h).mono h₁.isInfix

theorem fits_of_forForm (h : forForm line = some c) : c.Fits line := by
  obtain ⟨_, h₁, h⟩ := keyword_suffix h
  obtain ⟨_, h₂, h⟩ := gap_suffix h
  obtain ⟨times, _, ht, h₃, -, -, h⟩ := some1_eq_some h
  obtain ⟨body, h₄, h⟩ := between_suffix h
  obtain ⟨-, -, rfl⟩ := rest_eq_some.1 h
  simpa [pair, Fits] using
    ⟨(h₄.trans (h₃.trans (h₂.trans h₁))).isInfix, ht.trans (h₂.trans h₁).isInfix⟩

theorem fits_of_branchForm (h : branchForm line = some c) : c.Fits line := by
  obtain ⟨_, h₁, h⟩ := keyword_suffix h
  obtain ⟨_, h₂, h⟩ := slack_suffix h
  obtain ⟨⟨condition, yes, no⟩, hr, rfl⟩ := map_eq_some.1 h
  obtain ⟨_, hc, h₃, -, h⟩ := shortest_eq_some hr
  obtain ⟨_, h₄, h⟩ := gap_suffix h
  obtain ⟨_, h₅, h⟩ := keyword_suffix h
  obtain ⟨_, h₆, h⟩ := slack_suffix h
  obtain ⟨after, hy, h₇, -, h⟩ := shortest_eq_some h
  have hs := h₆.trans (h₅.trans (h₄.trans (h₃.trans (h₂.trans h₁))))
  have hn : ∀ text ∈ no, text.toList <:+: line := by
    rcases either_eq_some h with h | h
    · obtain ⟨rest, h₈, h⟩ := between_suffix h
      obtain ⟨-, -, rfl⟩ := rest_eq_some.1 h
      simpa using (h₈.trans (h₇.trans hs)).isInfix
    · obtain ⟨-, rfl⟩ := done_eq_some.1 h
      simp
  simpa [Fits] using ⟨hc.trans (h₂.trans h₁).isInfix, hy.trans hs.isInfix, hn⟩

theorem fits_of_waitForm (h : waitForm line = some c) : c.Fits line := by
  obtain ⟨_, h₁, h⟩ := keyword_suffix h
  obtain ⟨_, h₂, h⟩ := gap_suffix h
  obtain ⟨seconds, _, hs, -, -, h⟩ := solid_eq_some h
  obtain ⟨_, -, h⟩ := gap_suffix h
  obtain ⟨_, -, h⟩ := keyword_suffix h
  have hc : c = wait (String.ofList seconds) := by
    rcases either_eq_some h with h | h
    · obtain ⟨_, -, h⟩ := keyword_suffix h
      exact (done_eq_some.1 h).2.symm
    · exact (done_eq_some.1 h).2.symm
  simpa [hc, Fits] using hs.trans (h₂.trans h₁).isInfix

theorem fits_of_setForm (h : setForm line = some c) : c.Fits line := by
  rcases either_eq_some h with h | h
  all_goals
    obtain ⟨_, h₁, h⟩ := keyword_suffix h
    obtain ⟨_, h₂, h⟩ := gap_suffix h
    obtain ⟨_, _, -, h₃, -, h⟩ := solid_eq_some h
    obtain ⟨_, h₄, h⟩ := between_suffix h
    obtain ⟨-, -, rfl⟩ := rest_eq_some.1 h
    simpa [pair, Fits] using (h₄.trans (h₃.trans (h₂.trans h₁))).isInfix

theorem fits_of_leaveForm (h : leaveForm line = some c) : c.Fits line := by
  obtain ⟨_, -, h⟩ := keyword_suffix h
  obtain ⟨-, rfl⟩ := done_eq_some.1 h
  trivial

theorem fits_of_retForm (h : retForm line = some c) : c.Fits line := by
  obtain ⟨_, h₁, h⟩ := keyword_suffix h
  rcases either_eq_some h with h | h
  · obtain ⟨-, rfl⟩ := done_eq_some.1 h
    simp [Fits]
  · obtain ⟨_, h₂, h⟩ := gap_suffix h
    obtain ⟨-, -, rfl⟩ := rest_eq_some.1 h
    simpa [Fits] using (h₂.trans h₁).isInfix

theorem fits_of_analyzeForm (h : analyzeForm line = some c) : c.Fits line := by
  obtain ⟨_, h₁, h⟩ := keyword_suffix h
  obtain ⟨_, h₂, h⟩ := slack_suffix h
  obtain ⟨⟨input, model⟩, hr, rfl⟩ := map_eq_some.1 h
  obtain ⟨_, hi, h₃, -, h⟩ := shortest_eq_some hr
  obtain ⟨_, h₄, h⟩ := between_suffix h
  obtain ⟨_, _, -, -, hm, h⟩ := word_eq_some h
  obtain ⟨-, rfl⟩ := done_eq_some.1 h
  simpa [pair, Fits] using ⟨hi.trans (h₂.trans h₁).isInfix, hm⟩

theorem fits_of_renderForm (h : renderForm line = some c) : c.Fits line := by
  obtain ⟨_, -, h⟩ := keyword_suffix h
  obtain ⟨_, -, h⟩ := gap_suffix h
  obtain ⟨_, _, -, -, -, h⟩ := word_eq_some h
  obtain ⟨_, -, h⟩ := between_suffix h
  obtain ⟨_, _, -, -, ht, h⟩ := word_eq_some h
  obtain ⟨-, rfl⟩ := done_eq_some.1 h
  simpa [pair, Fits] using ht

theorem fits_of_stateForm (h : stateForm line = some c) : c.Fits line := by
  obtain ⟨_, h₁, h⟩ := keyword_suffix h
  obtain ⟨_, h₂, h⟩ := gap_suffix h
  obtain ⟨_, _, -, h₃, -, h⟩ := word_eq_some h
  obtain ⟨_, h₄, h⟩ := between_suffix h
  obtain ⟨-, -, rfl⟩ := rest_eq_some.1 h
  simpa [pair, Fits] using (h₄.trans (h₃.trans (h₂.trans h₁))).isInfix

theorem fits_of_styleForm (h : styleForm line = some c) : c.Fits line := by
  obtain ⟨_, -, h⟩ := keyword_suffix h
  obtain ⟨_, -, h⟩ := gap_suffix h
  obtain ⟨_, _, -, -, -, h⟩ := solid_eq_some h
  obtain ⟨_, -, h⟩ := between_suffix h
  obtain ⟨-, -, rfl⟩ := rest_eq_some.1 h
  trivial

theorem fits_of_listenForm (h : listenForm line = some c) : c.Fits line := by
  obtain ⟨_, -, h⟩ := keyword_suffix h
  obtain ⟨_, -, h⟩ := gap_suffix h
  obtain ⟨_, _, -, -, -, h⟩ := word_eq_some h
  obtain ⟨_, -, h⟩ := between_suffix h
  obtain ⟨_, _, -, -, -, h⟩ := word_eq_some h
  obtain ⟨-, rfl⟩ := done_eq_some.1 h
  trivial

/-- A command is read by one of the rules, and its verb is that of the rule. -/
theorem exists_rule_of_read? {rs : List Rule} {text verb : String}
    (h : read? rs text = some (verb, c)) :
    ∃ rule ∈ rs, rule.verb = verb ∧ rule.read text.toList = some c := by
  obtain ⟨rule, hr, h⟩ := List.exists_of_findSome?_eq_some h
  simp only [Option.map_eq_some_iff, Prod.mk.injEq] at h
  obtain ⟨_, hc, hv, rfl⟩ := h
  exact ⟨rule, hr, hv, hc⟩

/-- **Every command fits the line that it is read from.** -/
theorem fits_of_read? {text verb : String} (h : read? rules text = some (verb, c)) :
    c.Fits text.toList := by
  obtain ⟨rule, hr, -, h⟩ := exists_rule_of_read? h
  simp only [rules, List.mem_cons, List.not_mem_nil, or_false] at hr
  rcases hr with rfl | rfl | rfl | rfl | rfl | rfl | rfl | rfl | rfl | rfl | rfl | rfl | rfl |
    rfl | rfl
  · exact fits_of_defineForm h
  · exact fits_of_fetchForm h
  · exact fits_of_invokeForm h
  · exact fits_of_repeatForm h
  · exact fits_of_forForm h
  · exact fits_of_branchForm h
  · exact fits_of_waitForm h
  · exact fits_of_setForm h
  · exact fits_of_leaveForm h
  · exact fits_of_retForm h
  · exact fits_of_analyzeForm h
  · exact fits_of_renderForm h
  · exact fits_of_stateForm h
  · exact fits_of_styleForm h
  · exact fits_of_listenForm h

end FlowScript.Command
