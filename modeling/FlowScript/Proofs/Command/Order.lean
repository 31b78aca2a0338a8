import FlowScript.Command
import FlowScript.Proofs.Text.Forms

/-!
# Forms that exclude each other

No text has the forms of two commands. Every form starts with keywords of its own, none of which
another form starts with, in whatever case; only the two forms that call something share theirs, and
of these one ends with the word behind it and the other one goes on. So a text that has a form is
read by it, and it does not matter in which order the rules are tried.

## Main definitions

* `Command.Begins`: a form starts with one of some keywords.

## Main statements

* `Command.pairwise_rules`: no text has the forms of two rules.
* `Command.read?_of_mem`: a text that has a form is read by it.
* `Command.read?_perm`: the rules may be tried in any order.
-/
namespace FlowScript

open Text Scan

/-! ## The first answer in a list -/

section First

variable {α β : Type} {f : α → Option β} {l l' : List α}

/-- The first answer does not depend on the order of a list if there is no other one. -/
theorem findSome?_perm (h : l.Perm l') (hl : l.Pairwise fun a b => f a = none ∨ f b = none) :
    l.findSome? f = l'.findSome? f := by
  induction h with
  | nil => rfl
  | cons a h ih => rw [List.findSome?_cons, List.findSome?_cons, ih (List.pairwise_cons.1 hl).2]
  | swap a b l =>
    rcases List.rel_of_pairwise_cons hl List.mem_cons_self with hb | ha
    · simp [List.findSome?_cons, hb]
    · simp [List.findSome?_cons, ha]
  | trans h h' ih ih' => exact (ih hl).trans (ih' (h.pairwise hl fun hab => hab.symm))

/-- An answer is the first one if there is no other one. -/
theorem findSome?_of_mem {a : α} {b : β} (hl : l.Pairwise fun a b => f a = none ∨ f b = none)
    (ha : a ∈ l) (h : f a = some b) : l.findSome? f = some b := by
  induction l with
  | nil => simp at ha
  | cons c l ih =>
    obtain ⟨hc, hl⟩ := List.pairwise_cons.1 hl
    obtain rfl | ha := List.mem_cons.1 ha
    · rw [List.findSome?_cons, h]
    · rw [List.findSome?_cons, (hc a ha).resolve_right (by simp [h])]
      exact ih hl ha

/-- There is at most one answer if there are no two. -/
theorem countP_isSome_le_one (hl : l.Pairwise fun a b => f a = none ∨ f b = none) :
    l.countP (fun a => (f a).isSome) ≤ 1 := by
  induction l with
  | nil => simp
  | cons a l ih =>
    obtain ⟨ha, hl⟩ := List.pairwise_cons.1 hl
    cases hf : f a with
    | none => simpa [hf] using ih hl
    | some b =>
      have hrest : l.countP (fun a => (f a).isSome) = 0 := by
        rw [List.countP_eq_zero]
        intro c hc
        simp [(ha c hc).resolve_left (by simp [hf])]
      simp [hrest, hf]

end First

namespace Command

/-! ## Keywords at the start -/

/-- Texts of a form start with one of some keywords, in any case. -/
def Begins {α : Type} (words : List String) (form : Scan α) : Prop :=
  ∀ cs a, form cs = some a → ∃ word ∈ words, word.toList <+: cs.map fold

theorem begins_keyword {α : Type} (word : String) (next : Scan α) :
    Begins [word] (keyword word next) := by
  intro cs a h
  obtain ⟨after, ha, -⟩ := Option.bind_eq_some_iff.1 h
  obtain ⟨head, rfl, hhead⟩ := afterWord?_eq_some_iff.1 ha
  exact ⟨word, List.mem_singleton_self word, by simp [← hhead]⟩

theorem Begins.either {α : Type} {words others : List String} {form other : Scan α}
    (h : Begins words form) (h' : Begins others other) :
    Begins (words ++ others) (either form other) := by
  intro cs a ha
  rcases either_eq_some ha with ha | ha
  · obtain ⟨word, hw, hp⟩ := h cs a ha
    exact ⟨word, List.mem_append_left _ hw, hp⟩
  · obtain ⟨word, hw, hp⟩ := h' cs a ha
    exact ⟨word, List.mem_append_right _ hw, hp⟩

/-- Of two forms only one can be that of a text if no keyword of one starts one of the other. -/
theorem Begins.apart {α : Type} {words others : List String} {form other : Scan α}
    (h : Begins words form) (h' : Begins others other)
    (hw : ∀ word ∈ words, ∀ word' ∈ others,
      ¬ word.toList <+: word'.toList ∧ ¬ word'.toList <+: word.toList) (cs : List Char) :
    form cs = none ∨ other cs = none := by
  by_contra hn
  rw [not_or] at hn
  obtain ⟨a, ha⟩ := Option.ne_none_iff_exists'.1 hn.1
  obtain ⟨b, hb⟩ := Option.ne_none_iff_exists'.1 hn.2
  obtain ⟨word, hm, hp⟩ := h cs a ha
  obtain ⟨word', hm', hp'⟩ := h' cs b hb
  have hapart := hw word hm word' hm'
  rcases List.prefix_or_prefix_of_prefix hp hp' with hpp | hpp
  · exact hapart.1 hpp
  · exact hapart.2 hpp

/-- The keywords with which the form under a verb starts: the verb itself, and sometimes another
one. -/
def firstWords (verb : String) : List String :=
  if verb = "repeat" then ["repeat", "loop"]
  else if verb = "set" then ["set", "assign"]
  else [verb]

theorem begins_of_mem_rules : ∀ rule ∈ rules, Begins (firstWords rule.verb) rule.read := by
  simp only [rules, List.forall_mem_cons, List.not_mem_nil, false_imp_iff, implies_true, and_true]
  exact ⟨begins_keyword _ _, begins_keyword _ _, begins_keyword _ _,
    (begins_keyword _ _).either (begins_keyword _ _), begins_keyword _ _, begins_keyword _ _,
    begins_keyword _ _, (begins_keyword _ _).either (begins_keyword _ _), begins_keyword _ _,
    begins_keyword _ _, begins_keyword _ _, begins_keyword _ _, begins_keyword _ _, begins_keyword _ _,
    begins_keyword _ _⟩

/-- No keyword of a form starts a keyword under another verb. -/
theorem firstWords_apart : ∀ verb ∈ rules.map Rule.verb, ∀ verb' ∈ rules.map Rule.verb,
    verb ≠ verb' → ∀ word ∈ firstWords verb, ∀ word' ∈ firstWords verb',
      ¬ word.toList <+: word'.toList ∧ ¬ word'.toList <+: word.toList := by
  decide +kernel

/-- No more is read behind a part that has no blanks if there are none in the text. -/
theorem solid_gap_eq_none {α : Type} {cs : List Char} (h : ∀ c ∈ cs, isBlank c = false)
    (next : List Char → Scan α) : solid (fun run => gap (next run)) cs = none := by
  have hdrop : cs.dropWhile (!isBlank ·) = [] :=
    List.dropWhile_eq_nil_iff.2 fun c hc => by simp [h c hc]
  rw [solid, some1, hdrop]
  exact ite_self none

/-- A template is called by a single word, and behind an endpoint more has to follow. -/
theorem fetchForm_or_invokeForm (cs : List Char) : fetchForm cs = none ∨ invokeForm cs = none := by
  cases hi : invokeForm cs with
  | none => exact .inr rfl
  | some c =>
    obtain ⟨after, ha, hi⟩ := Option.bind_eq_some_iff.1 hi
    obtain ⟨blanks, name, rfl, hne, hb, ht, hi⟩ := gap_eq_some_iff.1 hi
    obtain ⟨run, rest, rfl, hrun, hd⟩ := word_append_eq_some hi
    obtain ⟨rfl, -⟩ := done_eq_some.1 hd
    rw [List.append_nil] at ha ht
    rw [fetchForm, keyword, ha, Option.bind_some, gap_append hne hb ht]
    exact .inl (solid_gap_eq_none (IsSolid.of_isWordRun hrun).solid _)

/-- No text has the forms of two rules. -/
theorem pairwise_rules :
    rules.Pairwise fun rule other => ∀ cs, rule.read cs = none ∨ other.read cs = none := by
  have hverbs : rules.Pairwise fun rule other => rule.verb ≠ other.verb ∨
      (rule.read = fetchForm ∧ other.read = invokeForm) := by
    simp [rules]
  refine hverbs.imp_of_mem ?_
  intro rule other hr ho h cs
  rcases h with hne | ⟨hfetch, hinvoke⟩
  · refine (begins_of_mem_rules rule hr).apart (begins_of_mem_rules other ho) ?_ cs
    exact firstWords_apart _ (List.mem_map_of_mem hr) _ (List.mem_map_of_mem ho) hne
  · rw [hfetch, hinvoke]
    exact fetchForm_or_invokeForm cs

/-- No line is read by two rules. -/
theorem pairwise_read? (line : String) : rules.Pairwise fun rule other =>
    (rule.read line.toList).map (fun command => (rule.verb, command)) = none ∨
      (other.read line.toList).map (fun command => (other.verb, command)) = none :=
  pairwise_rules.imp fun h => by simpa using h line.toList

/-- A line that has a form is read by it, whatever the other forms are. -/
theorem read?_of_mem {verb line : String} {form : Scan Command} {c : Command}
    (hr : ⟨verb, form⟩ ∈ rules) (h : form line.toList = some c) :
    read? rules line = some (verb, c) :=
  findSome?_of_mem (pairwise_read? line) hr (by simp [h])

/-- The rules may be tried in any order. -/
theorem read?_perm {rs : List Rule} (h : rs.Perm rules) (line : String) :
    read? rs line = read? rules line :=
  (findSome?_perm h.symm (pairwise_read? line)).symm

end Command

end FlowScript
