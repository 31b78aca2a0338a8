import FlowScript.Proofs.Command.Verb
import FlowScript.Proofs.Session.Requests
import FlowScript.Proofs.Step.Counting

/-!
# Loops of a session

A counted loop is named by a number, and its counter by that name. Copies keep the counters of their
templates, so the counters of two loops may be the same. But a loop never counts with the counter of
a loop around it: what stands in its body is either a copy of a template that had been defined before
the loop was numbered, or has been numbered after it.

## Main definitions

* `Session.Accounts`: where the counter of a loop can come from.
* `Session.Counting`: all loops of the templates count, and have been numbered.

## Main statements

* `Compile.Run.provides`: the counters that a run brings with it are those of old templates, or of
  loops that it numbers.
* `Compile.Run.counting`: the loops of every line count.
* `loops_count`: so do all loops of a session, whatever is asked of it.
-/
namespace FlowScript

open Text Step

-- Otherwise the elaborator reads the line of a run whenever a run is given to a lemma.
attribute [local irreducible] Compile.Run

theorem loopCounter_injective {a b : String} (h : loopCounter a = loopCounter b) : a = b := by
  have hl := congrArg String.toList h
  simp only [loopCounter, String.join_cons, String.toList_append] at hl
  have hr := List.append_cancel_left hl
  exact String.toList_inj.1 (by simpa using hr)

/-- Loops with different numbers have different counters. -/
theorem loopCounter_stepId_injective {m n : Int}
    (h : loopCounter (stepId m) = loopCounter (stepId n)) : m = n :=
  stepId_injective (loopCounter_injective h)

namespace Session

variable {s t u : Session} {name : String} {steps : List Step}

/-- The counters of all loops of the templates. -/
def templateCounters (s : Session) : List String :=
  s.templates.entries.flatMap fun e => counters e.2

/-- Where the counter of a loop can come from between two sessions: from a template of the first
one, or from a number that has been drawn in between. -/
def Accounts (s : Session) (name : String) (t : Session) : Prop :=
  name ∈ s.templateCounters ∨ ∃ n, s.counter ≤ n ∧ n < t.counter ∧ name = loopCounter (stepId n)

/-- The counters of some steps and of all templates at the end can be accounted for. -/
structure Provides (s : Session) (steps : List Step) (t : Session) : Prop where
  le : s.counter ≤ t.counter
  steps : ∀ name ∈ counters steps, s.Accounts name t
  templates : ∀ name ∈ t.templateCounters, s.Accounts name t

theorem mem_templateCounters {e : String × List Step} (he : e ∈ s.templates.entries)
    (h : name ∈ counters e.2) : name ∈ s.templateCounters :=
  List.mem_flatMap.2 ⟨e, he, h⟩

theorem mem_templateCounters_defined {template : String}
    (h : name ∈ (t.defined template steps).templateCounters) :
    name ∈ t.templateCounters ∨ name ∈ counters steps := by
  obtain ⟨e, he, hn⟩ := List.mem_flatMap.1 h
  rcases Registry.mem_entries_insert he with he | rfl
  · exact .inl (mem_templateCounters he hn)
  · exact .inr hn

/-- Later numbers may be drawn. -/
theorem Accounts.mono (h : s.Accounts name t) (hle : t.counter ≤ u.counter) :
    s.Accounts name u := by
  rcases h with h | ⟨n, hs, ht, rfl⟩
  · exact .inl h
  · exact .inr ⟨n, hs, by omega, rfl⟩

/-- What comes from the templates of a later session is traced back further. -/
theorem Provides.accounts (h : s.Provides steps t) (hn : t.Accounts name u)
    (hle : t.counter ≤ u.counter) : s.Accounts name u := by
  have hs := h.le
  rcases hn with hn | ⟨n, ht, hu, rfl⟩
  · exact (h.templates name hn).mono hle
  · exact .inr ⟨n, by omega, hu, rfl⟩

theorem Provides.trans {others : List Step} (h : s.Provides steps t) (h' : t.Provides others u) :
    s.Provides (steps ++ others) u := by
  have hle := h'.le
  refine ⟨Int.le_trans h.le hle, ?_, ?_⟩
  · intro name hn
    rw [counters_append, List.mem_append] at hn
    rcases hn with hn | hn
    · exact (h.steps name hn).mono hle
    · exact h.accounts (h'.steps name hn) hle
  · intro name hn
    exact h.accounts (h'.templates name hn) hle

/-- Without new steps and templates nothing has to be accounted for. -/
theorem provides_of_le (hle : s.counter ≤ t.counter) (ht : t.templates = s.templates) :
    s.Provides [] t := by
  refine ⟨hle, ?_, ?_⟩
  · intro name hn
    exact absurd hn List.not_mem_nil
  · intro name hn
    rw [templateCounters, ht] at hn
    exact .inl hn

/-- Steps without loops of their own may be added. -/
theorem Provides.of_subset {others : List Step} (h : s.Provides steps t)
    (hc : counters others ⊆ counters steps) : s.Provides others t :=
  ⟨h.le, fun name hn => h.steps name (hc hn), h.templates⟩

end Session

/-! ## Where counters come from -/

namespace Command

variable {inner : Course} {line : String} {c : Command} {s t : Session} {steps : List Step}
  {defs : List Definition}

@[simp] theorem counters_counted (line id : String) (n : Int) (body : List Step)
    (first last : String) :
    counters [firstCount (loopCounter id) first, counted line id n body last] =
      loopCounter id :: counters body := by
  rw [counters_cons]
  simp [firstCount, single, counted, belowCount, nextCount]

@[simp] theorem counters_branched (line id : String) (c : Condition) (yes no : List Step) :
    counters [branched line id c yes no] = counters yes ++ counters no :=
  counters_branch _ _ _ _

/-- The counters that a command brings with it can be accounted for, if those of the lines inside it
can. -/
theorem Run.provides
    (hin : ∀ text s steps defs t, inner text s steps defs t → s.Provides steps t)
    (h : Run inner line c s steps defs t) : s.Provides steps t := by
  have hdrawn (u : Session) : u.Provides [] u.drawn :=
    Session.provides_of_le (Int.le_add_one (Int.le_refl _)) rfl
  cases h with
  | refused h => exact Session.provides_of_le (Int.le_refl _) rfl
  | @single _ _ action phrase types h =>
    have hp : s.Provides [] { s.drawn with types } :=
      Session.provides_of_le (Int.le_add_one (Int.le_refl _)) rfl
    exact hp.of_subset (by simp [Step.single])
  | @copied name _ template h hne =>
    have hle := le_renumberAll s.counter template
    refine ⟨hle, ?_, fun name hn => .inl hn⟩
    intro name hn
    rw [counters_renumberAll] at hn
    exact .inl (Session.mem_templateCounters (Registry.mem_entries_of_find? h) hn)
  | defined h =>
    have hp := hin _ _ _ _ _ h
    refine ⟨hp.le, fun name hn => absurd hn List.not_mem_nil, ?_⟩
    intro name hn
    rcases Session.mem_templateCounters_defined hn with hn | hn
    · exact hp.templates name hn
    · exact hp.steps name hn
  | @counted _ _ _ t n body _ hn hb h =>
    have hp := hin _ _ _ _ _ h
    have hle := hp.le
    simp only [Session.drawn_counter, Session.typed_counter] at hle
    have hbody : s.Provides body t.drawn := by
      have hs : s.Provides []
          (s.drawn.typed (loopCounter (stepId s.counter)) ValueType.number.name).drawn :=
        Session.provides_of_le (by simp only [Session.drawn_counter, Session.typed_counter]; omega)
          rfl
      exact ((hs.trans hp).trans (hdrawn t)).of_subset (by simp)
    refine ⟨hbody.le, ?_, hbody.templates⟩
    intro name hn
    rw [counters_counted, List.mem_cons] at hn
    rcases hn with rfl | hn
    · exact .inr ⟨s.counter, Int.le_refl _, by simp only [Session.drawn_counter]; omega, rfl⟩
    · exact hbody.steps name hn
  | @taken _ _ _ t _ steps _ hc h =>
    exact ((hin _ _ _ _ _ h).trans (hdrawn t)).of_subset (by simp)
  | @branched _ _ _ _ t u _ steps others _ _ hc hy hn =>
    have hp := (hin _ _ _ _ _ hy).trans (hin _ _ _ _ _ hn)
    exact (hp.trans (hdrawn u)).of_subset (by simp)

end Command

namespace Compile

variable {n : Nat} {text : String} {s t : Session} {steps : List Step} {defs : List Definition}
  {f : Fault}

/-- **The counters that a line brings with it** are those of old templates, or of loops that it
numbers. -/
theorem Run.provides {rules : List Rule} (h : Run rules n text s steps defs t) :
    s.Provides steps t := by
  refine Run.induction (motive := fun _ _ s steps _ t => s.Provides steps t)
    (fun _ _ => Session.provides_of_le (Int.le_refl _) rfl)
    (fun _ _ _ _ => Session.provides_of_le (Int.le_refl _) rfl) ?command h
  case command =>
    intro n text verb c s steps defs t ih _ hr
    obtain ⟨hle, hs, ht⟩ := hr.provides ih
    exact ⟨hle, hs, ht⟩

end Compile

/-! ## Counting -/

/-- All loops of the templates of a session count, and their numbers have been drawn. -/
structure Session.Counting (s : Session) : Prop where
  templates : ∀ e ∈ s.templates.entries, CountsAll none e.2
  numbered : ∀ name ∈ s.templateCounters, ∃ n, n < s.counter ∧ name = loopCounter (stepId n)

namespace Session

variable {s t : Session} {steps : List Step}

theorem counting_initial : Counting {} :=
  ⟨by simp [Registry.empty], by simp [templateCounters, Registry.empty]⟩

theorem Counting.congr (h : s.Counting) (hc : t.counter = s.counter)
    (ht : t.templates = s.templates) : t.Counting := by
  refine ⟨?_, ?_⟩
  · rw [ht]
    exact h.templates
  · rw [templateCounters, ht, hc]
    exact h.numbered

/-- All counters at the end of a run have been numbered, if those at its start had. -/
theorem Provides.numbered (hp : s.Provides steps t) (h : s.Counting) :
    ∀ name ∈ t.templateCounters, ∃ n, n < t.counter ∧ name = loopCounter (stepId n) := by
  intro name hn
  have hle := hp.le
  rcases hp.templates name hn with hn | ⟨n, -, ht, rfl⟩
  · obtain ⟨n, hs, rfl⟩ := h.numbered name hn
    exact ⟨n, by omega, rfl⟩
  · exact ⟨n, ht, rfl⟩

theorem Counting.of_le (h : s.Counting) (hle : s.counter ≤ t.counter)
    (ht : t.templates = s.templates) : t.Counting := by
  refine ⟨?_, (provides_of_le hle ht).numbered h⟩
  rw [ht]
  exact h.templates

end Session

/-- A loop that a command makes counts: the loops in its body have been numbered before it, or after
the step that sets its counter. -/
theorem Command.countsTo_counted {s t u : Session} {body : List Step} {n : Int} (last : String)
    (hs : s.Counting) (hn : 0 ≤ n) (hp : t.Provides body u) (hlt : s.counter < t.counter)
    (ht : t.templates = s.templates) :
    CountsTo (some (.set (loopCounter (stepId s.counter)) (.expr (.ofInt 0))))
      (belowCount (loopCounter (stepId s.counter)) n)
      (body ++ [nextCount (loopCounter (stepId s.counter)) last])
      (loopCounter (stepId s.counter)) n where
  bound := hn
  condition := rfl
  first := rfl
  last := by
    rw [lastAction?_concat]
    rfl
  own := by
    intro hm
    simp only [counters_append, nextCount, Step.single, counters_act, List.append_nil] at hm
    rcases hp.steps _ hm with hm | ⟨m, hle, -, he⟩
    · rw [Session.templateCounters, ht] at hm
      obtain ⟨m, hlt, he⟩ := hs.numbered _ hm
      have := loopCounter_stepId_injective he
      omega
    · have := loopCounter_stepId_injective he
      omega

/-- The loops of a command count, if those of the lines inside it do. -/
theorem Command.Run.counting {inner : Course} {line verb : String} {c : Command} {s t : Session}
    {steps : List Step} {defs : List Definition} (hc : c.Spelled verb)
    (hp : ∀ text s steps defs t, inner text s steps defs t → s.Provides steps t)
    (hin : ∀ text s steps defs t, inner text s steps defs t → s.Counting →
      t.Counting ∧ CountsAll none steps)
    (h : Run inner line c s steps defs t) (hs : s.Counting) :
    t.Counting ∧ CountsAll none steps := by
  have hnumbered := (h.provides hp).numbered hs
  cases h with
  | refused h => exact ⟨⟨hs.templates, hnumbered⟩, trivial⟩
  | single h => exact ⟨⟨hs.templates, hnumbered⟩, trivial, trivial⟩
  | @copied name _ template h hne =>
    have ht := hs.templates _ (Registry.mem_entries_of_find? h)
    exact ⟨⟨hs.templates, hnumbered⟩, CountsAll.renumberAll _ none template ht⟩
  | defined h =>
    obtain ⟨ht, hsteps⟩ := hin _ _ _ _ _ h hs
    refine ⟨⟨?_, hnumbered⟩, trivial⟩
    intro e he
    rcases Registry.mem_entries_insert he with he | rfl
    · exact ht.templates e he
    · exact hsteps
  | @counted _ _ _ t n body _ hn hb h =>
    have hlt : s.counter < s.counter + 1 + 1 := by omega
    have hu : (s.drawn.typed (loopCounter (stepId s.counter)) ValueType.number.name).drawn.Counting :=
      hs.of_le (Int.le_of_lt hlt) rfl
    obtain ⟨ht, hbody⟩ := hin _ _ _ _ _ h hu
    have hprovides := hp _ _ _ _ _ h
    have hloop := countsTo_counted (stepId t.counter) hs (hc.2.nonneg hn) hprovides hlt rfl
    exact ⟨⟨ht.templates, hnumbered⟩, trivial, ⟨⟨_, n, hloop⟩, hbody.concat_act _ _⟩, trivial⟩
  | taken hc h =>
    obtain ⟨ht, hsteps⟩ := hin _ _ _ _ _ h hs
    exact ⟨⟨ht.templates, hnumbered⟩, ⟨hsteps, trivial⟩, trivial⟩
  | branched hc hy hn =>
    obtain ⟨ht, hyes⟩ := hin _ _ _ _ _ hy hs
    obtain ⟨hu, hno⟩ := hin _ _ _ _ _ hn ht
    exact ⟨⟨hu.templates, hnumbered⟩, ⟨hyes, hno⟩, trivial⟩

namespace Compile

variable {n : Nat} {text : String} {s t : Session} {steps : List Step} {defs : List Definition}
  {f : Fault}

/-- **The loops of every line count**, and those of the templates go on to do so. -/
theorem Run.counting (h : Run Command.rules n text s steps defs t) (hs : s.Counting) :
    t.Counting ∧ CountsAll none steps := by
  refine Run.induction (motive := fun _ _ s steps _ t => s.Counting →
    t.Counting ∧ CountsAll none steps) ?tooDeep ?unrecognized ?command h hs
  case tooDeep =>
    intro text s hs
    exact ⟨hs.congr rfl rfl, trivial⟩
  case unrecognized =>
    intro n text s _ hs
    exact ⟨hs.congr rfl rfl, trivial⟩
  case command =>
    intro n text verb c s steps defs t ih hread hr hs
    have hspelled := Command.spelled_of_read? hread
    obtain ⟨ht, hsteps⟩ := hr.counting hspelled (fun _ _ _ _ _ => Run.provides) ih
      (hs.congr rfl rfl)
    exact ⟨ht.congr rfl rfl, hsteps⟩

end Compile

/-! ## Requests -/

/-- That all loops count is passed on. -/
theorem passedOn_counting : PassedOn Session.Counting (CountsAll none) where
  of_le hs hle ht := hs.of_le hle ht
  run hr hs := hr.counting hs
  copy hs hf :=
    CountsAll.renumberAll _ none _ (hs.templates _ (Registry.mem_entries_of_find? hf))
  nothing := trivial

/-- A definition whose template is a loop. -/
theorem line_loopDefinition : ∃ template t,
    Compile.line "macro m for 2 times break" {} = .ok [] t ∧ t.nesting = 0 ∧
      t.templates.find? "m" = some template ∧ counters template = [loopCounter (stepId 1)] := by
  have hdefine : Command.read? Command.rules (trimmed "macro m for 2 times break") =
      some ("macro", .define "m" "for 2 times break") := by decide
  have hloop : Command.read? Command.rules (trimmed "for 2 times break") =
      some ("for", .count "break" "2") := by decide
  have hbreak : Command.read? Command.rules (trimmed "break") = some ("break", .leave) := by decide
  have htimes : number? "2".toList = .ok (some (.int 2)) := by decide
  have hr := Compile.Run.of_command (n := 31) (s := {}) hdefine <| .defined <|
    .of_command (n := 30) hloop <| .counted htimes (by decide) <|
      .of_command (n := 29) hbreak <| .single .leave
  exact ⟨_, _, Compile.line_of_run hr rfl, rfl, Registry.find?_insert_self _ _ _,
    Command.counters_counted _ _ _ _ _ _⟩

/-- A loop around a call. -/
theorem line_loopOfCall {s : Session} {template : List Step} (hs : s.nesting = 0)
    (hf : s.templates.find? "m" = some template) (hne : template ≠ []) :
    ∃ first i c body t, Compile.line "for 3 times call m" s = .ok [first, loop i c body] t ∧
      counters body = counters template := by
  have hloop : Command.read? Command.rules (trimmed "for 3 times call m") =
      some ("for", .count "call m" "3") := by decide
  have hcall : Command.read? Command.rules (trimmed "call m") = some ("call", .invoke "m") := by
    decide
  have htimes : number? "3".toList = .ok (some (.int 3)) := by decide
  have ha : Compile.allowance s.nesting = 31 + 1 := Compile.allowance_outermost hs
  have hr := Compile.Run.of_command (n := 31) (s := s) hloop <| .counted htimes (by decide) <|
    .of_command (n := 30) hcall <| .copied hf hne
  refine ⟨_, _, _, _, _, Compile.line_of_run hr ha, ?_⟩
  simp [Command.nextCount, single]

/-- **All loops of a session count**, whatever is asked of it: those in the steps that it yields and
those in its templates. In every list of steps that occurs there, the step before a loop sets its
counter to zero, the condition compares the counter with a number of turns that is not negative, the
body ends with a step that increases the counter by one, and no loop inside the body has the same
counter. -/
theorem loops_count (rs : List Request) (ss : List Step)
    (h : ss ∈ (performAll rs {}).1 ∨ ∃ name, (name, ss) ∈ (performAll rs {}).2.templates.entries)
    (block front back body : List Step) (i : Info) (c : Condition) (hm : block ∈ blocks ss)
    (hb : block = front ++ loop i c body :: back) :
    ∃ counter n, CountsTo (lastAction? front) c body counter n := by
  obtain ⟨ht, hanswers⟩ := passedOn_counting.answers rs Session.counting_initial
  have hcounts : CountsAll none ss := by
    rcases h with h | ⟨name, h⟩
    · exact hanswers ss h
    · exact ht.templates _ h
  exact hcounts.countsTo hm hb

/-- A loop around a call of a template with a loop: the two count with different counters. -/
theorem nested_loops_count :
    ∃ first i c body, [first, loop i c body] ∈
      (performAll [.carry (.line "macro m for 2 times break"),
        .carry (.line "for 3 times call m")] {}).1 ∧
      counters body = [loopCounter (stepId 1)] ∧
      ∃ counter n, CountsTo first.action? c body counter n := by
  obtain ⟨template, s, hl, hn, hf, hc⟩ := line_loopDefinition
  have hne : template ≠ [] := by
    rintro rfl
    simp at hc
  obtain ⟨first, i, c, body, t, hl', hc'⟩ := line_loopOfCall hn hf hne
  have hm : [first, loop i c body] ∈ (performAll [.carry (.line "macro m for 2 times break"),
      .carry (.line "for 3 times call m")] {}).1 := by
    simp [performAll_line hl, performAll_line hl']
  exact ⟨first, i, c, body, hm, hc'.trans hc,
    loops_count _ _ (.inl hm) _ [first] [] body i c List.mem_cons_self rfl⟩

end FlowScript
