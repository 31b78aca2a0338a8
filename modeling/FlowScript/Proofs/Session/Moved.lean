import FlowScript.Proofs.Command.Verb
import FlowScript.Proofs.Session.Numbering

/-!
# Lines from another number on

A line without definitions does the same in every session without templates, but for the numbers of
its steps: all of them are moved by the same amount, in the names of the steps and in the counters
of the loops that the line makes. What the text of the line says is left alone, even if it is the
name of such a counter.

## Main definitions

* `Moved`: some steps, and the same ones from another number on.
* `Session.Apart`, `Session.Repeats`: sessions whose numbers differ, and runs that do.

## Main statements

* `Moved.unique`: steps are moved in one way only.
* `Compile.Run.repeats`: a line does the same from another number on.
* `Compile.Run.defs_eq_nil`: a line has no definitions if no command in it is told to be one.
-/
namespace FlowScript

open Text Step Command

-- Otherwise the elaborator reads the line of a run whenever a run is given to a lemma.
attribute [local irreducible] Compile.Run

/-- Some steps, and the same ones with all numbers moved: those in the names of steps, and those in
the counters of loops, each of which is named in the step before its loop, in its condition and in
the last step of its body. -/
inductive Moved (d : Int) : List Step → List Step → Prop
  | nil : Moved d [] []
  | act {i : Info} {a : Action} {n : Int} {ss ts : List Step} (h : Moved d ss ts) :
      Moved d (act { i with id := stepId n } a :: ss) (act { i with id := stepId (n + d) } a :: ts)
  | branch {i : Info} {c : Condition} {n : Int} {yes yes' no no' ss ts : List Step}
      (hy : Moved d yes yes') (hn : Moved d no no') (h : Moved d ss ts) :
      Moved d (branch { i with id := stepId n } c yes no :: ss)
        (branch { i with id := stepId (n + d) } c yes' no' :: ts)
  | count {i : Info} {n first last bound : Int} {body body' ss ts : List Step}
      (hb : Moved d body body') (h : Moved d ss ts) :
      Moved d
        (firstCount (loopCounter (stepId n)) (stepId first) ::
          loop { i with id := stepId n } (belowCount (loopCounter (stepId n)) bound)
            (body ++ [nextCount (loopCounter (stepId n)) (stepId last)]) :: ss)
        (firstCount (loopCounter (stepId (n + d))) (stepId (first + d)) ::
          loop { i with id := stepId (n + d) } (belowCount (loopCounter (stepId (n + d))) bound)
            (body' ++ [nextCount (loopCounter (stepId (n + d))) (stepId (last + d))]) :: ts)

namespace Moved

variable {d : Int} {ss ts us : List Step}

/-- A loop is moved together with the step before it. -/
theorem ne_loop (h : Moved d ss ts) (i : Info) (c : Condition) (body rest : List Step) :
    ss ≠ loop i c body :: rest := by
  cases h <;> simp [firstCount, single]

/-- Steps are moved in one way only. -/
theorem unique (h : Moved d ss ts) (h' : Moved d ss us) : us = ts := by
  suffices hu : ∀ rs, rs = ss → Moved d rs us → us = ts from hu ss rfl h'
  clear h'
  induction h generalizing us with
  | nil =>
    intro rs he h'
    cases h' with
    | nil => rfl
    | _ => simp at he
  | @act i a n ss ts h ih =>
    intro rs he h'
    cases h' with
    | nil => simp at he
    | branch => simp at he
    | @act j b m ss' ts' h' =>
      simp only [List.cons.injEq, Step.act.injEq, Info.mk.injEq] at he
      obtain ⟨⟨⟨hn, hp, hx, hacc⟩, rfl⟩, hs⟩ := he
      rw [stepId_injective hn, hp, hx, hacc, ih _ hs h']
    | count hb h' =>
      simp only [List.cons.injEq] at he
      exact absurd he.2.symm (h.ne_loop _ _ _ _)
  | @branch i c n yes yes' no no' ss ts hy hn h ihy ihn ih =>
    intro rs he h'
    cases h' with
    | nil => simp at he
    | act => simp at he
    | @branch j c' m _ _ _ _ ss' ts' hy' hn' h' =>
      simp only [List.cons.injEq, Step.branch.injEq, Info.mk.injEq] at he
      obtain ⟨⟨⟨hn, hp, hx, hacc⟩, rfl, hyes, hno⟩, hs⟩ := he
      rw [stepId_injective hn, hp, hx, hacc, ihy _ hyes hy', ihn _ hno hn', ih _ hs h']
    | count => simp [firstCount, single] at he
  | @count i n first last bound body body' ss ts hb h ihb ih =>
    intro rs he h'
    cases h' with
    | nil => simp at he
    | act h' =>
      simp only [List.cons.injEq] at he
      exact absurd he.2 (h'.ne_loop _ _ _ _)
    | branch => simp [firstCount, single] at he
    | @count j m first' last' bound' inner inner' ss' ts' hb' h' =>
      simp only [List.cons.injEq, Step.loop.injEq, Info.mk.injEq] at he
      obtain ⟨hf, ⟨⟨hn, hp, hx, hacc⟩, hc, hbody⟩, hs⟩ := he
      obtain rfl := stepId_injective hn
      have hfirst : first' = first := stepId_injective (congrArg Step.id hf)
      have hbound : bound' = bound := by
        simpa [belowCount, Expr.ofInt, Json.ofInt] using hc
      obtain ⟨hinner, hnext⟩ := List.append_inj' hbody rfl
      have hlast : last' = last :=
        stepId_injective (congrArg Step.id (List.head_eq_of_cons_eq hnext))
      rw [hp, hx, hacc, hfirst, hbound, hlast, ihb _ hinner hb', ih _ hs h']

theorem single (id id' : Int) (hd : id' = id + d) (a : Action) (phrase : String) :
    Moved d [.single (stepId id) a phrase] [.single (stepId id') a phrase] := by
  subst hd
  exact .act (i := .of "" a.describe phrase [] a.access) .nil

theorem branched {line : String} {id id' : Int} (hd : id' = id + d) (c : Condition)
    {yes yes' no no' : List Step} (hy : Moved d yes yes') (hn : Moved d no no') :
    Moved d [branched line (stepId id) c yes no] [branched line (stepId id') c yes' no'] := by
  subst hd
  exact .branch (i := .of "" (Step.describeBranch c) line [] .execute) hy hn .nil

/-- A counted loop has its line as its phrase, which does not mention the counter. -/
theorem counted {line : String} (hline : line.isEmpty = false) {id id' first first' last last' : Int}
    (hd : id' = id + d) (hf : first' = first + d) (hl : last' = last + d) (n : Int)
    {body body' : List Step} (hb : Moved d body body') :
    Moved d
      [firstCount (loopCounter (stepId id)) (stepId first),
        counted line (stepId id) n body (stepId last)]
      [firstCount (loopCounter (stepId id')) (stepId first'),
        counted line (stepId id') n body' (stepId last')] := by
  subst hd hf hl
  have hi : ∀ id body last, Command.counted line id n body last =
      loop ⟨id, line, [line], .execute⟩ (belowCount (loopCounter id) n)
        (body ++ [nextCount (loopCounter id) last]) := by
    intro id body last
    simp [Command.counted, Info.of, hline]
  rw [hi, hi]
  exact .count (i := ⟨"", line, [line], .execute⟩) hb .nil

end Moved

/-! ## Sessions without templates -/

namespace Session

/-- Two sessions without templates, the numbers of the second one being so much larger. -/
structure Apart (d : Int) (s' s : Session) : Prop where
  counter : s.counter = s'.counter + d
  templates' : s'.templates = .empty
  templates : s.templates = .empty

/-- What a run does in the second one of two sessions, a run does in the first one with smaller
numbers, and it tells the same. -/
structure Repeats (d : Int) (s' : Session) (steps' : List Step) (t' s : Session)
    (steps : List Step) (t : Session) : Prop where
  steps : Moved d steps' steps
  after : t'.Apart d t
  journal : ∃ es, t'.journal = s'.journal ++ es ∧ t.journal = s.journal ++ es

variable {d : Int} {s s' t t' u u' : Session} {steps steps' : List Step}

theorem Apart.of_eq (h : s'.Apart d s) (hc : t.counter = s.counter) (hc' : t'.counter = s'.counter)
    (ht : t.templates = s.templates) (ht' : t'.templates = s'.templates) : t'.Apart d t :=
  ⟨by rw [hc, hc', h.counter], ht'.trans h.templates', ht.trans h.templates⟩

theorem Apart.drawn (h : s'.Apart d s) : s'.drawn.Apart d s.drawn := by
  refine ⟨?_, h.templates', h.templates⟩
  have hc := h.counter
  simp only [Session.drawn_counter]
  omega

end Session

/-! ## Commands -/

namespace Command

/-- A command without inner lines comes to the same action whatever the types are. -/
theorem Performs.retyped {types types' : Registry String} {c : Command} {a : Action}
    {phrase : String} (h : Performs types c a phrase types') (others : Registry String) :
    ∃ others', Performs others c a phrase others' := by
  cases h with
  | fetch endpoint target => exact ⟨_, .fetch endpoint target⟩
  | wait hn h0 => exact ⟨_, .wait hn h0⟩
  | set ht hv => exact ⟨_, .set ht hv⟩
  | leave => exact ⟨_, .leave⟩
  | ret hr hv => exact ⟨_, .ret hr hv⟩
  | analyze h => exact ⟨_, .analyze h⟩
  | render component target => exact ⟨_, .render component target⟩
  | state h => exact ⟨_, .state h⟩
  | style selector raw => exact ⟨_, .style selector raw⟩
  | listen event handler => exact ⟨_, .listen event handler⟩

/-- The run of a command without definitions is repeated from another number on, if the runs of the
lines inside it are. -/
theorem Run.repeats {inner : Course} {line : String} {c : Command} {s t : Session}
    {steps : List Step} {defs : List Definition} {d : Int} (hline : line.isEmpty = false)
    (hin : ∀ text s steps defs t, inner text s steps defs t → defs = [] → ∀ s' : Session,
      s'.Apart d s → ∃ steps' t', inner text s' steps' [] t' ∧ s'.Repeats d steps' t' s steps t)
    (h : Run inner line c s steps defs t) (hd : defs = []) (s' : Session) (hs : s'.Apart d s) :
    ∃ steps' t', Run inner line c s' steps' [] t' ∧ s'.Repeats d steps' t' s steps t := by
  cases h with
  | refused h =>
    have hr := h.of_templates_eq (hs.templates'.trans hs.templates.symm)
    exact ⟨[], _, .refused hr, .nil, hs.of_eq rfl rfl rfl rfl, _, rfl, rfl⟩
  | single h =>
    obtain ⟨types, h'⟩ := h.retyped s'.types
    exact ⟨_, _, .single h', .single _ _ hs.counter _ _, hs.drawn.of_eq rfl rfl rfl rfl, [],
      by simp, by simp⟩
  | copied h hne =>
    rw [hs.templates] at h
    simp [Registry.find?, Registry.empty] at h
  | defined h => simp at hd
  | @counted body times _ t n steps _ hn hb h =>
    have htyped : (s'.drawn.typed (loopCounter (stepId s'.counter)) ValueType.number.name).Apart d
        (s.drawn.typed (loopCounter (stepId s.counter)) ValueType.number.name) :=
      hs.drawn.of_eq rfl rfl rfl rfl
    obtain ⟨steps', t', hr, hsteps, ht, es, hj', hj⟩ := hin _ _ _ _ _ h hd _ htyped.drawn
    have hc := hs.counter
    refine ⟨_, _, .counted hn hb hr, ?_, ht.drawn, es, hj', hj⟩
    exact .counted hline hc (by omega) ht.counter n hsteps
  | taken hc h =>
    obtain ⟨steps', t', hr, hsteps, ht, es, hj', hj⟩ := hin _ _ _ _ _ h hd _ hs
    exact ⟨_, _, .taken hc hr, .branched ht.counter _ hsteps .nil, ht.drawn, es, hj', hj⟩
  | @branched _ _ _ _ _ u _ _ _ defs more hc hy hn =>
    obtain ⟨hdy, hdn⟩ := List.append_eq_nil_iff.1 hd
    obtain ⟨steps', t', hr, hsteps, ht, es, hj', hj⟩ := hin _ _ _ _ _ hy hdy _ hs
    obtain ⟨others', u', hr', hothers, hu, fs, hk', hk⟩ := hin _ _ _ _ _ hn hdn _ ht
    refine ⟨_, _, .branched hc hr hr', .branched hu.counter _ hsteps hothers, hu.drawn, es ++ fs,
      ?_, ?_⟩
    · rw [Session.drawn_journal, hk', hj', List.append_assoc]
    · rw [Session.drawn_journal, hk, hj, List.append_assoc]

/-- A command that is not told to be a definition has definitions only in the lines inside it. -/
theorem Run.defs_eq_nil {inner : Course} {line verb : String} {c : Command} {s t : Session}
    {steps : List Step} {defs : List Definition} (hc : verb ∈ c.verbs)
    (hin : ∀ text s steps defs t, inner text s steps defs t →
      ∃ es, t.journal = s.journal ++ es ∧ ((∀ line, .dispatched line "macro" ∉ es) → defs = []))
    (h : Run inner line c s steps defs t) :
    ∃ es, t.journal = s.journal ++ es ∧
      (verb ≠ "macro" → (∀ line, .dispatched line "macro" ∉ es) → defs = []) := by
  cases h with
  | refused h => exact ⟨_, rfl, fun _ _ => rfl⟩
  | single h => exact ⟨[], by simp, fun _ _ => rfl⟩
  | copied h hne => exact ⟨[], by simp, fun _ _ => rfl⟩
  | defined h =>
    obtain ⟨es, hj, -⟩ := hin _ _ _ _ _ h
    exact ⟨es, hj, fun hv => absurd (List.mem_singleton.1 hc) hv⟩
  | counted hn hb h =>
    obtain ⟨es, hj, hd⟩ := hin _ _ _ _ _ h
    exact ⟨es, hj, fun _ => hd⟩
  | taken hc h =>
    obtain ⟨es, hj, hd⟩ := hin _ _ _ _ _ h
    exact ⟨es, hj, fun _ => hd⟩
  | branched hc hy hn =>
    obtain ⟨es, hj, hd⟩ := hin _ _ _ _ _ hy
    obtain ⟨fs, hk, hf⟩ := hin _ _ _ _ _ hn
    refine ⟨es ++ fs, ?_, ?_⟩
    · rw [Session.drawn_journal, hk, hj, List.append_assoc]
    · intro _ hm
      rw [hd fun line hl => hm line (List.mem_append_left _ hl),
        hf fun line hl => hm line (List.mem_append_right _ hl)]
      rfl

end Command

/-! ## Lines -/

namespace Compile

variable {n : Nat} {text : String} {s t : Session} {steps : List Step} {defs : List Definition}

/-- **A line does the same from another number on**, if it makes no definitions and there are no
templates. -/
theorem Run.repeats {d : Int} {s' : Session} (h : Run Command.rules n text s steps defs t)
    (hd : defs = []) (hs : s'.Apart d s) :
    ∃ steps' t', Run Command.rules n text s' steps' [] t' ∧ s'.Repeats d steps' t' s steps t := by
  refine Run.induction (motive := fun n text s steps defs t => defs = [] → ∀ s' : Session,
    s'.Apart d s → ∃ steps' t', Run Command.rules n text s' steps' [] t' ∧
      s'.Repeats d steps' t' s steps t) ?tooDeep ?unrecognized ?command h hd s' hs
  case tooDeep =>
    intro text s _ s' hs
    exact ⟨[], _, .of_tooDeep, .nil, hs.of_eq rfl rfl rfl rfl, _, rfl, rfl⟩
  case unrecognized =>
    intro n text s hread _ s' hs
    exact ⟨[], _, .of_unrecognized hread, .nil, hs.of_eq rfl rfl rfl rfl, _, rfl, rfl⟩
  case command =>
    intro n text verb c s steps defs t ih hread hr hd s' hs
    have hline : (trimmed text).isEmpty = false := by
      by_contra hne
      simp only [Bool.not_eq_false, String.isEmpty_iff] at hne
      have hnone : Command.read? Command.rules "" = none := by decide
      rw [hne, hnone] at hread
      simp at hread
    have hentered : (s'.told (.dispatched (trimmed text) verb)).entered.Apart d
        (s.told (.dispatched (trimmed text) verb)).entered := hs.of_eq rfl rfl rfl rfl
    obtain ⟨steps', t', hr', hsteps, ht, es, hj', hj⟩ :=
      hr.repeats hline ih hd _ hentered
    refine ⟨steps', _, .of_command hread hr', hsteps, ht.of_eq rfl rfl rfl rfl,
      .dispatched (trimmed text) verb :: es, ?_, ?_⟩
    · simp [hj']
    · simp [hj]

/-- A line has no definitions if no command in it is told to be one. -/
theorem Run.defs_eq_nil (h : Run Command.rules n text s steps defs t) :
    ∃ es, t.journal = s.journal ++ es ∧
      ((∀ line, .dispatched line "macro" ∉ es) → defs = []) := by
  refine Run.induction (motive := fun _ _ s _ defs t => ∃ es, t.journal = s.journal ++ es ∧
    ((∀ line, .dispatched line "macro" ∉ es) → defs = [])) ?tooDeep ?unrecognized ?command h
  case tooDeep =>
    intro text s
    exact ⟨_, rfl, fun _ => rfl⟩
  case unrecognized =>
    intro n text s _
    exact ⟨_, rfl, fun _ => rfl⟩
  case command =>
    intro n text verb c s steps defs t ih hread hr
    obtain ⟨es, hj, hd⟩ := hr.defs_eq_nil (Command.spelled_of_read? hread).1 ih
    refine ⟨.dispatched (trimmed text) verb :: es, by simp [hj], ?_⟩
    intro hm
    refine hd ?_ fun line hl => hm line (List.mem_cons_of_mem _ hl)
    rintro rfl
    exact hm _ List.mem_cons_self

end Compile
end FlowScript
