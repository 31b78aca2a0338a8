import FlowScript.Proofs.Session.Halt
import FlowScript.Proofs.Session.Types

/-!
# Sessions only grow

Whatever a line does, and also if it ends in a fault, nothing is taken back: events are told behind
the earlier ones, numbers are drawn upwards, and the names of variables and of templates keep their
places. A template changes only if the line, or one inside it, defines it anew, and the level of
commands is restored.

## Main definitions

* `Session.Onward`: a session that has gone on from another one.
* `Session.Grown`: what is left of a session after a line with some definitions.

## Main statements

* `Command.Run.onward`, `Command.Halt.onward`: a command goes on whenever the lines inside it do.
* `Compile.Run.onward`, `Compile.Halt.onward`: every line goes on, to its end or to a fault.
* `Compile.grown_of_line`: sessions only grow.
-/
namespace FlowScript

open Text

-- Otherwise the elaborator reads the line of a run whenever a run is given to a lemma.
attribute [local irreducible] Compile.Run

/-! ## Names keep their places -/

namespace Registry

variable {α : Type}

theorem names_prefix_insert (r : Registry α) (name : String) (value : α) :
    r.names <+: (r.insert name value).names := by
  rw [names_insert]
  split
  · exact List.prefix_refl _
  · exact List.prefix_append _ _

theorem names_prefix_register (r : Registry α) (es : List (String × α)) :
    r.names <+: (r.register es).names := by
  induction es generalizing r with
  | nil => exact List.prefix_refl _
  | cons e es ih => exact (r.names_prefix_insert e.1 e.2).trans (ih (r.insert e.1 e.2))

end Registry

/-! ## Going on from a session -/

namespace Session

/-- A session that has gone on from another one: numbers have been drawn, events have been told, and
the types of variables have been recorded. -/
structure Onward (s s' : Session) : Prop where
  counter : s.counter ≤ s'.counter
  journal : s.journal <+: s'.journal
  types : s.types.names <+: s'.types.names

variable {s t u : Session}

theorem Onward.refl (s : Session) : s.Onward s :=
  ⟨Int.le_refl _, List.prefix_refl _, List.prefix_refl _⟩

theorem Onward.trans (h : s.Onward t) (h' : t.Onward u) : s.Onward u :=
  ⟨Int.le_trans h.counter h'.counter, h.journal.trans h'.journal, h.types.trans h'.types⟩

theorem onward_told (s : Session) (e : Event) : s.Onward (s.told e) :=
  ⟨Int.le_refl _, List.prefix_append _ _, List.prefix_refl _⟩

theorem onward_drawn (s : Session) : s.Onward s.drawn :=
  ⟨Int.le_add_one (Int.le_refl _), List.prefix_refl _, List.prefix_refl _⟩

theorem onward_typed (s : Session) (name type : String) : s.Onward (s.typed name type) :=
  ⟨Int.le_refl _, List.prefix_refl _, s.types.names_prefix_insert name type⟩

theorem onward_defined (s : Session) (name : String) (steps : List Step) :
    s.Onward (s.defined name steps) :=
  ⟨Int.le_refl _, List.prefix_refl _, List.prefix_refl _⟩

theorem onward_copied (s : Session) (steps : List Step) : s.Onward (s.copied steps) :=
  ⟨Step.le_renumberAll _ _, List.prefix_refl _, List.prefix_refl _⟩

theorem onward_entered (s : Session) : s.Onward s.entered :=
  ⟨Int.le_refl _, List.prefix_refl _, List.prefix_refl _⟩

theorem onward_exited (s : Session) : s.Onward s.exited :=
  ⟨Int.le_refl _, List.prefix_refl _, List.prefix_refl _⟩

/-- The session in which the body of a counted loop begins. -/
theorem onward_counting (s : Session) (counter type : String) :
    s.Onward (s.drawn.typed counter type).drawn :=
  s.onward_drawn.trans ((onward_typed _ _ _).trans (onward_drawn _))

end Session

open Session

/-! ## Commands go on -/

namespace Command

variable {inner : Course} {failure : Failure} {line phrase : String} {c : Command} {s t : Session}
  {steps : List Step} {defs : List Definition} {f : Fault} {action : Action}
  {types : Registry String}

theorem Performs.names_prefix (h : Performs s.types c action phrase types) :
    s.types.names <+: types.names := by
  cases h with
  | fetch endpoint target => exact Registry.names_prefix_insert _ _ _
  | set ht hv => exact Registry.names_prefix_insert _ _ _
  | analyze h => exact Registry.names_prefix_insert _ _ _
  | wait h hn => exact List.prefix_refl _
  | leave => exact List.prefix_refl _
  | ret hr hv => exact List.prefix_refl _
  | render component target => exact List.prefix_refl _
  | state h => exact List.prefix_refl _
  | style selector raw => exact List.prefix_refl _
  | listen event handler => exact List.prefix_refl _

/-- A command goes on from its session if the lines inside it do. -/
theorem Run.onward (hin : ∀ text s steps defs t, inner text s steps defs t → s.Onward t)
    (h : Run inner line c s steps defs t) : s.Onward t := by
  cases h with
  | refused h => exact onward_told _ _
  | single h => exact ⟨(onward_drawn s).counter, List.prefix_refl _, h.names_prefix⟩
  | copied h hne => exact onward_copied _ _
  | defined h => exact (hin _ _ _ _ _ h).trans (onward_defined _ _ _)
  | counted hn hb h =>
    exact (onward_counting _ _ _).trans ((hin _ _ _ _ _ h).trans (onward_drawn _))
  | taken hc h => exact (hin _ _ _ _ _ h).trans (onward_drawn _)
  | branched hc hy hn =>
    exact (hin _ _ _ _ _ hy).trans ((hin _ _ _ _ _ hn).trans (onward_drawn _))

theorem Breaks.onward (h : Breaks s c f t) : s.Onward t := by
  cases h with
  | count h => exact .refl _
  | branch h => exact .refl _
  | wait h => exact .refl _
  | set ht h => exact .refl _
  | ret hr h => exact onward_drawn _
  | analyze h => exact (onward_typed _ _ _).trans (onward_drawn _)
  | state h => exact onward_drawn _

/-- A command that ends in a fault goes on to it if the lines inside it do, those that come to their
end and the one that does not. -/
theorem Halt.onward (hin : ∀ text s steps defs t, inner text s steps defs t → s.Onward t)
    (hfail : ∀ text s f defs t, failure text s f defs t → s.Onward t)
    (h : Halt inner failure c s f defs t) : s.Onward t := by
  cases h with
  | broken h => exact h.onward
  | defined h => exact hfail _ _ _ _ _ h
  | counted hn hb h => exact (onward_counting _ _ _).trans (hfail _ _ _ _ _ h)
  | yes hc h => exact hfail _ _ _ _ _ h
  | no hc hy hn => exact (hin _ _ _ _ _ hy).trans (hfail _ _ _ _ _ hn)

end Command

/-! ## Lines go on -/

namespace Compile

variable {rules : List Rule} {n : Nat} {text : String} {s s' : Session} {steps : List Step}
  {defs : List Definition} {f : Fault}

theorem onward_opened (s : Session) (line verb : String) :
    s.Onward (s.told (.dispatched line verb)).entered :=
  (onward_told _ _).trans (onward_entered _)

theorem Run.onward (h : Run rules n text s steps defs s') : s.Onward s' := by
  refine Run.induction (motive := fun _ _ s _ _ s' => s.Onward s') (fun _ _ => onward_told _ _)
    (fun _ _ _ _ => onward_told _ _) ?command h
  case command =>
    intro n text verb c s steps defs t ih _ hr
    exact (onward_opened _ _ _).trans ((hr.onward ih).trans (onward_exited _))

theorem Halt.onward (h : Halt rules n text s f defs s') : s.Onward s' := by
  refine Halt.induction (motive := fun _ _ s _ _ s' => s.Onward s') ?command h
  case command =>
    intro n text verb c s f defs t ih _ hh
    exact (onward_opened _ _ _).trans
      ((hh.onward (fun _ _ _ _ _ => Run.onward) ih).trans (onward_exited _))

end Compile

/-! ## What is left of a session -/

/-- What is left of a session after a line that has made some definitions: the level of commands, the
diagnostics, the names of variables and of templates in their places, and every template that has
not been defined anew. The number of the next step has not become smaller, and of a template that has
been defined anew the last definition counts. -/
structure Session.Grown (s : Session) (defs : List Definition) (s' : Session) : Prop where
  nesting : s'.nesting = s.nesting
  diagnostics : s.diagnostics <+: s'.diagnostics
  counter : s.counter ≤ s'.counter
  types : s.types.names <+: s'.types.names
  templates : s.templates.names <+: s'.templates.names
  kept : ∀ name, name ∉ defs.map (·.1) → s'.templates.find? name = s.templates.find? name
  renewed : ∀ name, name ∈ defs.map (·.1) → s'.templates.find? name = lastOf? name defs

theorem Session.Onward.grown {s s' : Session} {defs : List Definition} (h : s.Onward s')
    (hn : s'.nesting = s.nesting) (ht : s'.templates = s.templates.register defs) :
    s.Grown defs s' where
  nesting := hn
  diagnostics := h.journal.filterMap _
  counter := h.counter
  types := h.types
  templates := ht ▸ s.templates.names_prefix_register defs
  kept := by
    intro name hm
    rw [ht, Registry.find?_register, lastOf?_of_notMem hm, Option.none_or]
  renewed := by
    intro name hm
    rw [ht, Registry.find?_register, Option.or_of_isSome (lastOf?_isSome hm)]

/-- **Sessions only grow.** Whether a line comes to its end or ends in a fault, at any level and in
any session: the level of commands is as before, the diagnostics begin with the earlier ones, the
number of the next step has not become smaller, names of variables and of templates keep their
places, and a template changes only if it is one of those that were defined on the way. -/
theorem Compile.grown_of_line (text : String) (s : Session) :
    match Compile.line text s with
    | .ok steps s' => ∃ defs,
        Compile.Run Command.rules (Compile.allowance s.nesting) text s steps defs s' ∧
          s.Grown defs s'
    | .error f s' => ∃ defs,
        Compile.Halt Command.rules (Compile.allowance s.nesting) text s f defs s' ∧
          s.Grown defs s' := by
  cases h : Compile.line text s with
  | ok steps s' =>
    obtain ⟨defs, hr⟩ := Compile.line_eq_ok_iff.1 h
    exact ⟨defs, hr, hr.onward.grown hr.nesting_eq hr.templates_eq⟩
  | error f s' =>
    obtain ⟨defs, hh⟩ := Compile.line_eq_error_iff.1 h
    exact ⟨defs, hh, hh.onward.grown hh.nesting_eq hh.templates_eq⟩

end FlowScript
