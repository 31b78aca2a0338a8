import FlowScript.Proofs.Session.Requests
import FlowScript.Proofs.Session.Types

/-!
# Expansion of templates

A call yields a copy of the steps that the last definition of its template has stored, whatever has
happened since: copies of the same template, and new definitions of templates that it had called. A
call may stand in a line of its own or inside other commands, where the definitions that have been
made in the same line before it count as well.

## Main definitions

* `Step.unnamedAll`: steps without their names.
* `CopyOf`: a copy of a template, and what it leaves alone.
* `Command.Opens`, `Compile.Reaches`: the lines that are carried out in the course of a line.

## Main statements

* `copyOf_renumberAll`: copying steps under new names makes a copy.
* `Compile.Reaches.templates_eq`: the templates where a line inside another one begins.
* `Compile.Reaches.halt`: a fault in a line inside another one ends the other one.
* `expansion_of_definition`: calls copy what the last definition has stored.
-/
namespace FlowScript

open Text

/-! ## Steps without names -/

namespace Step

mutual

/-- A step in which it and all steps inside it have lost their names. -/
def unnamed : Step → Step
  | act i a => act { i with id := "" } a
  | branch i c yes no => branch { i with id := "" } c (unnamedAll yes) (unnamedAll no)
  | loop i c body => loop { i with id := "" } c (unnamedAll body)
termination_by structural s => s

/-- Some steps in which they and all steps inside them have lost their names. -/
def unnamedAll : List Step → List Step
  | [] => []
  | s :: ss => unnamed s :: unnamedAll ss
termination_by structural ss => ss

end

mutual

theorem unnamed_renumber (n : Int) : (s : Step) → unnamed (renumber n s).1 = unnamed s
  | act i a => rfl
  | branch i c yes no => by
    simp only [renumber, unnamed, unnamedAll_renumberAll (n + 1) yes,
      unnamedAll_renumberAll (renumberAll (n + 1) yes).2 no]
  | loop i c body => by simp only [renumber, unnamed, unnamedAll_renumberAll (n + 1) body]
termination_by structural s => s

/-- A copy differs from its template in names only. -/
theorem unnamedAll_renumberAll (n : Int) :
    (ss : List Step) → unnamedAll (renumberAll n ss).1 = unnamedAll ss
  | [] => rfl
  | s :: ss => by
    simp only [renumberAll, unnamedAll, unnamed_renumber n s,
      unnamedAll_renumberAll (renumber n s).2 ss]
termination_by structural ss => ss

end

theorem length_ids (ss : List Step) : (ids ss).length = (gather (fun _ => [()]) ss).length := by
  simp [ids, gather]

/-- A copy draws as many numbers as its template has steps. -/
theorem renumberAll_snd (n : Int) (ss : List Step) :
    (renumberAll n ss).2 = n + (ids ss).length := by
  have hle := le_renumberAll n ss
  have hl : (ids (renumberAll n ss).1).length = (ids ss).length := by
    rw [length_ids, length_ids, gather_renumberAll _ fun _ _ => rfl]
  rw [ids_renumberAll, idsBetween, List.length_map, List.length_range] at hl
  omega

end Step

open Step

-- Otherwise the elaborator reads the line of a run whenever a run is given to a lemma.
attribute [local irreducible] Compile.Run

/-- A copy of a template that is made in a session: it differs from the template in names only,
which are consecutive from the next number on, and the session is left as it was, apart from the
number of the next step. -/
structure CopyOf (template : List Step) (s : Session) (copies : List Step) (t : Session) :
    Prop where
  same : unnamedAll copies = unnamedAll template
  ids : ids copies = idsBetween s.counter (s.counter + (Step.ids template).length)
  counter : t.counter = s.counter + (Step.ids template).length
  templates : t.templates = s.templates
  types : t.types = s.types
  diagnostics : t.diagnostics = s.diagnostics
  nesting : t.nesting = s.nesting

/-- Copying steps under new names makes a copy. -/
theorem copyOf_renumberAll (template : List Step) (s : Session) :
    CopyOf template s (renumberAll s.counter template).1 (s.copied template) where
  same := unnamedAll_renumberAll _ _
  ids := by rw [ids_renumberAll, renumberAll_snd]
  counter := renumberAll_snd _ _
  templates := rfl
  types := rfl
  diagnostics := rfl
  nesting := rfl

/-! ## Lines inside lines -/

/-- The lines inside a command that are carried out: the definitions that the command has made
before one of them, and the session in which it begins. -/
inductive Command.Opens (inner : Course) :
    Command → Session → List Definition → String → Session → Prop
  | define {name body : String} {s : Session} : Opens inner (define name body) s [] body s
  | count {body times : String} {n : Int} {s : Session}
      (hn : number? times.toList = .ok (some (.int n))) (hb : trim body.toList ≠ []) :
      Opens inner (count body times) s [] body
        (s.drawn.typed (loopCounter (stepId s.counter)) ValueType.number.name).drawn
  | yes {condition yes : String} {no : Option String} {c : Condition} {s : Session}
      (hc : Condition.parse condition.toList = .ok c) :
      Opens inner (branch condition yes no) s [] yes s
  | no {condition yes no : String} {c : Condition} {s t : Session} {steps : List Step}
      {defs : List Definition} (hc : Condition.parse condition.toList = .ok c)
      (hy : inner yes s steps defs t) : Opens inner (branch condition yes (some no)) s defs no t

namespace Compile

variable {rules : List Rule} {n m : Nat} {text inner : String} {s t u : Session}
  {defs : List Definition}

/-- The lines that are carried out in the course of a line, the line itself included: the
definitions that have been made before one of them, the allowance that is left, and the session in
which it begins. -/
inductive Reaches (rules : List Rule) :
    Nat → String → Session → List Definition → Nat → String → Session → Prop
  | here {n : Nat} {text : String} {s : Session} : Reaches rules n text s [] n text s
  | inside {n m : Nat} {text inner verb body : String} {c : Command} {s t u : Session}
      {defs more : List Definition} (hread : Command.read? rules (trimmed text) = some (verb, c))
      (ho : c.Opens (Run rules n) (s.told (.dispatched (trimmed text) verb)).entered defs body t)
      (h : Reaches rules n body t more m inner u) :
      Reaches rules (n + 1) text s (defs ++ more) m inner u

/-- The templates where a line inside another one begins are those before the other one, with the
definitions that have been made since registered in order. -/
theorem Reaches.templates_eq (h : Reaches rules n text s defs m inner u) :
    u.templates = s.templates.register defs := by
  induction h with
  | here => rfl
  | inside hread ho _ ih =>
    rw [ih, Registry.register_append]
    cases ho with
    | define => rfl
    | count hn hb => rfl
    | yes hc => rfl
    | no hc hy => rw [hy.templates_eq, Session.entered_templates, Session.told_templates]

/-- A fault in a line inside another one ends the other one. -/
theorem Reaches.halt {f : Fault} {more : List Definition} (h : Reaches rules n text s defs m inner u)
    (hf : Halt rules m inner u f more t) : ∃ t, Halt rules n text s f (defs ++ more) t := by
  induction h with
  | here => exact ⟨t, hf⟩
  | @inside n m text inner verb body c s t u defs more hread ho _ ih =>
    obtain ⟨v, hv⟩ := ih hf
    simp only [Halt, hread, List.append_assoc]
    cases ho with
    | define => exact ⟨_, v, .defined hv, rfl⟩
    | count hn hb => exact ⟨_, v, .counted hn hb hv, rfl⟩
    | yes hc => exact ⟨_, v, .yes hc hv, rfl⟩
    | no hc hy => exact ⟨_, v, .no hc hy hv, rfl⟩

/-- A call of a template with steps yields a copy of them. -/
theorem copyOf_invoke {verb name : String} {template : List Step}
    (hread : Command.read? rules (trimmed text) = some (verb, .invoke name))
    (hf : s.templates.find? name = some template) (hne : template ≠ []) :
    ∃ copies t, lineWithin rules (n + 1) text s = .ok copies t ∧ CopyOf template s copies t := by
  have hr : Run rules (n + 1) text s _ [] _ := .of_command hread (.copied hf hne)
  refine ⟨_, _, lineWithin_eq_ok_iff.2 ⟨_, hr⟩, ?_⟩
  obtain ⟨hsame, hids, hcounter, -⟩ :=
    copyOf_renumberAll template (s.told (.dispatched (trimmed text) verb)).entered
  exact ⟨hsame, hids, hcounter, rfl, rfl, s.diagnostics_told_dispatched _ _, hr.nesting_eq⟩

/-- A line that defines a template by a call of another one. -/
theorem run_of_callDefinition {name body other verb verb' : String} {template : List Step}
    (hread : Command.read? rules (trimmed text) = some (verb, .define name body))
    (hbody : Command.read? rules (trimmed body) = some (verb', .invoke other))
    (hf : s.templates.find? other = some template) (hne : template ≠ []) :
    ∃ t, Run rules (n + 1 + 1) text s [] [(name, (renumberAll s.counter template).1)] t ∧
      t.counter = (renumberAll s.counter template).2 := by
  have hr := Run.of_command (n := n) (s := (s.told (.dispatched (trimmed text) verb)).entered) hbody
    (.copied hf hne)
  exact ⟨_, .of_command hread (.defined hr), rfl⟩

end Compile

/-- A template, another one that calls it, and the first one defined anew. -/
def earlierTemplate : List Request :=
  [.carry (.line "macro a break"), .carry (.line "macro b call a"),
    .carry (.line "macro a wait 1 seconds")]

theorem dialogue_earlierTemplate : ∃ defs template s,
    Dialogue {} earlierTemplate [[], [], []] defs s ∧ lastOf? "b" defs = some template ∧
      template ≠ [] ∧ unnamedAll template = [.single "" .leave ""] ∧
      (ids template).length = 1 ∧ s.counter = 4 := by
  have hfirst : Command.read? Command.rules (trimmed "macro a break") =
      some ("macro", .define "a" "break") := by decide
  have hleave : Command.read? Command.rules (trimmed "break") = some ("break", .leave) := by decide
  have hcaller : Command.read? Command.rules (trimmed "macro b call a") =
      some ("macro", .define "b" "call a") := by decide
  have hcall : Command.read? Command.rules (trimmed "call a") = some ("call", .invoke "a") := by
    decide
  have hsecond : Command.read? Command.rules (trimmed "macro a wait 1 seconds") =
      some ("macro", .define "a" "wait 1 seconds") := by decide
  have hwait : Command.read? Command.rules (trimmed "wait 1 seconds") =
      some ("wait", .wait "1") := by decide
  have hone : number? "1".toList = .ok (some (.int 1)) := by decide
  obtain ⟨u, hu, -, hcu⟩ := Compile.run_of_definition (n := 30) (s := {}) hfirst hleave .leave
  have hf : u.templates.find? "a" = some [.single (stepId 1) .leave ""] := by
    rw [hu.templates_eq]
    rfl
  obtain ⟨v, hv, hcv⟩ := Compile.run_of_callDefinition (n := 30) hcaller hcall hf (by simp)
  obtain ⟨w, hw, -, hcw⟩ :=
    Compile.run_of_definition (n := 30) (s := v) hsecond hwait (.wait hone (by decide))
  have hnu : u.nesting = 0 := hu.nesting_eq
  have hnv : v.nesting = 0 := hv.nesting_eq.trans hnu
  refine ⟨_, (renumberAll u.counter [.single (stepId 1) .leave ""]).1, w,
    .cons_line rfl hu (.cons_line hnu hv (.cons_line hnv hw .nil)), ?_, ?_, rfl, rfl, ?_⟩
  · simp [lastOf?]
  · simp [renumberAll]
  · rw [hcw, hcv, hcu]
    rfl

/-- **A template is expanded to what its last definition has stored.** Whatever a session has been
asked for, the definitions that have been made can be listed in order. If the last one of a name has
stored some steps, then an expansion of the name yields a copy of them, and so does a call: on a line
of its own, or inside another line, where the definitions made before it in that line count. -/
theorem expansion_of_definition (rs : List Request) (answers : List (List Step)) (s : Session)
    (h : performAll rs {} = (answers, s)) :
    (∃ defs, Dialogue {} rs answers defs s) ∧
    ∀ defs, Dialogue {} rs answers defs s → ∀ (name : String) (template : List Step),
      template ≠ [] →
      (lastOf? name defs = some template →
        (∃ copies t, Compile.expand name s = .ok copies t ∧ CopyOf template s copies t) ∧
        ∀ text verb, Command.read? Command.rules (trimmed text) = some (verb, .invoke name) →
          ∃ copies t, Compile.line text s = .ok copies t ∧ CopyOf template s copies t) ∧
      ∀ text more n inner u, Compile.Reaches Command.rules (Compile.allowance s.nesting) text s
          more (n + 1) inner u →
        lastOf? name (defs ++ more) = some template →
        ∀ verb, Command.read? Command.rules (trimmed inner) = some (verb, .invoke name) →
          ∃ copies t, Compile.lineWithin Command.rules (n + 1) inner u = .ok copies t ∧
            CopyOf template u copies t := by
  refine ⟨performAll_eq_iff.1 h, ?_⟩
  intro defs hd name template hne
  have hfind : ∀ (u : Session) (more : List Definition), u.templates = s.templates.register more →
      lastOf? name (defs ++ more) = some template → u.templates.find? name = some template := by
    intro u more hu hl
    rw [hu, hd.templates_eq, ← Registry.register_append, Registry.find?_register, hl]
    rfl
  refine ⟨?_, ?_⟩
  · intro hl
    have hf := hfind s [] rfl (by rwa [List.append_nil])
    refine ⟨⟨_, _, Operation.carry_expand hf, copyOf_renumberAll template s⟩, ?_⟩
    intro text verb hread
    have ha : Compile.allowance s.nesting = 31 + 1 := by
      rw [hd.nesting_eq]
      decide
    obtain ⟨copies, t, hc, hcopy⟩ := Compile.copyOf_invoke (n := 31) hread hf hne
    refine ⟨copies, t, ?_, hcopy⟩
    rw [← ha] at hc
    exact hc
  · intro text more n inner u hr hl verb hread
    exact Compile.copyOf_invoke hread (hfind u more hr.templates_eq hl) hne

/-- A template that calls another one is expanded to what it had stored before the other one was
defined anew: by an expansion, by a call, and by a call inside a branch. -/
theorem expansion_of_earlierTemplate : ∃ answers s,
    performAll earlierTemplate {} = (answers, s) ∧
    (∃ copies t, Compile.expand "b" s = .ok copies t ∧
      unnamedAll copies = [.single "" .leave ""] ∧ ids copies = [stepId 4]) ∧
    (∃ copies t, Compile.line "call b" s = .ok copies t ∧
      unnamedAll copies = [.single "" .leave ""] ∧ ids copies = [stepId 4]) ∧
    ∃ u copies t, Compile.Reaches Command.rules (Compile.allowance s.nesting) "if a then call b" s
        [] (30 + 1) "call b" u ∧
      Compile.lineWithin Command.rules (30 + 1) "call b" u = .ok copies t ∧
      unnamedAll copies = [.single "" .leave ""] := by
  obtain ⟨defs, template, s, hd, hl, hne, hunnamed, hlength, hcounter⟩ := dialogue_earlierTemplate
  have h := performAll_eq_iff.2 ⟨_, hd⟩
  have hcall : Command.read? Command.rules (trimmed "call b") = some ("call", .invoke "b") := by
    decide
  have hbranch : Command.read? Command.rules (trimmed "if a then call b") =
      some ("if", .branch "a" "call b" none) := by decide
  have hcondition : Condition.parse "a".toList = .ok (.holds "a") := by decide
  have hids : idsBetween s.counter (s.counter + (ids template).length) = [stepId 4] := by
    rw [hcounter, hlength]
    rfl
  have hreach : Compile.Reaches Command.rules (Compile.allowance s.nesting) "if a then call b" s
      [] (30 + 1) "call b" (s.told (.dispatched (trimmed "if a then call b") "if")).entered := by
    rw [hd.nesting_eq]
    exact .inside hbranch (.yes hcondition) .here
  obtain ⟨hlast, hinside⟩ := (expansion_of_definition _ _ _ h).2 defs hd "b" template hne
  obtain ⟨⟨copies, t, he, hcopy⟩, hline⟩ := hlast hl
  obtain ⟨copies', t', hc', hcopy'⟩ := hline _ _ hcall
  obtain ⟨copies'', t'', hc'', hcopy''⟩ :=
    hinside _ [] _ _ _ hreach (by rwa [List.append_nil]) _ hcall
  exact ⟨_, s, h, ⟨copies, t, he, hcopy.same.trans hunnamed, hcopy.ids.trans hids⟩,
    ⟨copies', t', hc', hcopy'.same.trans hunnamed, hcopy'.ids.trans hids⟩,
    ⟨_, copies'', t'', hreach, hc'', hcopy''.same.trans hunnamed⟩⟩

end FlowScript
