import FlowScript.Proofs.Session.Depth
import FlowScript.Proofs.Workflow.Verdict

/-!
# Depths of the steps of a text

How deep the steps of a text lie is bounded by the commands that may lie inside each other, and by
the templates that are called or defined. There is no bound for all texts: a template that is
defined anew by a call of itself grows by one with each definition.

## Main statements

* `depth_bounded`: the bound, from the commands that are carried out.
* `Workflow.exists_deep`: texts with steps as deep as one likes.
-/
namespace FlowScript

open Text Step

variable {kind : Command → Bool} {base : Nat}

namespace Workflow

/-- The steps of some lines are as high as those of one line may be, and higher only by what the
commands of a kind account for. -/
theorem rise_stepsOf {lines : List String} {s t : Session} {steps : List Step}
    (hw : Weighs kind base) (hs : s.nesting = 0) (h : stepsOf lines s = .ok steps t) :
    ∃ more, Rise (carriedOut Command.rules kind) base maxNesting s steps t 0 more := by
  induction lines generalizing s steps with
  | nil =>
    obtain ⟨rfl, rfl⟩ := stepsOf_nil_eq_ok.1 h
    refine ⟨0, .still rfl rfl fun limit hl _ => ?_⟩
    simp only [heightAll, raised]
    omega
  | cons line lines ih =>
    obtain ⟨first, u, others, hl, ho, rfl⟩ := stepsOf_cons_eq_ok.1 h
    obtain ⟨defs, hr⟩ := Compile.line_eq_ok_iff.1 hl
    rw [Compile.allowance_outermost hs] at hr
    obtain ⟨more', hr'⟩ := ih (by rw [hr.nesting_eq, hs]) ho
    obtain ⟨more, hr⟩ := hr.rise hw (Nat.le_refl _)
    exact ⟨more + more', hr.beside hr'⟩

/-- The steps of a text are as high as those of one line may be, and higher only by what the
commands of a kind account for. -/
theorem heightAll_assemble_le {function text : String} {w : Workflow} {t : Session}
    (hw : Weighs kind base) (h : assemble function text {} = .ok w t) :
    heightAll w.steps ≤ raised maxNesting (carriedOut Command.rules kind t.journal) := by
  obtain ⟨steps, hs, rfl⟩ := assemble_eq_ok.1 h
  obtain ⟨more, hr⟩ := rise_stepsOf hw rfl hs
  have hc := hr.count_eq
  have hh := hr.height base (Nat.le_refl _) (by simp [Within, Registry.empty])
  simp only [carriedOut, List.countP_nil, Nat.zero_add] at hc
  simp only [ofSteps, raised, carriedOut, hc, Nat.zero_add] at hh ⊢
  omega

end Workflow

/-! ## Texts with deep steps -/

namespace Compile

variable {rules : List Rule} {n : Nat} {s : Session} {name text yes body : String}
  {template : List Step}

/-- A call of a template inserts a copy of it. -/
theorem run_invoke {verb : String}
    (hread : Command.read? rules (trimmed text) = some (verb, .invoke name))
    (hf : s.templates.find? name = some template) (hne : template ≠ []) :
    ∃ k t, Run rules (n + 1) text s (renumberAll k template).1 [] t ∧
      t.templates = s.templates := by
  have hf' : (s.told (.dispatched (trimmed text) verb)).entered.templates.find? name =
      some template := hf
  exact ⟨_, _, .of_command hread (.copied hf' hne), rfl⟩

/-- A branch around a call of a template is higher than the template by one. -/
theorem run_branch {verb verb' condition : String} {c : Condition}
    (hread : Command.read? rules (trimmed text) = some (verb, .branch condition yes none))
    (hcall : Command.read? rules (trimmed yes) = some (verb', .invoke name))
    (hc : Condition.parse condition.toList = .ok c)
    (hf : s.templates.find? name = some template) (hne : template ≠ []) :
    ∃ steps t, Run rules (n + 1 + 1) text s steps [] t ∧
      heightAll steps = heightAll template + 1 := by
  have hf' : (s.told (.dispatched (trimmed text) verb)).entered.templates.find? name =
      some template := hf
  obtain ⟨k, t, hr, -⟩ := run_invoke (n := n) hcall hf' hne
  refine ⟨_, _, .of_command hread (.taken hc hr), ?_⟩
  rw [Command.heightAll_branched, heightAll_renumberAll]
  simp [heightAll]

/-- Defining a template anew by a branch around a call of itself makes it higher by one. -/
theorem run_redefinition {verb verb' verb'' condition : String} {c : Condition}
    (hread : Command.read? rules (trimmed text) = some (verb, .define name body))
    (hbranch : Command.read? rules (trimmed body) = some (verb', .branch condition yes none))
    (hcall : Command.read? rules (trimmed yes) = some (verb'', .invoke name))
    (hc : Condition.parse condition.toList = .ok c)
    (hf : s.templates.find? name = some template) (hne : template ≠ []) :
    ∃ higher defs t, Run rules (n + 1 + 1 + 1) text s [] defs t ∧
      t.templates.find? name = some higher ∧ heightAll higher = heightAll template + 1 := by
  have hf' : (s.told (.dispatched (trimmed text) verb)).entered.templates.find? name =
      some template := hf
  obtain ⟨steps, t, hr, hh⟩ := run_branch (n := n) hbranch hcall hc hf' hne
  exact ⟨steps, _, _, .of_command hread (.defined hr), Registry.find?_insert_self _ _ _, hh⟩

/-- A session at the outermost level in which a template is so high. -/
def Holds (name : String) (height : Nat) (s : Session) : Prop :=
  s.nesting = 0 ∧ ∃ template, s.templates.find? name = some template ∧ heightAll template = height

theorem line_redefinition {h : Nat} (hs : Holds "m" (h + 1) s) :
    ∃ t, Compile.line "macro m if a then call m" s = .ok [] t ∧ Holds "m" (h + 2) t := by
  obtain ⟨hn, template, hf, hh⟩ := hs
  have hne : template ≠ [] := by
    rintro rfl
    simp [heightAll] at hh
  have hread : Command.read? Command.rules (trimmed "macro m if a then call m") =
      some ("macro", .define "m" "if a then call m") := by decide
  have hbranch : Command.read? Command.rules (trimmed "if a then call m") =
      some ("if", .branch "a" "call m" none) := by decide
  have hcall : Command.read? Command.rules (trimmed "call m") = some ("call", .invoke "m") := by
    decide
  have hcond : Condition.parse "a".toList = .ok (.holds "a") := by decide
  have ha : allowance s.nesting = 29 + 1 + 1 + 1 := allowance_outermost hn
  obtain ⟨higher, defs, t, hr, ht, hheight⟩ :=
    run_redefinition (n := 29) hread hbranch hcall hcond hf hne
  exact ⟨t, line_of_run hr ha, by rw [hr.nesting_eq, hn], higher, ht, by rw [hheight, hh]⟩

theorem line_call {h : Nat} (hs : Holds "m" (h + 1) s) :
    ∃ steps t, Compile.line "call m" s = .ok steps t ∧ heightAll steps = h + 1 := by
  obtain ⟨hn, template, hf, hh⟩ := hs
  have hne : template ≠ [] := by
    rintro rfl
    simp [heightAll] at hh
  have hread : Command.read? Command.rules (trimmed "call m") = some ("call", .invoke "m") := by
    decide
  have ha : allowance s.nesting = 31 + 1 := allowance_outermost hn
  obtain ⟨k, t, hr, -⟩ := run_invoke (n := 31) hread hf hne
  exact ⟨_, t, line_of_run hr ha, by rw [heightAll_renumberAll, hh]⟩

theorem line_definition :
    ∃ t, Compile.line "macro m break" {} = .ok [] t ∧ Holds "m" 1 t := by
  obtain ⟨t, hl, hn, hf⟩ : ∃ t, Compile.line "macro m break" {} = .ok [] t ∧ t.nesting = 0 ∧
      t.templates.find? "m" = some [.single (stepId 1) .leave ""] := ⟨_, rfl, rfl, rfl⟩
  exact ⟨t, hl, hn, _, hf, rfl⟩

end Compile

namespace Workflow

/-- The lines that define a template, define it anew a number of times and call it. -/
def towerLines (n : Nat) : List String :=
  "macro m break" :: (List.replicate n "macro m if a then call m" ++ ["call m"])

theorem stepsOf_redefinitions {h : Nat} (n : Nat) {s : Session} (hs : Compile.Holds "m" (h + 1) s) :
    ∃ steps t, stepsOf (List.replicate n "macro m if a then call m" ++ ["call m"]) s = .ok steps t ∧
      heightAll steps = h + n + 1 := by
  induction n generalizing h s with
  | zero =>
    obtain ⟨steps, t, hl, hh⟩ := Compile.line_call hs
    have hnil : stepsOf [] t = .ok [] t := stepsOf_nil_eq_ok.2 ⟨rfl, rfl⟩
    exact ⟨steps, t, stepsOf_cons_eq_ok.2 ⟨steps, t, [], hl, hnil, by simp⟩, hh⟩
  | succ n ih =>
    obtain ⟨u, hl, hu⟩ := Compile.line_redefinition hs
    obtain ⟨steps, t, ho, hh⟩ := ih hu
    exact ⟨steps, t, stepsOf_cons_eq_ok.2 ⟨[], u, steps, hl, ho, rfl⟩, by omega⟩

/-- There are texts with steps as deep as one likes. -/
theorem exists_deep (function : String) (n : Nat) :
    ∃ w t, assemble function (ofLines (towerLines n)) {} = .ok w t ∧
      ∃ visit ∈ walkAll 0 w.steps, visit.2 = n := by
  have hlines : ∀ line ∈ towerLines n, isLine line := by
    intro line hl
    simp only [towerLines, List.mem_cons, List.mem_append, List.mem_replicate, List.not_mem_nil,
      or_false] at hl
    rcases hl with rfl | ⟨-, rfl⟩ | rfl <;> decide
  obtain ⟨u, hl, hu⟩ := Compile.line_definition
  obtain ⟨steps, t, ho, hh⟩ := stepsOf_redefinitions n hu
  refine ⟨_, t, assemble_eq_ok.2 ⟨steps, ?_, rfl⟩, ?_⟩
  · rw [commandLines_ofLines hlines]
    exact stepsOf_cons_eq_ok.2 ⟨[], u, steps, hl, ho, rfl⟩
  · obtain ⟨visit, hv, hd⟩ := exists_heightAll 0 steps (by omega)
    exact ⟨visit, hv, by omega⟩

end Workflow

/-- Texts with deep steps are accepted. -/
theorem exists_deep_accepted {seed : String} (hs : Packaged.IsSeed seed) (stamp : String) (n : Nat) :
    ∃ outcome events w, compile (some (ofLines (Workflow.towerLines n))) (workflowName seed)
        stamp {} (.ok Packaged.root.validate) = .ok (outcome, events) ∧ outcome.workflow? = some w ∧
      ∃ visit ∈ walkAll 0 w.steps, visit.2 = n := by
  obtain ⟨w, t, ha, visit, hv, hd⟩ := Workflow.exists_deep (workflowName seed) n
  have hne : w.steps ≠ [] := by
    intro h
    simp [h, walkAll] at hv
  obtain ⟨document, ds, events, hc⟩ := accepted_of_assemble hs ha hne stamp
  exact ⟨_, events, w, hc, rfl, visit, hv, hd⟩

/-! ## The bound -/

/-- **How deep the steps of a text lie.** Without templates, a step lies less than `maxNesting` deep,
or that deep if it increases the counter of a loop. Each template that is called may add
`maxNesting - 2` to this, and each one that is defined; whichever are fewer count. A line that lies
inside `maxNesting` commands yields nothing but a diagnostic. -/
theorem depth_bounded :
    (∀ (function text : String) (w : Workflow) (t : Session),
      Workflow.assemble function text {} = .ok w t →
      ∀ visit ∈ walkAll 0 w.steps, Above (raised maxNesting
        (min (carriedOut Command.rules Command.isInvoke t.journal)
          (carriedOut Command.rules Command.isDefine t.journal))) visit) ∧
    (∀ (text : Option String) (function stamp : String) (o : Options)
      (schema : Except Unloaded Validator) (outcome : Outcome) (events : List Event)
      (w : Workflow), compile text function stamp o schema = .ok (outcome, events) →
      outcome.workflow? = some w →
      ∀ visit ∈ walkAll 0 w.steps, Above (raised maxNesting
        (min (carriedOut Command.rules Command.isInvoke events)
          (carriedOut Command.rules Command.isDefine events))) visit) ∧
    ∀ (text : String) (s : Session), maxNesting ≤ s.nesting →
      Compile.line text s = .ok [] (s.told (.reported (.tooDeep (trimmed text)))) := by
  have hd : ∀ (function text : String) (w : Workflow) (t : Session),
      Workflow.assemble function text {} = .ok w t →
      ∀ visit ∈ walkAll 0 w.steps, Above (raised maxNesting
        (min (carriedOut Command.rules Command.isInvoke t.journal)
          (carriedOut Command.rules Command.isDefine t.journal))) visit := by
    intro function text w t h visit hv
    have hi := Workflow.heightAll_assemble_le weighs_invoke h
    have hd := Workflow.heightAll_assemble_le weighs_define h
    refine (above_heightAll 0 w.steps visit hv).mono ?_
    simp only [raised] at hi hd ⊢
    rcases Nat.le_total (carriedOut Command.rules Command.isInvoke t.journal)
      (carriedOut Command.rules Command.isDefine t.journal) with hm | hm
    · rw [Nat.min_eq_left hm]
      omega
    · rw [Nat.min_eq_right hm]
      omega
  refine ⟨hd, ?_, ?_⟩
  · intro text function stamp o schema outcome events w h hw
    obtain ⟨content, t, _, _, _, _, rfl, ha, -, rfl⟩ := assemble_of_compile h hw
    simpa [Event.command?] using hd _ _ _ _ ha
  · intro text s hs
    have hn : Compile.allowance s.nesting = 0 := by
      simp only [Compile.allowance]
      omega
    rw [Compile.line_eq_ok_iff, hn]
    exact ⟨[], rfl, rfl, rfl⟩

/-- A template that is defined anew once and called. -/
theorem depth_bounded_of_redefinition :
    (∃ w t, Workflow.assemble "f" (ofLines (Workflow.towerLines 1)) {} = .ok w t ∧
      ∀ visit ∈ walkAll 0 w.steps, Above (raised maxNesting
        (min (carriedOut Command.rules Command.isInvoke t.journal)
          (carriedOut Command.rules Command.isDefine t.journal))) visit) ∧
    (∃ outcome events w, compile (some (ofLines (Workflow.towerLines 1)))
        (workflowName "0123456789abcdef0123456789abcdef") "2024-01-02T03:04:05Z" {}
        (.ok Packaged.root.validate) = .ok (outcome, events) ∧ outcome.workflow? = some w ∧
      ∀ visit ∈ walkAll 0 w.steps, Above (raised maxNesting
        (min (carriedOut Command.rules Command.isInvoke events)
          (carriedOut Command.rules Command.isDefine events))) visit) ∧
    Compile.line "break" { nesting := 32 } =
      .ok [] (Session.told { nesting := 32 } (.reported (.tooDeep "break"))) := by
  have hseed : Packaged.IsSeed "0123456789abcdef0123456789abcdef" := by decide
  obtain ⟨w, t, ha, -⟩ := Workflow.exists_deep "f" 1
  obtain ⟨outcome, events, w', hc, hw, -⟩ := exists_deep_accepted hseed "2024-01-02T03:04:05Z" 1
  refine ⟨⟨w, t, ha, depth_bounded.1 _ _ _ _ ha⟩, ⟨outcome, events, w', hc, hw, ?_⟩, ?_⟩
  · exact depth_bounded.2.1 _ _ _ _ _ _ _ _ hc hw
  · exact depth_bounded.2.2 "break" { nesting := 32 } (by decide)

/-- A template that is defined anew `maxNesting` times and called: a step lies deeper than the
commands of any line may. -/
theorem depth_not_below_maxNesting :
    ∃ outcome events w, compile (some (ofLines (Workflow.towerLines maxNesting)))
        (workflowName "0123456789abcdef0123456789abcdef") "2024-01-02T03:04:05Z" {}
        (.ok Packaged.root.validate) = .ok (outcome, events) ∧ outcome.workflow? = some w ∧
      ∃ visit ∈ walkAll 0 w.steps, ¬ visit.2 < maxNesting := by
  have hseed : Packaged.IsSeed "0123456789abcdef0123456789abcdef" := by decide
  obtain ⟨outcome, events, w, hc, hw, visit, hv, hd⟩ :=
    exists_deep_accepted hseed "2024-01-02T03:04:05Z" maxNesting
  exact ⟨outcome, events, w, hc, hw, visit, hv, by omega⟩

end FlowScript
