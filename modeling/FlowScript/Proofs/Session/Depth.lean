import FlowScript.Proofs.Step.Walk
import FlowScript.Proofs.Session.Adequacy

/-!
# Depths of steps

A command inside `maxNesting` others is reported, so that what one line spells out is at most that
deep. The steps of a template are not spelled out by the line that calls it: a copy keeps the height
of its template wherever it is put, and the line that defined the template could call others. So
the depth of a workflow grows with the number of templates that are called inside each other, and
the calls that are carried out bound it, as do the definitions.

## Main definitions

* `carriedOut`: how many commands of a kind are told of in a journal.
* `Weighs`: the kinds of commands that bound depths.
* `Rise`: how far a line raises the heights of steps.

## Main statements

* `Rise.around`, `Rise.beside`: rises of steps around others and beside them.
* `Compile.Run.rise`: how far a line raises heights, by the commands of a kind inside it.
-/
namespace FlowScript

open Text Step

/-- The command that an event tells of. -/
def Event.command? (rules : List Rule) : Event → Option Command
  | .dispatched line _ => (Command.read? rules line).map (·.2)
  | _ => none

/-- How many commands of a kind are told of in a journal. -/
def carriedOut (rules : List Rule) (kind : Command → Bool) (journal : List Event) : Nat :=
  journal.countP fun e => (e.command? rules).any kind

/-- Whether a command inserts the steps of a template. -/
def Command.isInvoke : Command → Bool
  | invoke _ => true
  | _ => false

/-- Whether a command defines a template. -/
def Command.isDefine : Command → Bool
  | define _ _ => true
  | _ => false

/-- The height to which `maxNesting - 2` commands raise the steps of a template, for each of some
commands. -/
def raised (limit count : Nat) : Nat :=
  limit + (maxNesting - 2) * count

theorem le_raised (limit count : Nat) : limit ≤ raised limit count :=
  Nat.le_add_right _ _

theorem raised_add (limit m n : Nat) : raised limit (m + n) = raised (raised limit m) n := by
  simp only [raised, Nat.mul_add, Nat.add_assoc]

theorem raised_mono {limit m n : Nat} (h : m ≤ n) : raised limit m ≤ raised limit n :=
  Nat.add_le_add_left (Nat.mul_le_mul_left _ h) _

/-- The kinds of commands that bound the depths of steps, with a height that templates have in any
case: either those that call templates or those that define them must be counted. -/
structure Weighs (kind : Command → Bool) (base : Nat) : Prop where
  pos : 1 ≤ base
  invoke : ∀ name, base ≤ raised 1 (kind (.invoke name)).toNat
  define : ∀ name body, maxNesting - 1 ≤ raised base (kind (.define name body)).toNat

theorem weighs_invoke : Weighs Command.isInvoke (maxNesting - 1) where
  pos := by decide
  invoke _ := by simp [raised, maxNesting, Command.isInvoke]
  define _ _ := by simp [raised]

theorem weighs_define : Weighs Command.isDefine 1 where
  pos := by decide
  invoke _ := by simp [raised]
  define _ _ := by simp [raised, maxNesting, Command.isDefine]

/-- All templates are at most so high. -/
def Within (limit : Nat) (templates : Registry (List Step)) : Prop :=
  ∀ e ∈ templates.entries, heightAll e.2 ≤ limit

theorem Within.mono {m n : Nat} {templates : Registry (List Step)} (h : Within m templates)
    (hmn : m ≤ n) : Within n templates :=
  fun e he => Nat.le_trans (h e he) hmn

theorem Within.insert {limit : Nat} {templates : Registry (List Step)} {name : String}
    {steps : List Step} (h : Within limit templates) (hs : heightAll steps ≤ limit) :
    Within limit (templates.insert name steps) := by
  intro e he
  obtain he | rfl := Registry.mem_entries_insert he
  · exact h e he
  · exact hs

/-- How far heights rise: by a number of commands of a kind on the way, and by some on the account
of the line itself. -/
structure Rise (count : List Event → Nat) (base allowance : Nat) (s : Session)
    (steps : List Step) (t : Session) (own more : Nat) : Prop where
  count_eq : count t.journal = count s.journal + more
  within : ∀ limit, base ≤ limit → Within limit s.templates →
    Within (raised limit (own + more)) t.templates
  height : ∀ limit, base ≤ limit → Within limit s.templates →
    heightAll steps + base ≤ allowance + raised limit (own + more)

namespace Rise

variable {count : List Event → Nat} {base n own more more' : Nat} {s u t : Session}
  {steps first second inside : List Step}

/-- Where no template is defined and no command is told of, heights rise by the steps alone. -/
theorem still (hc : count t.journal = count s.journal) (ht : t.templates = s.templates)
    (hh : ∀ limit, base ≤ limit → Within limit s.templates →
      heightAll steps + base ≤ n + raised limit own) : Rise count base n s steps t own 0 where
  count_eq := hc
  within _ _ hs := ht ▸ hs.mono (le_raised _ _)
  height := hh

/-- A command around the steps of lines inside it raises them by one. -/
theorem around (h : Rise count base n s inside u 0 more) (hc : count t.journal = count u.journal)
    (ht : t.templates = u.templates) (hh : heightAll steps ≤ heightAll inside + 1) :
    Rise count base (n + 1) s steps t own more where
  count_eq := hc.trans h.count_eq
  within limit hl hs := ht ▸ (h.within limit hl hs).mono (raised_mono (by omega))
  height limit hl hs := by
    have hi := h.height limit hl hs
    have hr : raised limit (0 + more) ≤ raised limit (own + more) := raised_mono (by omega)
    omega

/-- Of two lines one after the other each adds what it accounts for. -/
theorem beside (h : Rise count base n s first u 0 more) (h' : Rise count base n u second t 0 more') :
    Rise count base n s (first ++ second) t 0 (more + more') where
  count_eq := by rw [h'.count_eq, h.count_eq, Nat.add_assoc]
  within limit hl hs := by
    have ht := h'.within _ (Nat.le_trans hl (le_raised _ _)) (h.within limit hl hs)
    simpa only [Nat.zero_add, raised_add] using ht
  height limit hl hs := by
    have hf := h.height limit hl hs
    have hg := h'.height _ (Nat.le_trans hl (le_raised _ _)) (h.within limit hl hs)
    have hr : raised limit (0 + more) ≤ raised (raised limit (0 + more)) (0 + more') :=
      le_raised _ _
    rw [heightAll_append]
    simp only [Nat.zero_add, raised_add] at hf hg hr ⊢
    omega

end Rise

variable {rules : List Rule} {kind : Command → Bool} {base : Nat}

@[simp] theorem carriedOut_concat (journal : List Event) (e : Event) :
    carriedOut rules kind (journal ++ [e]) =
      carriedOut rules kind journal + ((e.command? rules).any kind).toNat := by
  cases h : (e.command? rules).any kind with
  | true => simp [carriedOut, List.countP_append, h]
  | false => simp [carriedOut, List.countP_append, h]

namespace Command

theorem heightAll_single_le (id : String) (a : Action) (phrase : String) :
    heightAll [.single id a phrase] ≤ 1 := by
  simp only [heightAll, single, height]
  split <;> omega

theorem heightAll_counted_le (counter first line id : String) (n : Int) (body : List Step)
    (last : String) :
    heightAll [firstCount counter first, counted line id n body last] ≤ heightAll body + 1 := by
  have hf := heightAll_single_le first (.set counter (.expr (.ofInt 0))) ""
  simp only [heightAll, firstCount, counted, height, heightAll_append, nextCount, single,
    Action.advances, isLoopCounter_loopCounter, decide_true, Bool.and_true, if_true,
    Nat.max_zero] at hf ⊢
  omega

theorem heightAll_branched (line id : String) (c : Condition) (yes no : List Step) :
    heightAll [branched line id c yes no] = max (heightAll yes) (heightAll no) + 1 := by
  simp [heightAll, branched, height]

/-- A command raises the steps of the lines inside it by one. -/
theorem Run.rise {inner : Course} {line : String} {c : Command} {s t : Session} {n : Nat}
    {steps : List Step} {defs : List Definition} (hw : Weighs kind base) (hn : n < maxNesting)
    (hin : ∀ text s steps defs t, inner text s steps defs t →
      ∃ more, Rise (carriedOut rules kind) base n s steps t 0 more)
    (h : Run inner line c s steps defs t) :
    ∃ more, Rise (carriedOut rules kind) base (n + 1) s steps t (kind c).toNat more := by
  cases h with
  | refused h =>
    refine ⟨0, .still (by simp [Event.command?]) rfl fun limit hl _ => ?_⟩
    have := le_raised limit (kind c).toNat
    simp only [heightAll]
    omega
  | @single _ _ action phrase _ h =>
    refine ⟨0, .still (by simp) rfl fun limit hl _ => ?_⟩
    have := heightAll_single_le (stepId s.counter) action phrase
    have := le_raised limit (kind c).toNat
    omega
  | @copied name _ template h hne =>
    refine ⟨0, .still (by simp) rfl fun limit hl hs => ?_⟩
    have ht := hs _ (Registry.mem_entries_of_find? h)
    have hi := hw.invoke name
    simp only [raised, heightAll_renumberAll] at ht hi ⊢
    omega
  | @defined name body _ t _ defs h =>
    obtain ⟨more, hr⟩ := hin _ _ _ _ _ h
    refine ⟨more, by simpa using hr.count_eq, fun limit hl hs => ?_, fun limit hl hs => ?_⟩
    · have hd := hw.define name body
      have hh := hr.height limit hl hs
      refine ((hr.within limit hl hs).mono (raised_mono (by omega))).insert ?_
      simp only [raised, maxNesting] at hd hh hn ⊢
      omega
    · have := le_raised limit ((kind (.define name body)).toNat + more)
      simp only [heightAll]
      omega
  | @counted _ _ _ t k body _ _ _ h =>
    obtain ⟨more, hr⟩ := hin _ _ _ _ _ h
    have hr : Rise (carriedOut rules kind) base n s body t 0 more :=
      ⟨hr.count_eq, hr.within, hr.height⟩
    exact ⟨more, hr.around rfl rfl (heightAll_counted_le _ _ _ _ _ _ _)⟩
  | taken hc h =>
    obtain ⟨more, hr⟩ := hin _ _ _ _ _ h
    refine ⟨more, hr.around rfl rfl ?_⟩
    rw [heightAll_branched]
    simp [heightAll]
  | branched hc hy hn =>
    obtain ⟨more, hr⟩ := hin _ _ _ _ _ hy
    obtain ⟨more', hr'⟩ := hin _ _ _ _ _ hn
    exact ⟨more + more',
      (hr.beside hr').around rfl rfl (by simp [heightAll_branched, heightAll_append])⟩

end Command

namespace Compile

variable {n : Nat} {text : String} {s t : Session} {steps : List Step} {defs : List Definition}

/-- **How far a line raises heights.** The steps of a line are as high as the allowance lets them
be, and higher only by what the commands of a kind account for. -/
theorem Run.rise (hw : Weighs kind base) (hn : n ≤ maxNesting)
    (h : Run rules n text s steps defs t) :
    ∃ more, Rise (carriedOut rules kind) base n s steps t 0 more := by
  refine Run.induction (motive := fun n _ s steps _ t => n ≤ maxNesting →
    ∃ more, Rise (carriedOut rules kind) base n s steps t 0 more) ?tooDeep ?unrecognized ?command
    h hn
  case tooDeep =>
    intro text s _
    refine ⟨0, .still (by simp [Event.command?]) rfl fun limit hl _ => ?_⟩
    simp only [heightAll, raised]
    omega
  case unrecognized =>
    intro n text s _ _
    refine ⟨0, .still (by simp [Event.command?]) rfl fun limit hl _ => ?_⟩
    simp only [heightAll, raised]
    omega
  case command =>
    intro n text verb c s steps defs t ih hread hr hn
    obtain ⟨more, hr⟩ := hr.rise hw hn fun _ _ _ _ _ h => ih _ _ _ _ _ h (by omega)
    refine ⟨(kind c).toNat + more, ?_, ?_, ?_⟩
    · have hc := hr.count_eq
      simp only [Session.entered_journal, Session.told_journal, carriedOut_concat,
        Event.command?, hread, Option.map_some, Option.any_some] at hc
      rw [Session.exited_journal, hc, Nat.add_assoc]
    · simpa using hr.within
    · simpa using hr.height

end Compile

end FlowScript
