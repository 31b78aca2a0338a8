import FlowScript.Proofs.Step.Walk

/-!
# Loops that count

A counted loop compares a variable of its own with a number of turns. The step before it sets the
variable to zero, and the last step of its body increases it by one. Loops inside the body count
with other variables. All of this is stated along the steps inside each other, where the action
before a step is passed on, and it does not look at the names of steps, so that copies count as
their templates do.

## Main definitions

* `Step.counters`: the variables that loops count with.
* `Step.CountsTo`: what makes a loop count up to a number.
* `Step.CountsAll`: all loops in some steps count.
* `Step.blocks`: the lists of steps that occur anywhere.

## Main statements

* `Step.CountsAll.renumberAll`: copies count as their templates do.
* `Step.CountsAll.countsTo`: every loop, in whatever list of steps it stands, counts.
-/
namespace FlowScript.Step

/-- The variable that a loop compares. -/
def ownCounter : Step → List String
  | loop _ (.compare (.var counter) _ _) _ => [counter]
  | _ => []

/-- The variables that the loops in some steps compare. -/
def counters (ss : List Step) : List String :=
  gather ownCounter ss

@[simp] theorem counters_nil : counters [] = [] := rfl

@[simp] theorem counters_append (ss ts : List Step) :
    counters (ss ++ ts) = counters ss ++ counters ts :=
  gather_append ownCounter ss ts

theorem counters_cons (s : Step) (ss : List Step) :
    counters (s :: ss) = counters [s] ++ counters ss :=
  gather_cons ownCounter s ss

@[simp] theorem counters_act (i : Info) (a : Action) : counters [act i a] = [] :=
  gather_act ownCounter i a

@[simp] theorem counters_branch (i : Info) (c : Condition) (yes no : List Step) :
    counters [branch i c yes no] = counters yes ++ counters no :=
  gather_branch ownCounter i c yes no

@[simp] theorem counters_loop (i : Info) (counter : String) (r : Relation) (e : Expr)
    (body : List Step) :
    counters [loop i (.compare (.var counter) r e) body] = counter :: counters body :=
  gather_loop ownCounter i _ body

theorem ownCounter_renumber (n : Int) (s : Step) : ownCounter (renumber n s).1 = ownCounter s := by
  cases s with
  | act i a => rfl
  | branch i c yes no => rfl
  | loop i c body =>
    cases c with
    | compare left relation right => cases left <;> rfl
    | join connective left right => rfl
    | contains input piece => rfl

/-- A copy counts with the variables of its template. -/
@[simp] theorem counters_renumberAll (n : Int) (ss : List Step) :
    counters (renumberAll n ss).1 = counters ss :=
  gather_renumberAll ownCounter ownCounter_renumber n ss

/-! ## Neighbouring actions -/

/-- The action of a step that is a single one. -/
def action? : Step → Option Action
  | act _ a => some a
  | _ => none

/-- The action of the last one of some steps, if that is a single one. -/
def lastAction? (ss : List Step) : Option Action :=
  ss.getLast?.bind action?

@[simp] theorem lastAction?_concat (ss : List Step) (s : Step) :
    lastAction? (ss ++ [s]) = s.action? := by
  simp [lastAction?]

theorem action?_renumber (n : Int) (s : Step) : (renumber n s).1.action? = s.action? := by
  cases s <;> rfl

theorem map_action?_renumberAll (n : Int) (ss : List Step) :
    (renumberAll n ss).1.map action? = ss.map action? := by
  induction ss generalizing n with
  | nil => rfl
  | cons s ss ih => simp [renumberAll, action?_renumber, ih]

@[simp] theorem lastAction?_renumberAll (n : Int) (ss : List Step) :
    lastAction? (renumberAll n ss).1 = lastAction? ss := by
  have hm : ∀ ts : List Step, lastAction? ts = (ts.map action?).getLast?.join := by
    intro ts
    rw [lastAction?, List.getLast?_map]
    cases ts.getLast? <;> rfl
  rw [hm, hm, map_action?_renumberAll]

/-! ## Counting -/

/-- What makes a loop count up to a number with a variable: after an action, under a condition,
around a body. -/
structure CountsTo (before : Option Action) (condition : Condition) (body : List Step)
    (counter : String) (n : Int) : Prop where
  bound : 0 ≤ n
  condition : condition = .compare (.var counter) .less (.ofInt n)
  first : before = some (.set counter (.expr (.ofInt 0)))
  last : lastAction? body =
    some (.set counter (.expr (.binary .add (.var counter) (.ofInt 1))))
  own : counter ∉ counters body

mutual

/-- All loops in a step count, the step being one that follows an action. -/
def CountsOne (before : Option Action) : Step → Prop
  | act _ _ => True
  | branch _ _ yes no => CountsAll none yes ∧ CountsAll none no
  | loop _ c body => (∃ counter n, CountsTo before c body counter n) ∧ CountsAll none body
termination_by structural s => s

/-- All loops in some steps count, the first step being one that follows an action. -/
def CountsAll (before : Option Action) : List Step → Prop
  | [] => True
  | s :: ss => CountsOne before s ∧ CountsAll s.action? ss
termination_by structural ss => ss

end

variable {before : Option Action} {ss : List Step}

/-- A single action may follow. -/
theorem CountsAll.concat_act (h : CountsAll before ss) (i : Info) (a : Action) :
    CountsAll before (ss ++ [act i a]) := by
  induction ss generalizing before with
  | nil => exact ⟨trivial, trivial⟩
  | cons s ss ih => exact ⟨h.1, ih h.2⟩

mutual

theorem CountsOne.renumber (n : Int) :
    (before : Option Action) → (s : Step) → CountsOne before s → CountsOne before (renumber n s).1
  | before, act i a, h => h
  | before, branch i c yes no, h =>
    ⟨CountsAll.renumberAll (n + 1) none yes h.1,
      CountsAll.renumberAll (renumberAll (n + 1) yes).2 none no h.2⟩
  | before, loop i c body, h => by
    obtain ⟨⟨counter, bound, hc⟩, hb⟩ := h
    refine ⟨⟨counter, bound, hc.bound, hc.condition, hc.first, ?_, ?_⟩,
      CountsAll.renumberAll (n + 1) none body hb⟩
    · rw [lastAction?_renumberAll]
      exact hc.last
    · rw [counters_renumberAll]
      exact hc.own
termination_by structural _ s => s

/-- Copies count as their templates do. -/
theorem CountsAll.renumberAll (n : Int) : (before : Option Action) → (ss : List Step) →
    CountsAll before ss → CountsAll before (renumberAll n ss).1
  | before, [], h => h
  | before, s :: ss, h => by
    refine ⟨CountsOne.renumber n before s h.1, ?_⟩
    rw [action?_renumber]
    exact CountsAll.renumberAll (Step.renumber n s).2 s.action? ss h.2
termination_by structural _ ss => ss

end

/-! ## Lists of steps -/

/-- The lists of steps that a step holds. -/
def inside : Step → List (List Step)
  | act _ _ => []
  | branch _ _ yes no => [yes, no]
  | loop _ _ body => [body]

/-- Some steps, and the lists of steps that occur anywhere inside them. -/
def blocks (ss : List Step) : List (List Step) :=
  ss :: gather inside ss

mutual

theorem CountsOne.gather_inside : (before : Option Action) → (s : Step) → CountsOne before s →
    ∀ block ∈ gather inside [s], CountsAll none block
  | before, act i a, _, block, hm => by
    rw [gather_act] at hm
    exact absurd hm List.not_mem_nil
  | before, branch i c yes no, h, block, hm => by
    simp only [gather_branch, inside, List.mem_append, List.mem_cons, List.not_mem_nil,
      or_false] at hm
    rcases hm with (rfl | rfl) | hm | hm
    · exact h.1
    · exact h.2
    · exact CountsAll.gather_inside none yes h.1 block hm
    · exact CountsAll.gather_inside none no h.2 block hm
  | before, loop i c body, h, block, hm => by
    simp only [gather_loop, inside, List.mem_append, List.mem_singleton] at hm
    rcases hm with rfl | hm
    · exact h.2
    · exact CountsAll.gather_inside none body h.2 block hm
termination_by structural _ s => s

theorem CountsAll.gather_inside : (before : Option Action) → (ss : List Step) →
    CountsAll before ss → ∀ block ∈ gather inside ss, CountsAll none block
  | before, [], _, block, hm => absurd hm List.not_mem_nil
  | before, s :: ss, h, block, hm => by
    rw [gather_cons, List.mem_append] at hm
    rcases hm with hm | hm
    · exact CountsOne.gather_inside before s h.1 block hm
    · exact CountsAll.gather_inside s.action? ss h.2 block hm
termination_by structural _ ss => ss

end

theorem CountsAll.countsTo_of_append {front back body : List Step} {i : Info} {c : Condition}
    (h : CountsAll before (front ++ loop i c body :: back)) :
    ∃ counter n, CountsTo (front.getLast?.elim before action?) c body counter n := by
  induction front generalizing before with
  | nil => exact h.1.1
  | cons s front ih =>
    obtain ⟨counter, n, hc⟩ := ih h.2
    refine ⟨counter, n, ?_⟩
    cases front with
    | nil => exact hc
    | cons t front => exact hc

/-- **Every loop counts**, in whatever list of steps it stands. -/
theorem CountsAll.countsTo (h : CountsAll none ss) {block front back body : List Step} {i : Info}
    {c : Condition} (hm : block ∈ blocks ss) (hb : block = front ++ loop i c body :: back) :
    ∃ counter n, CountsTo (lastAction? front) c body counter n := by
  have hblock : CountsAll none block := by
    rcases List.mem_cons.1 hm with rfl | hm
    · exact h
    · exact CountsAll.gather_inside none ss h block hm
  have he : front.getLast?.elim none action? = lastAction? front := by
    cases hl : front.getLast? <;> simp [lastAction?, hl]
  rw [hb] at hblock
  exact he ▸ hblock.countsTo_of_append

end FlowScript.Step
