import FlowScript.Step.Walk

/-!
# What a walk meets

A walk meets the same steps at whatever depth it starts. The names of the steps that it meets are
listed in order, and the height of some steps bounds the depths of the steps inside them. A counted
loop ends with a step of its own that increases its counter, so that heights leave such steps out.

## Main definitions

* `Step.gather`: what each step on a walk contributes, in order.
* `Step.ids`: the names of some steps and of the steps inside them.
* `Step.heightAll`: how many steps lie inside each other at most, apart from those that increase
  the counter of a loop.
* `Step.idsBetween`: the names of the steps with the numbers from one to before another.

## Main statements

* `Step.ids_renumberAll`: a copy is named by consecutive numbers, in the order of a walk.
* `Step.above_heightAll`, `Step.exists_heightAll`: the height bounds every depth, and is reached.
-/
namespace FlowScript

/-- Whether a name is that of the counter of a loop. -/
def isLoopCounter (name : String) : Bool :=
  "_loop_counter_".toList.isPrefixOf name.toList

@[simp] theorem isLoopCounter_loopCounter (id : String) : isLoopCounter (loopCounter id) := by
  simp [isLoopCounter, loopCounter]

/-- Whether an action increases the counter of a loop by one, as the last step of the loop does. -/
def Action.advances : Action → Bool
  | .set target (.expr e) =>
    isLoopCounter target && e = .binary .add (.var target) (.ofInt 1)
  | _ => false

namespace Step

/-! ## Walks -/

theorem walkAll_eq_flatMap (d : Nat) (ss : List Step) : walkAll d ss = ss.flatMap (walk d) := by
  induction ss with
  | nil => rfl
  | cons s ss ih => rw [walkAll, ih, List.flatMap_cons]

theorem walkAll_append (d : Nat) (ss ts : List Step) :
    walkAll d (ss ++ ts) = walkAll d ss ++ walkAll d ts := by
  induction ss with
  | nil => rfl
  | cons s ss ih => simp [walkAll, ih]

mutual

theorem map_fst_walk (d e : Nat) : (s : Step) → (walk d s).map (·.1) = (walk e s).map (·.1)
  | act i a => rfl
  | branch i c yes no => by
    simp [walk, map_fst_walkAll (d + 1) (e + 1) yes, map_fst_walkAll (d + 1) (e + 1) no]
  | loop i c body => by simp [walk, map_fst_walkAll (d + 1) (e + 1) body]
termination_by structural s => s

/-- A walk meets the same steps from every depth. -/
theorem map_fst_walkAll (d e : Nat) :
    (ss : List Step) → (walkAll d ss).map (·.1) = (walkAll e ss).map (·.1)
  | [] => rfl
  | s :: ss => by simp [walkAll, map_fst_walk d e s, map_fst_walkAll d e ss]
termination_by structural ss => ss

end

/-! ## What is gathered on a walk -/

section

variable {β : Type} (f : Step → List β)

/-- What some steps and the steps inside them contribute, in the order of a walk. -/
def gather (ss : List Step) : List β :=
  (walkAll 0 ss).flatMap fun visit => f visit.1

theorem flatMap_walkAll (d : Nat) (ss : List Step) :
    ((walkAll d ss).flatMap fun visit => f visit.1) = gather f ss := by
  have hm : ∀ e, ((walkAll e ss).flatMap fun visit => f visit.1) =
      ((walkAll e ss).map (·.1)).flatMap f := by
    intro e
    rw [List.flatMap_map]
  rw [gather, hm, hm, map_fst_walkAll d 0]

theorem gather_append (ss ts : List Step) : gather f (ss ++ ts) = gather f ss ++ gather f ts := by
  rw [gather, walkAll_append, List.flatMap_append]
  rfl

theorem gather_cons (s : Step) (ss : List Step) : gather f (s :: ss) = gather f [s] ++ gather f ss :=
  gather_append f [s] ss

theorem gather_act (i : Info) (a : Action) : gather f [act i a] = f (act i a) := by
  simp [gather, walkAll, walk]

theorem gather_branch (i : Info) (c : Condition) (yes no : List Step) :
    gather f [branch i c yes no] = f (branch i c yes no) ++ (gather f yes ++ gather f no) := by
  have hw : walkAll 0 [branch i c yes no] =
      (branch i c yes no, 0) :: (walkAll 1 yes ++ walkAll 1 no) := by
    simp [walkAll, walk]
  rw [gather, hw, List.flatMap_cons, List.flatMap_append, flatMap_walkAll, flatMap_walkAll]

theorem gather_loop (i : Info) (c : Condition) (body : List Step) :
    gather f [loop i c body] = f (loop i c body) ++ gather f body := by
  have hw : walkAll 0 [loop i c body] = (loop i c body, 0) :: walkAll 1 body := by
    simp [walkAll, walk]
  rw [gather, hw, List.flatMap_cons, flatMap_walkAll]

mutual

theorem gather_renumber (hf : ∀ n s, f (renumber n s).1 = f s) (n : Int) :
    (s : Step) → gather f [(renumber n s).1] = gather f [s]
  | act i a => by
    have hs := hf n (act i a)
    simp only [renumber] at hs
    simp only [renumber, gather_act, hs]
  | branch i c yes no => by
    have hs := hf n (branch i c yes no)
    simp only [renumber] at hs
    simp only [renumber, gather_branch, hs, gather_renumberAll hf (n + 1) yes,
      gather_renumberAll hf (renumberAll (n + 1) yes).2 no]
  | loop i c body => by
    have hs := hf n (loop i c body)
    simp only [renumber] at hs
    simp only [renumber, gather_loop, hs, gather_renumberAll hf (n + 1) body]
termination_by structural s => s

/-- What does not look at the names of steps is contributed by copies as well. -/
theorem gather_renumberAll (hf : ∀ n s, f (renumber n s).1 = f s) (n : Int) :
    (ss : List Step) → gather f (renumberAll n ss).1 = gather f ss
  | [] => rfl
  | s :: ss => by
    simp only [renumberAll]
    rw [gather_cons, gather_cons f s, gather_renumber hf n s,
      gather_renumberAll hf (renumber n s).2 ss]
termination_by structural ss => ss

end

end

/-! ## Names -/

/-- The names of some steps and of the steps inside them, in the order of a walk. -/
def ids (ss : List Step) : List String :=
  ((walkAll 0 ss).map (·.1)).map id

theorem ids_eq_gather (ss : List Step) : ids ss = gather (fun s => [s.id]) ss := by
  rw [ids, gather, List.map_map, List.map_eq_flatMap]
  rfl

@[simp] theorem ids_nil : ids [] = [] := rfl

@[simp] theorem ids_append (ss ts : List Step) : ids (ss ++ ts) = ids ss ++ ids ts := by
  simp only [ids_eq_gather, gather_append]

theorem ids_cons (s : Step) (ss : List Step) : ids (s :: ss) = ids [s] ++ ids ss :=
  ids_append [s] ss

theorem ids_flatten (answers : List (List Step)) : ids answers.flatten = answers.flatMap ids := by
  induction answers with
  | nil => rfl
  | cons ss answers ih => rw [List.flatten_cons, ids_append, ih, List.flatMap_cons]

theorem ids_subset {ss ts : List Step} (h : ss ⊆ ts) : ids ss ⊆ ids ts := by
  intro id hm
  simp only [ids, List.mem_map, walkAll_eq_flatMap, List.mem_flatMap] at hm ⊢
  obtain ⟨s, ⟨visit, ⟨first, hf, hv⟩, rfl⟩, rfl⟩ := hm
  exact ⟨_, ⟨visit, ⟨first, h hf, hv⟩, rfl⟩, rfl⟩

@[simp] theorem ids_act (i : Info) (a : Action) : ids [act i a] = [i.id] := rfl

@[simp] theorem ids_branch (i : Info) (c : Condition) (yes no : List Step) :
    ids [branch i c yes no] = i.id :: (ids yes ++ ids no) := by
  simp only [ids_eq_gather, gather_branch]
  rfl

@[simp] theorem ids_loop (i : Info) (c : Condition) (body : List Step) :
    ids [loop i c body] = i.id :: ids body := by
  simp only [ids_eq_gather, gather_loop]
  rfl

/-! ## Consecutive names -/

/-- The names of the steps with the numbers from one to before another. -/
def idsBetween (a b : Int) : List String :=
  (List.range (b - a).toNat).map fun (i : Nat) => stepId (a + i)

@[simp] theorem idsBetween_self (a : Int) : idsBetween a a = [] := by
  simp [idsBetween]

theorem idsBetween_append {a b c : Int} (hab : a ≤ b) (hbc : b ≤ c) :
    idsBetween a b ++ idsBetween b c = idsBetween a c := by
  have hn : (c - a).toNat = (b - a).toNat + (c - b).toNat := by omega
  simp only [idsBetween, hn, List.range_add, List.map_append, List.map_map]
  congr 1
  apply List.map_congr_left
  intro i _
  have hi : b + (i : Int) = a + ((b - a).toNat + i : Nat) := by omega
  simp [hi]

theorem idsBetween_succ (a : Int) : idsBetween a (a + 1) = [stepId a] := by
  have hn : (a + 1 - a).toNat = 1 := by omega
  rw [idsBetween, hn]
  simp

theorem idsBetween_cons {a b : Int} (h : a < b) :
    idsBetween a b = stepId a :: idsBetween (a + 1) b := by
  rw [← idsBetween_append (Int.le_add_one (Int.le_refl a)) (Int.add_one_le_of_lt h),
    idsBetween_succ]
  rfl

theorem idsBetween_concat {a b : Int} (h : a ≤ b) :
    idsBetween a (b + 1) = idsBetween a b ++ [stepId b] := by
  rw [← idsBetween_append h (Int.le_add_one (Int.le_refl b)), idsBetween_succ]

theorem mem_idsBetween {a b : Int} {name : String} :
    name ∈ idsBetween a b ↔ ∃ n, a ≤ n ∧ n < b ∧ name = stepId n := by
  simp only [idsBetween, List.mem_map, List.mem_range]
  constructor
  · rintro ⟨i, hi, rfl⟩
    exact ⟨a + i, by omega, by omega, rfl⟩
  · rintro ⟨n, ha, hb, rfl⟩
    refine ⟨(n - a).toNat, by omega, ?_⟩
    rw [show a + ((n - a).toNat : Int) = n by omega]

/-! ## Copies -/

mutual

theorem le_renumber (n : Int) : (s : Step) → n < (renumber n s).2
  | act i a => by
    simp only [renumber]
    omega
  | branch i c yes no => by
    have hy := le_renumberAll (n + 1) yes
    have hn := le_renumberAll (renumberAll (n + 1) yes).2 no
    simp only [renumber]
    omega
  | loop i c body => by
    have hb := le_renumberAll (n + 1) body
    simp only [renumber]
    omega
termination_by structural s => s

/-- Copying some steps does not give numbers back. -/
theorem le_renumberAll (n : Int) : (ss : List Step) → n ≤ (renumberAll n ss).2
  | [] => Int.le_refl n
  | s :: ss => by
    have hs := le_renumber n s
    have hss := le_renumberAll (renumber n s).2 ss
    simp only [renumberAll]
    omega
termination_by structural ss => ss

end

mutual

theorem ids_renumber (n : Int) : (s : Step) →
    ids [(renumber n s).1] = idsBetween n (renumber n s).2
  | act i a => (idsBetween_succ n).symm
  | branch i c yes no => by
    have hy := le_renumberAll (n + 1) yes
    have hn := le_renumberAll (renumberAll (n + 1) yes).2 no
    simp only [renumber, ids_branch, ids_renumberAll (n + 1) yes,
      ids_renumberAll (renumberAll (n + 1) yes).2 no]
    rw [idsBetween_append hy hn, ← idsBetween_cons (by omega)]
  | loop i c body => by
    have hb := le_renumberAll (n + 1) body
    simp only [renumber, ids_loop, ids_renumberAll (n + 1) body]
    rw [← idsBetween_cons (by omega)]
termination_by structural s => s

/-- A copy is named by consecutive numbers, in the order of a walk. -/
theorem ids_renumberAll (n : Int) : (ss : List Step) →
    ids (renumberAll n ss).1 = idsBetween n (renumberAll n ss).2
  | [] => (idsBetween_self n).symm
  | s :: ss => by
    have hs := le_renumber n s
    have hss := le_renumberAll (renumber n s).2 ss
    simp only [renumberAll]
    rw [ids_cons, ids_renumber n s, ids_renumberAll (renumber n s).2 ss,
      idsBetween_append (Int.le_of_lt hs) hss]
termination_by structural ss => ss

end

/-! ## Heights -/

/-- Whether a step increases the counter of a loop. -/
def advances : Step → Bool
  | act _ a => a.advances
  | _ => false

mutual

/-- How many steps lie inside each other at most in a step, the step included. Steps that increase
the counter of a loop do not count. -/
def height : Step → Nat
  | act _ a => if a.advances then 0 else 1
  | branch _ _ yes no => max (heightAll yes) (heightAll no) + 1
  | loop _ _ body => heightAll body + 1
termination_by structural s => s

/-- How many steps of a list lie inside each other at most. -/
def heightAll : List Step → Nat
  | [] => 0
  | s :: ss => max (height s) (heightAll ss)
termination_by structural ss => ss

end

@[simp] theorem heightAll_append (ss ts : List Step) :
    heightAll (ss ++ ts) = max (heightAll ss) (heightAll ts) := by
  induction ss with
  | nil => simp [heightAll]
  | cons s ss ih => simp [heightAll, ih, Nat.max_assoc]

mutual

theorem height_renumber (n : Int) : (s : Step) → height (renumber n s).1 = height s
  | act i a => rfl
  | branch i c yes no => by
    simp only [renumber, height, heightAll_renumberAll (n + 1) yes,
      heightAll_renumberAll (renumberAll (n + 1) yes).2 no]
  | loop i c body => by simp only [renumber, height, heightAll_renumberAll (n + 1) body]
termination_by structural s => s

/-- A copy is as high as its template. -/
@[simp] theorem heightAll_renumberAll (n : Int) :
    (ss : List Step) → heightAll (renumberAll n ss).1 = heightAll ss
  | [] => rfl
  | s :: ss => by
    simp only [renumberAll, heightAll, height_renumber n s,
      heightAll_renumberAll (renumber n s).2 ss]
termination_by structural ss => ss

end

/-- A visit lies above a depth, or at it if its step increases the counter of a loop. -/
def Above (limit : Nat) (visit : Step × Nat) : Prop :=
  visit.2 < limit ∨ visit.1.advances ∧ visit.2 = limit

theorem Above.mono {m n : Nat} {visit : Step × Nat} (h : Above m visit) (hmn : m ≤ n) :
    Above n visit := by
  obtain h | ⟨ha, h⟩ := h
  · exact .inl (by omega)
  · obtain hmn | rfl := Nat.lt_or_eq_of_le hmn
    · exact .inl (by omega)
    · exact .inr ⟨ha, h⟩

mutual

theorem above_height (d : Nat) : (s : Step) → ∀ visit ∈ walk d s, Above (d + height s) visit
  | act i a, visit, h => by
    simp only [walk, List.mem_singleton] at h
    subst h
    by_cases ha : a.advances
    · exact .inr ⟨ha, by simp [height, ha]⟩
    · exact .inl (by simp [height, ha])
  | branch i c yes no, visit, h => by
    simp only [walk, List.mem_cons, List.mem_append] at h
    simp only [height]
    rcases h with rfl | h | h
    · exact .inl (by simp)
    · exact (above_heightAll (d + 1) yes visit h).mono (by omega)
    · exact (above_heightAll (d + 1) no visit h).mono (by omega)
  | loop i c body, visit, h => by
    simp only [walk, List.mem_cons] at h
    simp only [height]
    rcases h with rfl | h
    · exact .inl (by simp)
    · exact (above_heightAll (d + 1) body visit h).mono (by omega)
termination_by structural s => s

/-- A step inside some steps lies less deep than they are high, or as deep if it increases the
counter of a loop. -/
theorem above_heightAll (d : Nat) :
    (ss : List Step) → ∀ visit ∈ walkAll d ss, Above (d + heightAll ss) visit
  | [], visit, h => by simp [walkAll] at h
  | s :: ss, visit, h => by
    simp only [walkAll, List.mem_append] at h
    simp only [heightAll]
    rcases h with h | h
    · exact (above_height d s visit h).mono (by omega)
    · exact (above_heightAll d ss visit h).mono (by omega)
termination_by structural ss => ss

end

mutual

theorem exists_height (d : Nat) : (s : Step) → 0 < height s →
    ∃ visit ∈ walk d s, visit.2 + 1 = d + height s
  | act i a, h => by
    simp only [height] at h ⊢
    split at h
    · exact absurd h (Nat.lt_irrefl 0)
    · rename_i ha
      exact ⟨(act i a, d), by simp [walk], by simp [ha]⟩
  | branch i c yes no, _ => by
    simp only [height, walk]
    rcases Nat.eq_zero_or_pos (max (heightAll yes) (heightAll no)) with hz | hp
    · exact ⟨(branch i c yes no, d), by simp, by omega⟩
    · rcases Nat.le_total (heightAll no) (heightAll yes) with hle | hle
      · obtain ⟨visit, hv, hd⟩ := exists_heightAll (d + 1) yes (by omega)
        exact ⟨visit, by simp [hv], by omega⟩
      · obtain ⟨visit, hv, hd⟩ := exists_heightAll (d + 1) no (by omega)
        exact ⟨visit, by simp [hv], by omega⟩
  | loop i c body, _ => by
    simp only [height, walk]
    rcases Nat.eq_zero_or_pos (heightAll body) with hz | hp
    · exact ⟨(loop i c body, d), by simp, by omega⟩
    · obtain ⟨visit, hv, hd⟩ := exists_heightAll (d + 1) body hp
      exact ⟨visit, by simp [hv], by omega⟩
termination_by structural s => s

/-- A walk meets a step as deep as the height allows. -/
theorem exists_heightAll (d : Nat) : (ss : List Step) → 0 < heightAll ss →
    ∃ visit ∈ walkAll d ss, visit.2 + 1 = d + heightAll ss
  | [], h => absurd h (Nat.lt_irrefl 0)
  | s :: ss, h => by
    simp only [heightAll] at h ⊢
    simp only [walkAll, List.mem_append]
    rcases Nat.le_total (heightAll ss) (height s) with hle | hle
    · obtain ⟨visit, hv, hd⟩ := exists_height d s (by omega)
      exact ⟨visit, .inl hv, by omega⟩
    · obtain ⟨visit, hv, hd⟩ := exists_heightAll d ss (by omega)
      exact ⟨visit, .inr hv, by omega⟩
termination_by structural ss => ss

end

end Step
end FlowScript
