import FlowScript.Proofs.Registry
import FlowScript.Schema.Reader
import FlowScript.Schema.Store
import Mathlib.Data.List.TakeDrop
import Mathlib.Logic.Relation

/-!
# What is loaded over time

Files are written and deleted, directories are made, and schemas are loaded, one after another. The
answer to a load depends on the past of its path alone: if an earlier load of the path has given a
schema, the first of them counts, whatever has happened to the file since; otherwise the file is
read as it is. Different spellings of a name have one path. All this holds for any way in which
files are read, whatever it gives and however it fails.

## Main definitions

* `Store.Shorter`, `Store.IsSpelling`: names without parts that lead nowhere or back, and the names
  that differ in such parts only.
* `Store.Act`, `Store.history`: what happens to a directory, and the answers to its loads.
* `Store.contentAfter`: what a path stands for after some acts.
* `Store.due`: the answer to a load, from the past alone.

## Main statements

* `Store.canonicalName_eq_iff`: names have one path if they differ in such parts only.
* `Store.loaded_after`, `Store.files_after`: what a store has loaded, and what its files are.
* `Store.loads_of_history`: the answers to loads.
-/
namespace FlowScript

namespace Store

/-! ## Paths -/

/-- A part of a name that leads to something inside. -/
def IsProper (part : List Char) : Prop :=
  part ≠ [] ∧ part ≠ ['.'] ∧ part ≠ ['.', '.']

/-- Names, as the parts between slashes, the second of which is shorter: without an empty part, a
part that stays where it is, a part that leads up from the root, or a part together with one that
leads back from it. -/
inductive Shorter : List (List Char) → List (List Char) → Prop
  | empty (front rest : List (List Char)) : Shorter (front ++ [] :: rest) (front ++ rest)
  | stay (front rest : List (List Char)) : Shorter (front ++ ['.'] :: rest) (front ++ rest)
  | root (rest : List (List Char)) : Shorter (['.', '.'] :: rest) rest
  | back {part : List Char} (hp : IsProper part) (front rest : List (List Char)) :
      Shorter (front ++ part :: ['.', '.'] :: rest) (front ++ rest)

/-- Two names are spellings of each other: one comes from the other by leaving out and adding parts
that do not count. -/
def IsSpelling (name name' : String) : Prop :=
  Relation.EqvGen Shorter (name.toList.splitOn '/') (name'.toList.splitOn '/')

/-- Parts at the start of two names do not matter if what follows them is read alike. -/
theorem canonicalParts_append {parts parts' : List (List Char)}
    (h : ∀ read, canonicalParts read parts = canonicalParts read parts')
    (front read : List (List Char)) :
    canonicalParts read (front ++ parts) = canonicalParts read (front ++ parts') := by
  induction front generalizing read with
  | nil => exact h read
  | cons part front ih =>
    simp only [List.cons_append, canonicalParts]
    split
    · exact ih read
    · split
      · exact ih read.tail
      · exact ih (part :: read)

theorem canonicalParts_of_shorter {parts parts' : List (List Char)} (h : Shorter parts parts') :
    canonicalParts [] parts = canonicalParts [] parts' := by
  cases h with
  | empty front rest =>
    apply canonicalParts_append
    intro read
    simp [canonicalParts]
  | stay front rest =>
    apply canonicalParts_append
    intro read
    simp [canonicalParts]
  | root rest => simp [canonicalParts]
  | back hp front rest =>
    apply canonicalParts_append
    intro read
    simp [canonicalParts, hp.1, hp.2.1, hp.2.2]

/-- The canonical parts of a name are found by making it shorter. -/
theorem shorter_canonicalParts {read : List (List Char)} (hr : ∀ part ∈ read, IsProper part)
    (parts : List (List Char)) :
    Relation.ReflTransGen Shorter (read.reverse ++ parts) (canonicalParts read parts) := by
  induction parts generalizing read with
  | nil => simpa [canonicalParts] using .refl
  | cons part parts ih =>
    simp only [canonicalParts]
    split
    · rename_i h
      rcases h with h | rfl
      · rw [List.isEmpty_iff.1 h]
        exact .head (.empty _ _) (ih hr)
      · exact .head (.stay _ _) (ih hr)
    · rename_i h
      simp only [List.isEmpty_iff, not_or] at h
      split
      · rename_i hb
        subst hb
        cases read with
        | nil => exact .head (.root _) (ih hr)
        | cons last read =>
          have hl := hr last List.mem_cons_self
          have hs : Shorter ((last :: read).reverse ++ ['.', '.'] :: parts)
              (read.reverse ++ parts) := by
            simpa using Shorter.back hl read.reverse parts
          exact .head hs (ih fun part hp => hr part (List.mem_cons_of_mem _ hp))
      · rename_i hb
        have hread : ∀ p ∈ part :: read, IsProper p :=
          List.forall_mem_cons.2 ⟨⟨h.1, h.2, hb⟩, hr⟩
        simpa using ih hread

theorem of_mem_canonicalParts {P : List Char → Prop} {read parts : List (List Char)}
    (hr : ∀ part ∈ read, P part) (hp : ∀ part ∈ parts, IsProper part → P part) :
    ∀ part ∈ canonicalParts read parts, P part := by
  induction parts generalizing read with
  | nil => simpa [canonicalParts] using hr
  | cons part parts ih =>
    have hrest : ∀ p ∈ parts, IsProper p → P p := fun p h => hp p (List.mem_cons_of_mem _ h)
    simp only [canonicalParts]
    split
    · exact ih hr hrest
    · rename_i h
      simp only [List.isEmpty_iff, not_or] at h
      split
      · exact ih (fun p h => hr p (List.mem_of_mem_tail h)) hrest
      · rename_i hb
        exact ih (List.forall_mem_cons.2 ⟨hp part List.mem_cons_self ⟨h.1, h.2, hb⟩, hr⟩) hrest

theorem slash_not_mem {cs part : List Char} (h : part ∈ cs.splitOn '/') : '/' ∉ part := by
  induction cs generalizing part with
  | nil => simp_all
  | cons c cs ih =>
    rw [List.splitOn_cons_eq_if_modifyHead] at h
    split at h
    · rcases List.mem_cons.1 h with rfl | h
      · simp
      · exact ih h
    · rename_i hc
      cases hs : cs.splitOn '/' with
      | nil => simp [hs] at h
      | cons first others =>
        rw [hs, List.modifyHead_cons, List.mem_cons] at h
        rcases h with rfl | h
        · have hf : '/' ∉ first := ih (by simp [hs])
          have hne : '/' ≠ c := fun he => hc (by simp [← he])
          simp [hf, hne]
        · exact ih (by simp [hs, h])

/-- The parts of a canonical name are read off it again. -/
theorem splitOn_canonicalName (name : String) :
    (canonicalName name).toList.splitOn '/' =
      match canonicalParts [] (name.toList.splitOn '/') with
      | [] => [[]]
      | parts => parts := by
  have hs : ∀ part ∈ canonicalParts [] (name.toList.splitOn '/'), '/' ∉ part :=
    of_mem_canonicalParts (by simp) fun part h _ => slash_not_mem h
  rw [canonicalName, String.toList_ofList]
  split
  · rename_i h
    simp [h]
  · rename_i h
    exact List.splitOn_intercalate '/' hs h

/-- **Two names have one path** if and only if they are spellings of each other. -/
theorem canonicalName_eq_iff {name name' : String} :
    canonicalName name = canonicalName name' ↔ IsSpelling name name' := by
  have hproper (name : String) : ∀ part ∈ canonicalParts [] (name.toList.splitOn '/'), part ≠ [] :=
    of_mem_canonicalParts (by simp) fun part _ h => h.1
  constructor
  · intro h
    have hparts : canonicalParts [] (name.toList.splitOn '/') =
        canonicalParts [] (name'.toList.splitOn '/') := by
      have hs := congrArg (fun name => name.toList.splitOn '/') h
      simp only [splitOn_canonicalName] at hs
      have h₁ := hproper name
      have h₂ := hproper name'
      cases hn : canonicalParts [] (name.toList.splitOn '/') <;>
        cases hn' : canonicalParts [] (name'.toList.splitOn '/') <;> simp_all
    have hsame (name : String) : Relation.EqvGen Shorter (name.toList.splitOn '/')
        (canonicalParts [] (name.toList.splitOn '/')) :=
      Relation.EqvGen.reflTransGen_le_eqvGen _ _ _
        (@shorter_canonicalParts [] (by simp) (name.toList.splitOn '/'))
    have h₁ := hsame name
    rw [hparts] at h₁
    exact h₁.trans _ _ _ ((hsame name').symm _ _)
  · intro h
    have hparts : canonicalParts [] (name.toList.splitOn '/') =
        canonicalParts [] (name'.toList.splitOn '/') := by
      rw [IsSpelling] at h
      generalize name.toList.splitOn '/' = parts, name'.toList.splitOn '/' = parts' at h
      induction h with
      | rel _ _ h => exact canonicalParts_of_shorter h
      | refl _ => rfl
      | symm _ _ _ ih => exact ih.symm
      | trans _ _ _ _ _ ih ih' => exact ih.trans ih'
    rw [canonicalName, canonicalName, hparts]

/-! ## Acts -/

/-- What happens to a directory, and what is loaded from it. A directory is made by writing the
content that stands for it. -/
inductive Act where
  | write (name : String) (content : Content)
  | delete (name : String)
  | load (name : String)
  deriving DecidableEq, Repr

/-- What an act is answered; only loads have answers. -/
abbrev Answer (ε σ : Type) := Option (Except ε σ)

section

variable {σ ε : Type} (read : String → Option Content → Except ε σ)

namespace Act

/-- The answer to an act. -/
def answer (s : Store σ) : Act → Answer ε σ
  | write _ _ => none
  | delete _ => none
  | load name => some (s.load read name).1

/-- The store after an act. -/
def perform (s : Store σ) : Act → Store σ
  | write name content => s.write name content
  | delete name => s.delete name
  | load name => (s.load read name).2

/-- Whether an act loads a path. -/
def loads (path : String) : Act → Bool
  | load name => canonicalName name == path
  | _ => false

/-- Whether an act loads another path. -/
def loadsBeside (path : String) : Act → Bool
  | load name => canonicalName name != path
  | _ => false

/-- What a path stands for after an act. -/
def leaves (path : String) (before : Option Content) : Act → Option Content
  | write name content => if canonicalName name = path then some content else before
  | delete name => if canonicalName name = path then none else before
  | load _ => before

/-- Two acts that differ in the spelling of a name only. -/
inductive Respelled : Act → Act → Prop
  | write {name name' : String} (h : IsSpelling name name') (content : Content) :
      Respelled (write name content) (write name' content)
  | delete {name name' : String} (h : IsSpelling name name') :
      Respelled (delete name) (delete name')
  | load {name name' : String} (h : IsSpelling name name') : Respelled (load name) (load name')

end Act

/-- The store after some acts. -/
def after (s : Store σ) (acts : List Act) : Store σ :=
  acts.foldl (Act.perform read) s

/-- Some acts with their answers. -/
def history (s : Store σ) : List Act → List (Act × Answer ε σ)
  | [] => []
  | a :: acts => (a, a.answer read s) :: history (a.perform read s) acts

/-- The answers to some acts. -/
def answers (s : Store σ) (acts : List Act) : List (Answer ε σ) :=
  (history read s acts).map (·.2)

/-- What a path stands for after some acts: what has been written there last, unless it has been
deleted since. -/
def contentAfter (path : String) (start : Option Content) (acts : List Act) : Option Content :=
  acts.foldl (Act.leaves path) start

/-- The schema that an act has given, if it is a load of a path that has not failed. -/
def given (path : String) (event : Act × Answer ε σ) : Option σ :=
  if event.1.loads path then event.2.bind Except.toOption else none

/-- The first schema that loads of a path have given. -/
def firstGiven (path : String) (past : List (Act × Answer ε σ)) : Option σ :=
  past.findSome? (given path)

/-- The answer that is due to a load after a past: the first schema that loads of its path have
given, and otherwise what the file yields as it is. -/
def due (files : Registry Content) (past : List (Act × Answer ε σ)) (name : String) :
    Except ε σ :=
  let path := canonicalName name
  match firstGiven path past with
  | some schema => .ok schema
  | none => read path (contentAfter path (files.find? path) (past.map (·.1)))

variable {s t : Store σ} {a b : Act} {acts others : List Act} {path name : String}

/-! ## Single acts -/

/-- The answer to a load: what has been loaded, and otherwise what the file yields. -/
theorem load_answer (s : Store σ) (name : String) :
    (s.load read name).1 = match s.loaded.find? (canonicalName name) with
      | some schema => .ok schema
      | none => read (canonicalName name) (s.files.find? (canonicalName name)) := by
  simp only [load]
  cases s.loaded.find? (canonicalName name) with
  | some schema => rfl
  | none => cases read (canonicalName name) (s.files.find? (canonicalName name)) <;> rfl

theorem load_files (s : Store σ) (name : String) : (s.load read name).2.files = s.files := by
  simp only [load]
  split
  · rfl
  · split <;> rfl

/-- A load that fails leaves no trace. -/
theorem load_of_error {e : ε} (h : (s.load read name).1 = .error e) :
    (s.load read name).2 = s := by
  simp only [load] at h ⊢
  split
  · rfl
  · split
    · simp_all
    · rfl

/-- A load of another path leaves what has been loaded from a path. -/
theorem load_loaded_of_ne (h : path ≠ canonicalName name) (s : Store σ) :
    (s.load read name).2.loaded.find? path = s.loaded.find? path := by
  simp only [load]
  split
  · rfl
  · split
    · exact Registry.find?_insert_of_ne h _ _
    · rfl

theorem files_perform (s : Store σ) (a : Act) (path : String) :
    (a.perform read s).files.find? path = a.leaves path (s.files.find? path) := by
  cases a with
  | write name content =>
    by_cases h : canonicalName name = path
    · simp [Act.perform, Act.leaves, write, h]
    · simp [Act.perform, Act.leaves, write, h, Registry.find?_insert_of_ne (Ne.symm h)]
  | delete name =>
    by_cases h : canonicalName name = path
    · simp [Act.perform, Act.leaves, delete, h]
    · simp [Act.perform, Act.leaves, delete, h, Registry.find?_erase_of_ne (Ne.symm h)]
  | load name => simp [Act.perform, Act.leaves, load_files]

/-- An act adds what it gives to what has been loaded, and nothing is replaced. -/
theorem loaded_perform (s : Store σ) (a : Act) (path : String) :
    (a.perform read s).loaded.find? path =
      (s.loaded.find? path).or (given path (a, a.answer read s)) := by
  cases a with
  | write name content => simp [Act.perform, write, given, Act.loads]
  | delete name => simp [Act.perform, delete, given, Act.loads]
  | load name =>
    by_cases h : canonicalName name = path
    · subst h
      cases hl : s.loaded.find? (canonicalName name) with
      | some schema => simp [Act.perform, load, hl]
      | none =>
        cases hr : read (canonicalName name) (s.files.find? (canonicalName name)) <;>
          simp [Act.perform, Act.answer, Act.loads, load, hl, hr, given, Except.toOption]
    · have hg : given path (.load name, (Act.load name).answer read s) = none := by
        simp [given, Act.loads, h]
      rw [hg, Option.or_none]
      exact load_loaded_of_ne read (Ne.symm h) s

/-- The spelling of a name changes neither the answer to an act nor the store behind it. -/
theorem Act.Respelled.same (h : Act.Respelled a b) (s : Store σ) :
    a.answer read s = b.answer read s ∧ a.perform read s = b.perform read s := by
  cases h with
  | write h content => simp [Act.answer, Act.perform, Store.write, canonicalName_eq_iff.2 h]
  | delete h => simp [Act.answer, Act.perform, Store.delete, canonicalName_eq_iff.2 h]
  | load h => simp [Act.answer, Act.perform, Store.load, canonicalName_eq_iff.2 h]

/-! ## Runs -/

theorem map_fst_history (s : Store σ) (acts : List Act) :
    (history read s acts).map (·.1) = acts := by
  induction acts generalizing s with
  | nil => rfl
  | cons a acts ih => simp [history, ih]

theorem history_append (s : Store σ) (acts more : List Act) :
    history read s (acts ++ more) =
      history read s acts ++ history read (after read s acts) more := by
  induction acts generalizing s with
  | nil => rfl
  | cons a acts ih => simp [history, after, ih]

/-- What a store has loaded after some acts: what it had loaded, and otherwise the first schema that
loads of the path have given. -/
theorem loaded_after (s : Store σ) (acts : List Act) (path : String) :
    (after read s acts).loaded.find? path =
      (s.loaded.find? path).or (firstGiven path (history read s acts)) := by
  induction acts generalizing s with
  | nil => simp [after, history, firstGiven]
  | cons a acts ih =>
    have hs : after read s (a :: acts) = after read (a.perform read s) acts := rfl
    rw [hs, ih, loaded_perform, Option.or_assoc, history, firstGiven, firstGiven,
      List.findSome?_cons]
    cases given path (a, a.answer read s) <;> simp

/-- What the files of a store are after some acts. -/
theorem files_after (s : Store σ) (acts : List Act) (path : String) :
    (after read s acts).files.find? path = contentAfter path (s.files.find? path) acts := by
  induction acts generalizing s with
  | nil => rfl
  | cons a acts ih =>
    have hs : after read s (a :: acts) = after read (a.perform read s) acts := rfl
    rw [hs, ih, files_perform]
    rfl

/-- A load after some acts is answered as is due. -/
theorem load_after (files : Registry Content) (acts : List Act) (name : String) :
    ((after read { files } acts).load read name).1 =
      due read files (history read { files } acts) name := by
  rw [load_answer, loaded_after, files_after, due, map_fst_history]
  simp

/-- The spellings of names change no answer. -/
theorem answers_of_respelled (h : List.Forall₂ Act.Respelled acts others) (s : Store σ) :
    answers read s acts = answers read s others := by
  induction h generalizing s with
  | nil => rfl
  | @cons a b acts others hab _ ih =>
    obtain ⟨hanswer, hperform⟩ := hab.same read s
    have ih := ih (b.perform read s)
    simp only [answers, history, List.map_cons, hanswer, hperform] at ih ⊢
    rw [ih]

variable {read}

/-- Two stores that agree in their files and in what has been loaded from a path. -/
structure Alike (path : String) (s t : Store σ) : Prop where
  files : s.files = t.files
  loaded : s.loaded.find? path = t.loaded.find? path

theorem Alike.answer (h : Alike path s t) (ha : a.loads path) :
    a.answer read s = a.answer read t := by
  cases a with
  | load name =>
    have hp : canonicalName name = path := by simpa [Act.loads] using ha
    simp only [Act.answer, load_answer, hp, h.files, h.loaded]
  | _ => simp [Act.loads] at ha

theorem Alike.given_eq (h : Alike path s t) (a : Act) :
    given path (a, a.answer read s) = given path (a, a.answer read t) := by
  by_cases ha : a.loads path
  · rw [h.answer ha]
  · simp [given, ha]

/-- The same act keeps stores alike. -/
theorem Alike.perform (h : Alike path s t) (a : Act) :
    Alike path (a.perform read s) (a.perform read t) := by
  constructor
  · cases a with
    | write name content => simp [Act.perform, write, h.files]
    | delete name => simp [Act.perform, delete, h.files]
    | load name => simpa [Act.perform, load_files] using h.files
  · rw [loaded_perform, loaded_perform, h.loaded, h.given_eq]

/-- A load of another path keeps a store like one in which it has not taken place. -/
theorem Alike.perform_left (h : Alike path s t) (ha : a.loadsBeside path) :
    Alike path (a.perform read s) t := by
  cases a with
  | load name =>
    have hn : canonicalName name ≠ path := by simpa [Act.loadsBeside] using ha
    exact ⟨(load_files read s name).trans h.files,
      (load_loaded_of_ne read hn.symm s).trans h.loaded⟩
  | _ => simp [Act.loadsBeside] at ha

theorem Alike.history (h : Alike path s t) (acts : List Act) :
    (history read t (acts.filter fun a => !a.loadsBeside path)).filter (·.1.loads path) =
      (history read s acts).filter (·.1.loads path) := by
  induction acts generalizing s t with
  | nil => rfl
  | cons a acts ih =>
    by_cases ha : a.loadsBeside path
    · have hn : a.loads path = false := by
        cases a <;> simp_all [Act.loads, Act.loadsBeside]
      have hp : Alike path (a.perform read s) t := h.perform_left ha
      have hr := ih hp
      simpa [Store.history, ha, hn] using hr
    · have hp : Alike path (a.perform read s) (a.perform read t) := h.perform a
      have hr := ih hp
      by_cases hl : a.loads path
      · simpa [Store.history, ha, hl, h.answer hl] using hr
      · simpa [Store.history, ha, hl] using hr

variable (read)

theorem getElem?_history (s : Store σ) (acts : List Act) (i : Nat) :
    (history read s acts)[i]? =
      acts[i]?.map fun a => (a, a.answer read (after read s (acts.take i))) := by
  induction acts generalizing s i with
  | nil => rfl
  | cons a acts ih =>
    cases i with
    | zero => rfl
    | succ i => exact ih (a.perform read s) i

theorem take_history (s : Store σ) (acts : List Act) (i : Nat) :
    (history read s acts).take i = history read s (acts.take i) := by
  induction acts generalizing s i with
  | nil => simp [history]
  | cons a acts ih =>
    cases i with
    | zero => rfl
    | succ i => simp [history, ih]

theorem answers_append (s : Store σ) (acts more : List Act) :
    answers read s (acts ++ more) =
      answers read s acts ++ answers read (after read s acts) more := by
  simp [answers, history_append]

theorem length_answers (s : Store σ) (acts : List Act) :
    (answers read s acts).length = acts.length := by
  rw [answers, List.length_map, ← List.length_map (f := (·.1)), map_fst_history]

/-- An act that leaves no trace can be left out. -/
theorem answers_eraseIdx {i : Nat} (hi : acts[i]? = some a)
    (h : a.perform read (after read s (acts.take i)) = after read s (acts.take i)) :
    answers read s (acts.eraseIdx i) = (answers read s acts).eraseIdx i := by
  obtain ⟨hlt, ha⟩ := List.getElem?_eq_some_iff.1 hi
  have hacts : acts = acts.take i ++ a :: acts.drop (i + 1) := by
    rw [← ha, List.getElem_cons_drop, List.take_append_drop]
  have hlen : (answers read s (acts.take i)).length = i := by
    rw [length_answers, List.length_take]
    omega
  have hrest : answers read (after read s (acts.take i)) (a :: acts.drop (i + 1)) =
      a.answer read (after read s (acts.take i)) ::
        answers read (after read s (acts.take i)) (acts.drop (i + 1)) := by
    simp [answers, history, h]
  calc answers read s (acts.eraseIdx i)
      = answers read s (acts.take i) ++
          answers read (after read s (acts.take i)) (acts.drop (i + 1)) := by
        rw [List.eraseIdx_eq_take_drop_succ, answers_append]
    _ = (answers read s (acts.take i) ++
          answers read (after read s (acts.take i)) (a :: acts.drop (i + 1))).eraseIdx i := by
        rw [hrest, List.eraseIdx_append_of_length_le (by omega), hlen, Nat.sub_self]
        rfl
    _ = (answers read s acts).eraseIdx i := by rw [← answers_append, ← hacts]

/-- **The answers to loads** in every run of writes, deletions and loads on a directory from which
nothing has been loaded, however files are read. A load is answered as is due after what has
happened before; a load that fails can be left out and changes no other answer; the loads of a path
are answered alike when all loads of other paths are left out; and no answer depends on how names
are spelled. -/
theorem loads_of_history (files : Registry Content) (acts : List Act) :
    (∀ i name, acts[i]? = some (.load name) →
      (history read { files } acts)[i]? =
        some (.load name, some (due read files ((history read { files } acts).take i) name))) ∧
    (∀ i e, (answers read { files } acts)[i]? = some (some (.error e)) →
      answers read { files } (acts.eraseIdx i) = (answers read { files } acts).eraseIdx i) ∧
    (∀ path,
      (history read { files } (acts.filter fun a => !a.loadsBeside path)).filter (·.1.loads path) =
        (history read { files } acts).filter (·.1.loads path)) ∧
    ∀ others, List.Forall₂ Act.Respelled acts others →
      answers read { files } acts = answers read { files } others := by
  refine ⟨?_, ?_, ?_, ?_⟩
  · intro i name hi
    rw [getElem?_history, hi, take_history, ← load_after]
    rfl
  · intro i e he
    rw [answers, List.getElem?_map, getElem?_history] at he
    cases ha : acts[i]? with
    | none => simp [ha] at he
    | some a =>
      simp only [ha, Option.map_some, Option.some.injEq] at he
      cases a with
      | load name =>
        apply answers_eraseIdx read ha
        exact load_of_error read (Option.some.inj he)
      | _ => simp [Act.answer] at he
  · intro path
    exact Alike.history ⟨rfl, rfl⟩ acts
  · intro others h
    exact answers_of_respelled read h _

end

/-- A directory in which a schema is loaded, replaced and loaded by another name, beside two loads
that fail. -/
def replacing : List Act :=
  [.load "x.json", .write "./x.json" (.text "true"), .load "x.json", .write "x.json" .directory,
    .load "y/../x.json", .load "z.json"]

/-- The same acts, with the shortest names. -/
def replacingPlainly : List Act :=
  [.load "x.json", .write "x.json" (.text "true"), .load "x.json", .write "x.json" .directory,
    .load "x.json", .load "z.json"]

/-- The other spellings are spellings of the same names. -/
theorem respelled_replacing : List.Forall₂ Act.Respelled replacing replacingPlainly := by
  have hstay : IsSpelling "./x.json" "x.json" := .rel _ _ (.stay [] ["x.json".toList])
  have hy : IsProper ['y'] := ⟨by decide, by decide, by decide⟩
  have hback : IsSpelling "y/../x.json" "x.json" := .rel _ _ (.back hy [] ["x.json".toList])
  have hsame (name : String) : IsSpelling name name := .refl _
  exact .cons (.load (hsame _)) (.cons (.write hstay _) (.cons (.load (hsame _))
    (.cons (.write (hsame _) _) (.cons (.load hback) (.cons (.load (hsame _)) .nil)))))

/-- The schema stays what it was, the load that failed at first can be left out, and the spellings
of the names do not matter. -/
theorem loads_of_replacing :
    let read := Content.read? .described
    ((answers read {} replacing).map
        (Option.map fun answer => answer.toOption.map Schema.Source.document) =
      [some none, none, some (some (.bool true)), none, some (some (.bool true)), some none]) ∧
    replacing[4]? = some (.load "y/../x.json") ∧
    (history read {} replacing)[4]? = some (.load "y/../x.json",
      some (due read .empty ((history read {} replacing).take 4) "y/../x.json")) ∧
    (answers read {} replacing)[0]? = some (some (.error (.error (.missing "x.json")))) ∧
    answers read {} (replacing.eraseIdx 0) = (answers read {} replacing).eraseIdx 0 ∧
    (history read {} (replacing.filter fun a => !a.loadsBeside "x.json")).filter
        (·.1.loads "x.json") = (history read {} replacing).filter (·.1.loads "x.json") ∧
    List.Forall₂ Act.Respelled replacing replacingPlainly ∧
    answers read {} replacing = answers read {} replacingPlainly := by
  intro read
  have hload : replacing[4]? = some (.load "y/../x.json") := rfl
  have herror : (answers read {} replacing)[0]? =
      some (some (.error (.error (.missing "x.json")))) := rfl
  obtain ⟨hdue, hleft, hbeside, hspelled⟩ := loads_of_history read .empty replacing
  exact ⟨by decide, hload, hdue 4 _ hload, herror, hleft 0 _ herror, hbeside "x.json",
    respelled_replacing, hspelled _ respelled_replacing⟩

end Store
end FlowScript
