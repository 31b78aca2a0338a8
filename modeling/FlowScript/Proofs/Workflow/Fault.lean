import FlowScript.Proofs.Command
import FlowScript.Proofs.Condition.Digits
import FlowScript.Proofs.Expr.Digits
import FlowScript.Proofs.Workflow.Lines
import FlowScript.Schema.Packaged

/-!
# Faults of texts

Command text meets a fault only where digits are turned into an integer and there are too many of
them. Whether a line does is a matter of the line alone: what the session holds plays no part in it.

## Main definitions

* `Value.Overlong`, `Command.Overlong`, `Compile.Overlong`: the values, commands and lines that meet
  a fault.

## Main statements

* `Compile.overlong_of_halt`, `Compile.halt_of_overlong`: one command, given the lines inside it.
* `Compile.lineWithin_faults_iff`: the lines that end in a fault, in any session.
* `compile_faults`: the texts that cannot be compiled, and what is to blame.
-/
namespace FlowScript

open Text

/-! ## Values -/

namespace Value

variable {cs : List Char} {f : Fault}

/-- A value with an integer that has too many digits, where it asks a classifier, where it is a
condition, or else as an expression. -/
def Overlong (cs : List Char) : Prop :=
  match question? (trim cs) with
  | some (_, input) => Expr.Overlong input
  | none =>
    if isConditional (trim cs) then Condition.Overlong (trim cs) else Expr.Overlong (trim cs)

/-- What a classifier is asked about is a stretch of the text. -/
theorem infix_of_question? {model input : List Char} (h : question? cs = some (model, input)) :
    input <:+: cs := by
  rcases Scan.either_eq_some h with h | h
  all_goals
    obtain ⟨_, h₁, h⟩ := Scan.keyword_suffix h
    obtain ⟨_, h₂, h⟩ := Scan.gap_suffix h
    obtain ⟨_, _, -, h₃, -, h⟩ := Scan.word_eq_some h
    obtain ⟨_, h₄, h⟩ := Scan.gap_suffix h
    obtain ⟨-, -, h⟩ := Scan.rest_eq_some.1 h
    obtain ⟨-, rfl⟩ := Prod.mk.inj h
    exact (h₄.trans (h₃.trans (h₂.trans h₁))).isInfix

theorem read_eq_error (h : Value.read cs = .error f) : Overlong cs ∧ Blames cs f := by
  unfold Overlong
  simp only [Value.read, bind, Except.bind, pure, Except.pure] at h
  cases hq : question? (trim cs) with
  | some asked =>
    obtain ⟨model, input⟩ := asked
    cases he : Expr.read input with
    | ok e => simp [hq, he] at h
    | error e =>
      simp only [hq, he, Except.error.injEq] at h
      obtain ⟨ho, hb⟩ := Expr.read_eq_error (h ▸ he)
      exact ⟨ho, hb.mono ((infix_of_question? hq).trans (isInfix_trim cs))⟩
  | none =>
    simp only [hq] at h ⊢
    split at h
    · rename_i hc
      cases he : Condition.parse (trim cs) with
      | ok c => simp [he] at h
      | error e =>
        simp only [he, Except.error.injEq] at h
        obtain ⟨ho, hb⟩ := Condition.parse_eq_error (h ▸ he)
        exact ⟨by simpa [hc] using ho, hb.mono (isInfix_trim cs)⟩
    · rename_i hc
      cases he : Expr.read (trim cs) with
      | ok c => simp [he] at h
      | error e =>
        simp only [he, Except.error.injEq] at h
        obtain ⟨ho, hb⟩ := Expr.read_eq_error (h ▸ he)
        exact ⟨by simpa [hc] using ho, hb.mono (isInfix_trim cs)⟩

theorem read_of_overlong (h : Overlong cs) : ∃ f, Value.read cs = .error f := by
  unfold Overlong at h
  simp only [Value.read, bind, Except.bind, pure, Except.pure]
  cases hq : question? (trim cs) with
  | some asked =>
    obtain ⟨model, input⟩ := asked
    simp only [hq] at h
    obtain ⟨f, hf⟩ := Expr.read_eq_error_iff.2 h
    exact ⟨f, by simp [hf]⟩
  | none =>
    simp only [hq] at h
    split at h
    · rename_i hc
      obtain ⟨f, hf⟩ := Condition.parse_eq_error_iff.2 h
      exact ⟨f, by simp [hc, hf]⟩
    · rename_i hc
      obtain ⟨f, hf⟩ := Expr.read_eq_error_iff.2 h
      exact ⟨f, by simp [hc, hf]⟩

end Value

/-! ## Commands and lines -/

namespace Command

/-- A command that meets a fault, given the lines inside it that do. -/
def Overlong (inner : String → Prop) : Command → Prop
  | define _ body => inner body
  | count body times =>
    TooLong times.toList ∨
      (∃ n, number? times.toList = .ok (some (.int n))) ∧ trim body.toList ≠ [] ∧ inner body
  | branch condition yes no =>
    Condition.Overlong condition.toList ∨ inner yes ∨ ∃ text ∈ no, inner text
  | wait seconds => TooLong seconds.toList
  | set target raw => isIdentifier target ∧ Value.Overlong raw.toList
  | ret raw => (trimmed raw).isEmpty = false ∧ Value.Overlong raw.toList
  | analyze raw _ => Expr.Overlong raw.toList
  | state _ raw => Expr.Overlong raw.toList
  | _ => False

end Command

namespace Compile

/-- A line that meets a fault, with an allowance for commands inside each other. -/
def Overlong : Nat → String → Prop
  | 0, _ => False
  | allowance + 1, text =>
    ∃ verb command, Command.read? Command.rules (trimmed text) = some (verb, command) ∧
      command.Overlong (Overlong allowance)

variable {n : Nat} {text : String} {s s' : Session} {f : Fault} {defs : List Definition}

/-- A fault that a command meets by itself comes from digits in its parts. -/
theorem overlong_of_breaks {c : Command} {line : List Char} {inner : String → Prop}
    (h : Command.Breaks s c f s') (hc : c.Fits line) : c.Overlong inner ∧ Blames line f := by
  cases h with
  | count h =>
    obtain ⟨ho, hb⟩ := number?_eq_error h
    exact ⟨.inl ho, hb.mono hc.2⟩
  | branch h =>
    obtain ⟨ho, hb⟩ := Condition.parse_eq_error h
    exact ⟨.inl ho, hb.mono hc.1⟩
  | wait h =>
    obtain ⟨ho, hb⟩ := number?_eq_error h
    exact ⟨ho, hb.mono hc⟩
  | set ht h =>
    obtain ⟨ho, hb⟩ := Value.read_eq_error h
    exact ⟨⟨ht, ho⟩, hb.mono hc⟩
  | ret hr h =>
    obtain ⟨ho, hb⟩ := Value.read_eq_error h
    exact ⟨⟨hr, ho⟩, hb.mono hc⟩
  | analyze h =>
    obtain ⟨ho, hb⟩ := Expr.read_eq_error h
    exact ⟨ho, hb.mono hc.1⟩
  | state h =>
    obtain ⟨ho, hb⟩ := Expr.read_eq_error h
    exact ⟨ho, hb.mono hc⟩

section Command

variable {c : Command} {inner : String → Prop} {R : Command.Course} {F : Command.Failure}

/-- A command ends in a fault for its digits, if the lines inside it do so for theirs. -/
theorem overlong_of_halt {line : List Char}
    (hin : ∀ text s f defs t, F text s f defs t → inner text ∧ Blames text.toList f)
    (h : Command.Halt R F c s f defs s') (hc : c.Fits line) :
    c.Overlong inner ∧ Blames line f := by
  cases h with
  | broken h => exact overlong_of_breaks h hc
  | defined h =>
    obtain ⟨ho, hb⟩ := hin _ _ _ _ _ h
    exact ⟨ho, hb.mono hc⟩
  | counted hn hbody h =>
    obtain ⟨ho, hb⟩ := hin _ _ _ _ _ h
    exact ⟨.inr ⟨⟨_, hn⟩, hbody, ho⟩, hb.mono hc.1⟩
  | yes hcond h =>
    obtain ⟨ho, hb⟩ := hin _ _ _ _ _ h
    exact ⟨.inr (.inl ho), hb.mono hc.2.1⟩
  | no hcond hy hn =>
    obtain ⟨ho, hb⟩ := hin _ _ _ _ _ hn
    exact ⟨.inr (.inr ⟨_, rfl, ho⟩), hb.mono (hc.2.2 _ rfl)⟩

/-- A command with too many digits ends in a fault, whatever the session holds, if the lines inside
it do, and if each of them runs or ends in one. -/
theorem halt_of_overlong
    (hrun : ∀ text s, (∃ steps defs t, R text s steps defs t) ∨ ∃ f defs t, F text s f defs t)
    (hin : ∀ text, inner text → ∀ s, ∃ f defs t, F text s f defs t)
    (ho : c.Overlong inner) (s : Session) : ∃ f defs t, Command.Halt R F c s f defs t := by
  cases c with
  | define name body =>
    obtain ⟨f, defs, t, h⟩ := hin _ ho s
    exact ⟨f, defs, t, .defined h⟩
  | count body times =>
    rcases ho with ho | ⟨⟨k, hk⟩, hbody, ho⟩
    · obtain ⟨f, hf⟩ := number?_eq_error_iff.2 ho
      exact ⟨f, [], s, .broken (.count hf)⟩
    · obtain ⟨f, defs, t, h⟩ := hin _ ho _
      exact ⟨f, defs, t, .counted hk hbody h⟩
  | branch condition yes no =>
    cases hc : Condition.parse condition.toList with
    | error f => exact ⟨f, [], s, .broken (.branch hc)⟩
    | ok cond =>
      rcases ho with ho | ho | ⟨text, rfl, ho⟩
      · obtain ⟨f, hf⟩ := Condition.parse_eq_error_iff.2 ho
        simp [hc] at hf
      · obtain ⟨f, defs, t, h⟩ := hin _ ho s
        exact ⟨f, defs, t, .yes hc h⟩
      · -- the other side is reached unless the first one ends in a fault
        rcases hrun yes s with ⟨steps, defs, t, hy⟩ | ⟨f, defs, t, h⟩
        · obtain ⟨f, more, u, h⟩ := hin _ ho t
          exact ⟨f, defs ++ more, u, .no hc hy h⟩
        · exact ⟨f, defs, t, .yes hc h⟩
  | wait seconds =>
    obtain ⟨f, hf⟩ := number?_eq_error_iff.2 ho
    exact ⟨f, [], s, .broken (.wait hf)⟩
  | set target raw =>
    obtain ⟨f, hf⟩ := Value.read_of_overlong ho.2
    exact ⟨f, [], s, .broken (.set ho.1 hf)⟩
  | ret raw =>
    obtain ⟨f, hf⟩ := Value.read_of_overlong ho.2
    exact ⟨f, [], _, .broken (.ret ho.1 hf)⟩
  | analyze raw model =>
    obtain ⟨f, hf⟩ := Expr.read_eq_error_iff.2 ho
    exact ⟨f, [], _, .broken (.analyze hf)⟩
  | state name raw =>
    obtain ⟨f, hf⟩ := Expr.read_eq_error_iff.2 ho
    exact ⟨f, [], _, .broken (.state hf)⟩
  | fetch endpoint target => exact ho.elim
  | invoke name => exact ho.elim
  | leave => exact ho.elim
  | render component target => exact ho.elim
  | style selector properties => exact ho.elim
  | listen event handler => exact ho.elim

end Command

/-- A line that ends in a fault holds an integer with too many digits where one is read. -/
theorem Halt.overlong (h : Halt Command.rules n text s f defs s') :
    Overlong n text ∧ Blames text.toList f := by
  refine Halt.induction (motive := fun n text _ f _ _ => Overlong n text ∧ Blames text.toList f)
    ?command h
  case command =>
    intro n text verb c s f defs t ih hread hh
    obtain ⟨ho, hb⟩ := overlong_of_halt ih hh (Command.fits_of_read? hread)
    exact ⟨⟨verb, c, hread, ho⟩, hb.mono (by simpa [trimmed] using isInfix_trim text.toList)⟩

/-- A line that holds an integer with too many digits where one is read ends in a fault, whatever
the session holds. -/
theorem halts_of_overlong (h : Overlong n text) (s : Session) :
    ∃ f defs t, Halt Command.rules n text s f defs t := by
  induction n generalizing text s with
  | zero => exact h.elim
  | succ n ih =>
    obtain ⟨verb, c, hread, ho⟩ := h
    obtain ⟨f, defs, t, hh⟩ := halt_of_overlong (run_or_halt Command.rules n) (fun _ => ih) ho
      (s.told (.dispatched (trimmed text) verb)).entered
    refine ⟨f, defs, t.exited, ?_⟩
    simp only [Halt, hread]
    exact ⟨t, hh, rfl⟩

theorem lineWithin_of_overlong (h : Overlong n text) (s : Session) :
    ∃ f t, lineWithin Command.rules n text s = .error f t := by
  obtain ⟨f, defs, t, hd⟩ := halts_of_overlong h s
  exact ⟨f, t, lineWithin_eq_error_iff.2 ⟨defs, hd⟩⟩

/-- **The lines that end in a fault**, in any session. -/
theorem lineWithin_faults_iff :
    (∃ f t, lineWithin Command.rules n text s = .error f t) ↔ Overlong n text := by
  constructor
  · rintro ⟨f, t, h⟩
    obtain ⟨defs, hd⟩ := lineWithin_eq_error_iff.1 h
    exact hd.overlong.1
  · intro h
    exact lineWithin_of_overlong h s

end Compile

/-! ## Texts -/

namespace Workflow

variable {lines : List String} {s t : Session} {f : Fault}

/-- One of some lines is to blame for a fault. -/
theorem overlong_of_stepsOf (hs : s.nesting = 0) (h : stepsOf lines s = .error f t) :
    ∃ line ∈ lines, Compile.Overlong maxNesting line ∧ Blames line.toList f := by
  induction lines generalizing s with
  | nil => exact absurd h stepsOf_nil_ne_error
  | cons line lines ih =>
    rcases stepsOf_cons_eq_error.1 h with h | ⟨first, u, hl, h⟩
    · obtain ⟨defs, hd⟩ := Compile.line_eq_error_iff.1 h
      rw [Compile.allowance_outermost hs] at hd
      exact ⟨line, by simp, hd.overlong⟩
    · obtain ⟨defs, hr⟩ := Compile.line_eq_ok_iff.1 hl
      obtain ⟨l, hm, h⟩ := ih (by rw [hr.nesting_eq, hs]) h
      exact ⟨l, List.mem_cons_of_mem _ hm, h⟩

/-- A line with an integer that is too long ends the text, unless one before it does. -/
theorem stepsOf_of_overlong {line : String} (hs : s.nesting = 0) (hl : line ∈ lines)
    (ho : Compile.Overlong maxNesting line) : ∃ f t, stepsOf lines s = .error f t := by
  induction lines generalizing s with
  | nil => simp at hl
  | cons first lines ih =>
    have hn : Compile.allowance s.nesting = maxNesting := Compile.allowance_outermost hs
    cases hf : Compile.line first s with
    | error f t => exact ⟨f, t, stepsOf_cons_eq_error.2 (.inl hf)⟩
    | ok steps u =>
      obtain rfl | hl := List.mem_cons.1 hl
      · obtain ⟨f, t, he⟩ := Compile.lineWithin_of_overlong ho s
        simp only [Compile.line, Compile.bind_apply, Compile.get_apply, hn, he] at hf
        simp at hf
      · obtain ⟨defs, hr⟩ := Compile.line_eq_ok_iff.1 hf
        obtain ⟨f, t, he⟩ := ih (by rw [hr.nesting_eq, hs]) hl
        exact ⟨f, t, stepsOf_cons_eq_error.2 (.inr ⟨steps, u, hf, he⟩)⟩

end Workflow

/-- A validator that meets no fault, whatever the document is. -/
def Validator.IsTotal (validate : Validator) : Prop :=
  ∀ document, ∃ reports, validate document = .ok reports

theorem Schema.Root.isTotal_validate (r : Schema.Root) : Validator.IsTotal r.validate :=
  fun _ => ⟨_, rfl⟩

section

variable {text function stamp : String} {o : Options} {validate : Validator} {f : Fault}

/-- Judging with a total validator meets no fault. -/
theorem judge_eq_ok (hv : validate.IsTotal) (w : Workflow) (document : Json)
    (ds : List Diagnostic) : ∃ answer, judge w document ds (.ok validate) = .ok answer := by
  obtain ⟨reports, hr⟩ := hv document
  simp only [judge, hr]
  split
  · exact ⟨_, rfl⟩
  · exact ⟨_, rfl⟩

/-- Compiling with a total validator meets the faults of assembling, and no other ones. -/
theorem compile_eq_error_iff (hv : validate.IsTotal) :
    compile (some text) function stamp o (.ok validate) = .error f ↔
      (trimmed text).isEmpty = false ∧ ∃ t, Workflow.assemble function text {} = .error f t := by
  cases hb : (trimmed text).isEmpty with
  | true => simp [compile, hb]
  | false =>
    cases ha : Workflow.assemble function text {} with
    | error g t => simp [compile, hb, ha]
    | ok w t =>
      obtain ⟨answer, hj⟩ := judge_eq_ok hv w (w.toJson o stamp) t.diagnostics
      simp [compile_eq_judge hb ha, hj, Except.map]

/-- **The texts that cannot be compiled**, whatever the options and the validator, if only the
validator meets no fault itself: those with a line that holds an integer with more than `maxDigits`
digits where an integer is read. Nothing else is a fault, and the digits to blame stand next to each
other in the text but for brackets. -/
theorem compile_faults (text function stamp : String) (o : Options) (hv : validate.IsTotal) :
    ((∃ answer, compile (some text) function stamp o (.ok validate) = .ok answer) ↔
      ¬ ∃ line ∈ commandLines text, Compile.Overlong maxNesting line) ∧
    ∀ f, compile (some text) function stamp o (.ok validate) = .error f →
      Blames text.toList f := by
  constructor
  · cases hc : compile (some text) function stamp o (.ok validate) with
    | error f =>
      obtain ⟨-, t, ha⟩ := (compile_eq_error_iff hv).1 hc
      obtain ⟨line, hl, ho, -⟩ := Workflow.overlong_of_stepsOf rfl (Workflow.assemble_eq_error.1 ha)
      simp only [reduceCtorEq, exists_false, false_iff, not_not]
      exact ⟨line, hl, ho⟩
    | ok answer =>
      simp only [Except.ok.injEq, exists_eq', true_iff]
      rintro ⟨line, hl, ho⟩
      cases hb : (trimmed text).isEmpty with
      | true => simp [commandLines_of_blank hb] at hl
      | false =>
        obtain ⟨f, t, he⟩ := Workflow.stepsOf_of_overlong (s := {}) rfl hl ho
        have hf : compile (some text) function stamp o (.ok validate) = .error f :=
          (compile_eq_error_iff hv).2 ⟨hb, t, Workflow.assemble_eq_error.2 he⟩
        simp [hc] at hf
  · intro f h
    obtain ⟨-, t, ha⟩ := (compile_eq_error_iff hv).1 h
    obtain ⟨line, hl, -, hb⟩ := Workflow.overlong_of_stepsOf rfl (Workflow.assemble_eq_error.1 ha)
    exact hb.mono (infix_of_mem_commandLines hl)

end

/-! ## A text that cannot be compiled -/

/-- The end of a line that waits for some seconds. -/
def secondsEnd : List Char :=
  [' ', 's', 'e', 'c', 'o', 'n', 'd', 's']

/-- A line that waits for a number of seconds written with a number of ones. -/
def longWait (n : Nat) : List Char :=
  ['w', 'a', 'i', 't', ' '] ++ (List.replicate n '1' ++ secondsEnd)

theorem trim_longWait (n : Nat) : trim (longWait n) = longWait n := by
  have h : longWait n = 'w' :: (['a', 'i', 't', ' '] ++ (List.replicate n '1' ++
      [' ', 's', 'e', 'c', 'o', 'n', 'd'])) ++ ['s'] := by
    simp [longWait, secondsEnd]
  rw [h]
  exact trim_eq_self (by decide) (by decide)

theorem not_isBlank_ones {n : Nat} {c : Char} (h : c ∈ List.replicate n '1') :
    isBlank c = false := by
  obtain ⟨-, rfl⟩ := List.mem_replicate.1 h
  decide

theorem solid_ones {α : Type} {n : Nat} (hn : 0 < n) (next : List Char → Scan α) :
    Scan.solid next (List.replicate n '1' ++ secondsEnd) =
      next (List.replicate n '1') secondsEnd := by
  have ht : (List.replicate n '1' ++ secondsEnd).takeWhile (!isBlank ·) = List.replicate n '1' := by
    rw [List.takeWhile_append_of_pos fun c hc => by simp [not_isBlank_ones hc]]
    simp [secondsEnd, show isBlank ' ' = true by decide]
  have hd : (List.replicate n '1' ++ secondsEnd).dropWhile (!isBlank ·) = secondsEnd := by
    rw [List.dropWhile_append_of_pos fun c hc => by simp [not_isBlank_ones hc]]
    rfl
  have he : (List.replicate n '1').isEmpty = false := by
    simpa using Nat.ne_of_gt hn
  simp only [Scan.solid, Scan.some1, ht, hd, he, Bool.false_eq_true, if_false]

theorem read?_longWait {n : Nat} (hn : 0 < n) :
    Command.read? Command.rules (String.ofList (longWait n)) =
      some ("wait", .wait (String.ofList (List.replicate n '1'))) := by
  have hs : trimStart (List.replicate n '1' ++ secondsEnd) =
      List.replicate n '1' ++ secondsEnd := by
    obtain ⟨n, rfl⟩ := Nat.exists_eq_succ_of_ne_zero (Nat.ne_of_gt hn)
    rfl
  have hk : afterWord? "wait".toList (longWait n) =
      some (' ' :: (List.replicate n '1' ++ secondsEnd)) := rfl
  have hw : Command.waitForm (longWait n) =
      some (.wait (String.ofList (List.replicate n '1'))) := by
    simp only [Command.waitForm, Scan.keyword, hk, Option.bind_some, Scan.gap,
      show isBlank ' ' = true by decide, if_true, hs, solid_ones hn]
    rfl
  simp only [Command.read?, Command.rules, String.toList_ofList, List.findSome?_cons, hw]
  rfl

theorem commandLines_longWait (n : Nat) :
    commandLines (String.ofList (longWait n)) = [String.ofList (longWait n)] := by
  have hp : pieces (longWait n) = [longWait n] := by
    refine pieces_of_line fun c hc => ?_
    have hword : ['w', 'a', 'i', 't', ' '].all (!isLineBreak ·) := by decide
    have hend : secondsEnd.all (!isLineBreak ·) := by decide
    simp only [longWait, List.mem_append, List.mem_replicate] at hc
    rcases hc with hc | ⟨-, rfl⟩ | hc
    · simpa using List.all_eq_true.1 hword c hc
    · decide
    · simpa using List.all_eq_true.1 hend c hc
  simp only [commandLines, String.toList_ofList, hp, List.map_cons, List.map_nil, trim_longWait]
  rfl

/-- A line that waits for a number of seconds with too many digits meets a fault. -/
theorem overlong_longWait {n : Nat} (hn : maxDigits < n) :
    Compile.Overlong maxNesting (String.ofList (longWait n)) := by
  have hl : trimmed (String.ofList (longWait n)) = String.ofList (longWait n) := by
    simp only [trimmed, String.toList_ofList, trim_longWait]
  have hr := read?_longWait (Nat.zero_lt_of_lt hn)
  have hd : (List.replicate n '1').all isDigit := by
    refine List.all_eq_true.2 fun c hc => ?_
    obtain ⟨-, rfl⟩ := List.mem_replicate.1 hc
    decide
  have ho : TooLong (String.ofList (List.replicate n '1')).toList := by
    refine ⟨[], List.replicate n '1', by simp, ?_, hd, by simpa using hn⟩
    rw [String.toList_ofList, trim_of_solid fun c hc => not_isBlank_ones hc, List.nil_append]
  exact ⟨"wait", .wait (String.ofList (List.replicate n '1')), hl.symm ▸ hr, ho⟩

/-- Waiting for a number of seconds with one digit too many cannot be compiled. -/
theorem longWait_faults : ∃ f,
    compile (some (String.ofList (longWait (maxDigits + 1)))) "workflow" "" {}
      (.ok Packaged.root.validate) = .error f ∧ Blames (longWait (maxDigits + 1)) f := by
  obtain ⟨hok, hb⟩ := compile_faults (String.ofList (longWait (maxDigits + 1))) "workflow" "" {}
    Packaged.root.isTotal_validate
  have hn : ¬ ∃ answer, compile (some (String.ofList (longWait (maxDigits + 1)))) "workflow" "" {}
      (.ok Packaged.root.validate) = .ok answer := by
    rw [hok, not_not, commandLines_longWait]
    exact ⟨_, List.mem_singleton_self _, overlong_longWait (Nat.lt_succ_self _)⟩
  cases hc : compile (some (String.ofList (longWait (maxDigits + 1)))) "workflow" "" {}
      (.ok Packaged.root.validate) with
  | ok answer => exact absurd ⟨answer, hc⟩ hn
  | error f =>
    refine ⟨f, rfl, ?_⟩
    simpa using hb f hc

end FlowScript
