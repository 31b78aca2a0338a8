import FlowScript.Proofs.Command
import FlowScript.Proofs.Condition.Parts
import FlowScript.Proofs.Numeric.Decimal
import FlowScript.Proofs.Text.Forms

/-!
# Verbs of commands

What is told of a line is its verb, and the verb tells what the line does: of two commands with one
verb, one stores an answer and the other one calls a template. A counted loop has two verbs. Either
way its number of turns is written in digits, so that it is never negative.

## Main definitions

* `Command.verbs`: the verbs under which a command may stand.
* `Command.Spelled`: a command under its verb.

## Main statements

* `Command.spelled_of_read?`: every command stands under the verb that is told of its line.
* `Command.Timed.nonneg`: a number of turns is not negative.
-/
namespace FlowScript.Command

open Text Scan

/-- The verbs under which a command may stand. -/
def verbs : Command → List String
  | define _ _ => ["macro"]
  | fetch _ _ => ["call"]
  | invoke _ => ["call"]
  | count _ _ => ["repeat", "for"]
  | branch _ _ _ => ["if"]
  | wait _ => ["wait"]
  | set _ _ => ["set"]
  | leave => ["break"]
  | ret _ => ["return"]
  | analyze _ _ => ["analyze"]
  | render _ _ => ["render"]
  | state _ _ => ["state"]
  | style _ _ => ["style"]
  | listen _ _ => ["on"]

/-- A number of turns, if there is one, is written in digits. -/
def Timed : Command → Prop
  | count _ times => isDigitRun times.toList
  | _ => True

/-- A command under its verb, with its number of turns in digits. -/
def Spelled (verb : String) (c : Command) : Prop :=
  verb ∈ c.verbs ∧ c.Timed

theorem spelled_defineForm : Yields defineForm (Spelled "macro") :=
  .keyword (.gap (.word fun _ _ => .gap_rest fun _ _ => ⟨.head _, trivial⟩))

theorem spelled_fetchForm : Yields fetchForm (Spelled "call") := by
  refine .keyword (.gap (.solid fun _ _ => ?_))
  exact .gap (.keyword (.gap (.keyword (.gap (.word fun _ _ => .done ⟨.head _, trivial⟩)))))

theorem spelled_invokeForm : Yields invokeForm (Spelled "call") :=
  .keyword (.gap (.word fun _ _ => .done ⟨.head _, trivial⟩))

theorem spelled_countedBody : Yields countedBody (Spelled "repeat") := by
  have hd : Yields (gap (some1 isDigit fun times => gap (keyword "times" (done times))))
      fun times => isDigitRun times := by
    refine .gap (.some1 fun times hne hall => .gap (.keyword (.done ?_)))
    simp [isDigitRun, hne, hall]
  refine .slack (.map_of (.shortest hd) ?_)
  rintro ⟨body, times⟩ ht
  refine ⟨.head _, ?_⟩
  simpa [pair, Timed] using ht

theorem spelled_repeatForm : Yields repeatForm (Spelled "repeat") :=
  .either (.keyword spelled_countedBody) (.keyword spelled_countedBody)

theorem spelled_forForm : Yields forForm (Spelled "for") := by
  refine .keyword (.gap (.some1 fun times hne hall => ?_))
  refine .gap (.keyword (.gap_rest fun body _ => ⟨.tail _ (.head _), ?_⟩))
  simp [pair, Timed, isDigitRun, hne, hall]

theorem spelled_branchForm : Yields branchForm (Spelled "if") :=
  .keyword (.slack (.map fun _ => ⟨.head _, trivial⟩))

theorem spelled_waitForm : Yields waitForm (Spelled "wait") := by
  refine .keyword (.gap (.solid fun _ _ => .gap (.keyword ?_)))
  exact .either (.keyword (.done ⟨.head _, trivial⟩)) (.done ⟨.head _, trivial⟩)

theorem spelled_setForm : Yields setForm (Spelled "set") := by
  have h : Yields (gap (solid fun target => between "to" (rest fun value => pair set target value)))
      (Spelled "set") :=
    .gap (.solid fun _ _ => .gap (.keyword (.gap_rest fun _ _ => ⟨.head _, trivial⟩)))
  exact .either (.keyword h) (.keyword h)

theorem spelled_leaveForm : Yields leaveForm (Spelled "break") :=
  .keyword (.done ⟨.head _, trivial⟩)

theorem spelled_retForm : Yields retForm (Spelled "return") :=
  .keyword (.either (.done ⟨.head _, trivial⟩) (.gap_rest fun _ _ => ⟨.head _, trivial⟩))

theorem spelled_analyzeForm : Yields analyzeForm (Spelled "analyze") :=
  .keyword (.slack (.map fun _ => ⟨.head _, trivial⟩))

theorem spelled_renderForm : Yields renderForm (Spelled "render") := by
  refine .keyword (.gap (.word fun _ _ => ?_))
  exact .gap (.keyword (.gap (.word fun _ _ => .done ⟨.head _, trivial⟩)))

theorem spelled_stateForm : Yields stateForm (Spelled "state") :=
  .keyword (.gap (.word fun _ _ => .gap (.keyword (.gap_rest fun _ _ => ⟨.head _, trivial⟩))))

theorem spelled_styleForm : Yields styleForm (Spelled "style") :=
  .keyword (.gap (.solid fun _ _ => .gap (.keyword (.gap_rest fun _ _ => ⟨.head _, trivial⟩))))

theorem spelled_listenForm : Yields listenForm (Spelled "on") := by
  refine .keyword (.gap (.word fun _ _ => ?_))
  exact .gap (.keyword (.gap (.word fun _ _ => .done ⟨.head _, trivial⟩)))

/-- **Every command stands under the verb that is told of its line.** -/
theorem spelled_of_read? {line verb : String} {c : Command}
    (h : read? rules line = some (verb, c)) : c.Spelled verb := by
  obtain ⟨rule, hr, rfl, hc⟩ := exists_rule_of_read? h
  have hall : ∀ rule ∈ rules, Yields rule.read (Spelled rule.verb) := by
    simp only [rules, List.forall_mem_cons, List.not_mem_nil, false_imp_iff, implies_true, and_true]
    exact ⟨spelled_defineForm, spelled_fetchForm, spelled_invokeForm, spelled_repeatForm,
      spelled_forForm, spelled_branchForm, spelled_waitForm, spelled_setForm, spelled_leaveForm,
      spelled_retForm, spelled_analyzeForm, spelled_renderForm, spelled_stateForm,
      spelled_styleForm, spelled_listenForm⟩
  exact hall rule hr _ _ hc

/-- A number of turns is not negative, because no sign stands before its digits. -/
theorem Timed.nonneg {body times : String} {n : Int} (h : (count body times).Timed)
    (hn : number? times.toList = .ok (some (.int n))) : 0 ≤ n := by
  simp only [Timed, isDigitRun, Bool.and_eq_true, Bool.not_eq_true', List.isEmpty_eq_false_iff] at h
  have htrim : trim times.toList = times.toList :=
    trim_of_solid fun c hc => not_isBlank_of_isDigit (List.all_eq_true.1 h.2 c hc)
  have hread := Numeral.read?_digits List.mem_cons_self h.2 h.1
  obtain ⟨m, hm, hv⟩ := numeral_of_number? hn
  rw [htrim, ← List.nil_append times.toList, hread, Option.some.injEq] at hm
  subst hm
  have hs := (Numeral.value_eq_int hv).2
  simp only [List.nil_eq, reduceCtorEq, decide_false, Bool.false_eq_true, if_false] at hs
  omega

end FlowScript.Command
