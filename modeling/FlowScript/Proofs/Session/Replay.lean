import FlowScript.Proofs.Command.Written
import FlowScript.Proofs.Numeric.Decimal
import FlowScript.Proofs.Session.Adequacy
import FlowScript.Proofs.Session.Each
import FlowScript.Proofs.Value.Counter

/-!
# Phrases that are carried out again

The phrase of an action is either written down by its command or the description of the action.
In both cases it is a line, and a fresh session makes the same action of it, with the same phrase.

## Main definitions

* `Step.Replays`: the phrase of an action makes the action again.

## Main statements

* `Command.replays_of_performs`: the actions of commands are made again.
* `Step.inherent_replays`: so are those that the counters of loops bring with them.
-/
namespace FlowScript

open Text

theorem Compile.commaParts_trim (cs : List Char) : commaParts (trim cs) = commaParts cs := by
  rw [commaParts, commaParts, trim, map_trim_splitOn_trimEnd, map_trim_splitOn_trimStart]

/-! ## Actions -/

/-- A fresh session makes an action of its phrase again, as the first step, and reports nothing. -/
def Step.Replays (i : Step.Info) (a : Action) : Prop :=
  ∃ u, Compile.line i.phrase {} = .ok [.act { i with id := stepId 1 } a] u ∧ u.diagnostics = []

/-- An action is made again if its phrase is read as a command that comes to it and has the same
phrase, be it a phrase of its own or the description of the action. -/
theorem Step.replays_of_read? {id phrase phrase' text verb : String} {a : Action} {c : Command}
    {types : Registry String}
    (hp : (Step.Info.of id a.describe phrase [] a.access).phrase = text)
    (hp' : (Step.Info.of id a.describe phrase' [] a.access).phrase = text)
    (hread : Command.read? Command.rules (trimmed text) = some (verb, c))
    (h : c.Performs (Session.types {}) a phrase' types) :
    Step.Replays (.of id a.describe phrase [] a.access) a := by
  obtain ⟨t, hl, -, -, hd⟩ := Compile.line_of_performs (s := {}) rfl hread h
  have hi : Step.Info.of (stepId 1) a.describe phrase' [] a.access =
      { Step.Info.of id a.describe phrase [] a.access with id := stepId 1 } := by
    simp only [Step.Info.of] at hp hp'
    simp only [Step.Info.of, hp, hp']
  subst hp
  exact ⟨t, by rw [hl, Step.single, hi], hd⟩

theorem Step.replays_of_described {id verb : String} {a : Action} {c : Command}
    {types : Registry String}
    (hread : Command.read? Command.rules (trimmed a.describe) = some (verb, c))
    (h : c.Performs (Session.types {}) a "" types) :
    Step.Replays (.of id a.describe "" [] a.access) a :=
  Step.replays_of_read? rfl rfl hread h

theorem Step.Info.phrase_of_join {id description first : String} {more examples : List String}
    {access : Access} (hf : first ≠ "") :
    (Step.Info.of id description (.join (first :: more)) examples access).phrase =
      .join (first :: more) := by
  have hne : (String.join (first :: more)).isEmpty = false := by
    simp [hf]
  simp only [Step.Info.of, hne, Bool.false_eq_true, if_false]

theorem Step.replays_of_written {id verb first : String} {more : List String} {a : Action}
    {c : Command} {types : Registry String} (hf : first ≠ "")
    (hread : Command.read? Command.rules (trimmed (.join (first :: more))) = some (verb, c))
    (h : c.Performs (Session.types {}) a (.join (first :: more)) types) :
    Step.Replays (.of id a.describe (.join (first :: more)) [] a.access) a :=
  Step.replays_of_read? (Step.Info.phrase_of_join hf) (Step.Info.phrase_of_join hf) hread h

namespace Command

theorem trimmed_trimmed (s : String) : trimmed (trimmed s) = trimmed s := by
  rw [trimmed, trimmed, String.toList_ofList, trim_trim]

/-- **The actions of commands are made again by their phrases.** -/
theorem replays_of_performs {line verb phrase : String} {c : Command} {a : Action}
    {types types' : Registry String} (hread : read? rules line = some (verb, c))
    (h : c.Performs types a phrase types') (id : String) :
    Step.Replays (.of id a.describe phrase [] a.access) a := by
  have hl := legible_of_read? hread
  have ht (s : String) : (trimmed s).toList = trim s.toList := String.toList_ofList
  cases h with
  | fetch endpoint target =>
    exact Step.replays_of_written (by decide) (read?_fetch hl.1 hl.2) (.fetch endpoint target)
  | wait hn h0 =>
    have hs := IsSolid.of_isWordRun (isWordRun_toString h0)
    exact Step.replays_of_described (read?_wait hs) (.wait (number?_toString hn h0) h0)
  | @set target raw value hi hv =>
    rw [← Value.read_trim, ← ht] at hv
    have hc : (set target (trimmed raw)).Performs (Session.types {}) _ _ _ := .set hi hv
    rw [trimmed_trimmed] at hc
    exact Step.replays_of_written (by decide) (read?_set hl.1 (ht raw ▸ hl.2)) hc
  | leave => exact Step.replays_of_described read?_leave .leave
  | @ret raw value hr hv =>
    have hne : trim raw.toList ≠ [] := by
      rw [← ht]
      simpa using hr
    rw [← Value.read_trim, ← ht] at hv
    have hr' : (trimmed (trimmed raw)).isEmpty = false := by
      rw [trimmed_trimmed]
      exact hr
    have hc : (ret (trimmed raw)).Performs (Session.types {}) _ _ _ := .ret hr' hv
    rw [trimmed_trimmed] at hc
    exact Step.replays_of_written (by decide) (read?_ret (ht raw ▸ hl hne)) hc
  | @analyze raw model input h =>
    have hc : (analyze raw model).Performs (Session.types {}) _ _ _ := .analyze h
    exact Step.replays_of_written (by decide) (read?_analyze hl.1 hl.2) hc
  | render component target =>
    exact Step.replays_of_described (read?_render hl.1 hl.2) (.render component target)
  | @state name raw initial h =>
    rw [← Expr.read_trim, ← ht] at h
    have hc : (state name (trimmed raw)).Performs (Session.types {}) _ _ _ := .state h
    rw [trimmed_trimmed] at hc
    exact Step.replays_of_written (by decide) (read?_state hl.1 (ht raw ▸ hl.2)) hc
  | style selector raw =>
    have hc : (style selector (trimmed raw)).Performs (Session.types {}) _ _ _ := .style _ _
    rw [trimmed_trimmed, ht, Compile.commaParts_trim] at hc
    exact Step.replays_of_written (by decide) (read?_style hl.1 (ht raw ▸ hl.2)) hc
  | listen event handler =>
    exact Step.replays_of_described (read?_listen hl.1 hl.2) (.listen event handler)

end Command

/-! ## Counters of loops -/

/-- An assignment without a phrase is made again if its value is read from its text. -/
theorem Step.replays_set {id target : String} {value : Value} (ht : IsSolid target.toList)
    (hi : isIdentifier target) (hf : IsFree value.text.toList)
    (hv : Value.read value.text.toList = .ok value) :
    Step.Replays (.of id (Action.set target value).describe "" [] .execute) (.set target value) := by
  have htrim : trimmed value.text = value.text := by
    rw [trimmed, hf.trim_eq, String.ofList_toList]
  have hc : (Command.set target value.text).Performs (Session.types {}) _ _ _ := .set hi hv
  rw [htrim] at hc
  exact Step.replays_of_read? rfl (Step.Info.phrase_of_join (by decide)) (Command.read?_set ht hf) hc

namespace Step

/-- **The actions of a workflow are made again by their phrases**, those of loops included. -/
theorem inherent_replays : Inherent Replays fun _ => True where
  renamed _ _ _ h := h
  act id hread h := Command.replays_of_performs hread h id
  first n id hn := by
    have hc := isCounter_loopCounter hn
    have ht : (Value.expr (.ofInt 0)).text.toList = ['0'] := by decide
    have hf : IsFree ['0'] := ⟨by decide, by decide, by decide⟩
    exact replays_set hc.isSolid (isIdentifier_loopCounter hn) (ht ▸ hf) (ht ▸ Value.read_zero)
  next n id hn := by
    have hc := isCounter_loopCounter hn
    have hv := Value.read_succ hc
    rw [String.ofList_toList] at hv
    have ht := Value.toList_text_succ (loopCounter (stepId n))
    rw [← ht] at hv
    exact replays_set hc.isSolid (isIdentifier_loopCounter hn) (ht ▸ isFree_succText hc) hv
  below _ _ _ := trivial
  condition _ _ := trivial

end Step
end FlowScript
