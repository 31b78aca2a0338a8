import FlowScript.Proofs.Command
import FlowScript.Proofs.Command.Order

/-!
# Commands that are written down

A command without inner lines is written with one blank between its parts and no blanks around
them. What is written is read as the command again. The one part that keeps its blanks is the input
of a classifier, and it has blanks at its ends only if it is a single one.

## Main definitions

* `Command.IsAsked`: texts that can be the input of a classifier.
* `Command.Legible`: parts that can be told apart again.

## Main statements

* `Command.asked_unique`: a text that ends with a question for a classifier holds no other one.
* `Command.legible_of_read?`: the parts of what has been read can be told apart.
* `Command.read?_fetch`, `Command.read?_set`, `Command.read?_analyze` and so on: what is written is a
  line, and is read back.
-/
namespace FlowScript

open Text Scan

namespace Command

/-- A text that can stand in the middle of a form: there are no blanks at its ends, unless it is a
single blank, and no line feeds in it. -/
def IsAsked (cs : List Char) : Prop :=
  IsFree cs ∨ ∃ b, isBlank b ∧ b ≠ '\n' ∧ cs = [b]

/-- The parts of a command without inner lines can be told apart again. -/
@[simp]
def Legible : Command → Prop
  | fetch endpoint target => IsSolid endpoint.toList ∧ isWordRun target.toList
  | wait seconds => IsSolid seconds.toList
  | set target value => IsSolid target.toList ∧ IsFree (trim value.toList)
  | ret value => trim value.toList ≠ [] → IsFree (trim value.toList)
  | analyze input model => IsAsked input.toList ∧ isWordRun model.toList
  | render component target => isWordRun component.toList ∧ isWordRun target.toList
  | state name initial => isWordRun name.toList ∧ IsFree (trim initial.toList)
  | style selector properties => IsSolid selector.toList ∧ IsFree (trim properties.toList)
  | listen event handler => isWordRun event.toList ∧ isWordRun handler.toList
  | _ => True

theorem between_append {α : Type} {word : String} (h : isKeyword word) (next : Scan α)
    (cs : List Char) : between word next (' ' :: (word.toList ++ cs)) = gap next cs :=
  gap_keyword h _ cs

/-! ## The question for a classifier -/

/-- What follows the input of a classifier. -/
def asked : Scan (List Char) :=
  between "with" (word done)

/-- The name of a classifier stands behind a keyword of four letters between blanks. -/
theorem asked_eq_some {cs model : List Char} (h : asked cs = some model) :
    ∃ front word behind, cs = front ++ word ++ behind ++ model ∧ front ≠ [] ∧
      (∀ b ∈ front, isBlank b) ∧ word.length = 4 ∧ behind ≠ [] ∧ (∀ b ∈ behind, isBlank b) ∧
      isWordRun model := by
  obtain ⟨front, cs₁, rfl, hf, hfb, -, h₁⟩ := gap_eq_some_iff.1 h
  obtain ⟨cs₂, hw, h₂⟩ := Option.bind_eq_some_iff.1 h₁
  obtain ⟨word, rfl, hword⟩ := afterWord?_eq_some_iff.1 hw
  obtain ⟨behind, cs₃, rfl, hb, hbb, -, h₃⟩ := gap_eq_some_iff.1 h₂
  obtain ⟨run, after, rfl, hr, h₄⟩ := word_append_eq_some h₃
  obtain ⟨rfl, rfl⟩ := done_eq_some.1 h₄
  have hl := congrArg List.length hword
  rw [List.length_map] at hl
  exact ⟨front, word, behind, by simp, hf, hfb, hl, hb, hbb, hr⟩

/-- The last blank of a text cuts it in one way. -/
theorem append_blank_inj {front front' word word' : List Char} {b b' : Char} (hb : isBlank b)
    (hb' : isBlank b') (hw : ∀ c ∈ word, isBlank c = false) (hw' : ∀ c ∈ word', isBlank c = false)
    (h : front ++ b :: word = front' ++ b' :: word') :
    front = front' ∧ b = b' ∧ word = word' := by
  rcases List.append_eq_append_iff.1 h with ⟨more, rfl, hm⟩ | ⟨more, rfl, hm⟩
  · cases more with
    | nil =>
      obtain ⟨rfl, rfl⟩ := List.cons.inj hm
      simp
    | cons c cs =>
      -- the other blank would be a part of the word
      obtain ⟨-, rfl⟩ := List.cons.inj hm
      have := hw b' (by simp)
      simp [hb'] at this
  · cases more with
    | nil =>
      obtain ⟨rfl, rfl⟩ := List.cons.inj hm
      simp
    | cons c cs =>
      obtain ⟨-, rfl⟩ := List.cons.inj hm
      have := hw' b (by simp)
      simp [hb] at this

/-- The last word of a text and the single blank before it are found in one way only. -/
theorem append_blanks_inj {front front' behind word word' : List Char} (hb : behind ≠ [])
    (hbb : ∀ b ∈ behind, isBlank b) (hw : ∀ c ∈ word, isBlank c = false)
    (hw' : ∀ c ∈ word', isBlank c = false) (hl : ∀ c ∈ front'.getLast?, isBlank c = false)
    (h : front ++ behind ++ word = front' ++ ' ' :: word') :
    front = front' ∧ behind = [' '] ∧ word = word' := by
  obtain ⟨bs, b, rfl⟩ := (List.eq_nil_or_concat' behind).resolve_left hb
  have h' : (front ++ bs) ++ b :: word = front' ++ ' ' :: word' := by simpa using h
  obtain ⟨rfl, rfl, rfl⟩ := append_blank_inj (hbb b (by simp)) (by decide) hw hw' h'
  -- one more blank would be the last character in front of them
  rcases List.eq_nil_or_concat' bs with rfl | ⟨bs, c, rfl⟩
  · simp
  · have hc := hl c (by simp)
    simp [hbb c (by simp)] at hc

/-- The question that a text ends with, as it is written. -/
def asking (model : List Char) : List Char :=
  ' ' :: ("with".toList ++ ' ' :: model)

/-- The only question in a text that ends with one is the one at its end. -/
theorem asked_unique (before : List Char) {cs part model found : List Char} (hm : isWordRun model)
    (h : asked cs = some found) (hc : before ++ cs = part ++ asking model) :
    ∃ front, front ≠ [] ∧ (∀ b ∈ front, isBlank b) ∧ before ++ front = part ++ [' '] := by
  obtain ⟨front, word, behind, rfl, hf, hfb, hl, hb, hbb, hr⟩ := asked_eq_some h
  have hsolid {run : List Char} (hr : isWordRun run) := (IsSolid.of_isWordRun hr).solid
  have hc' : (before ++ front ++ word) ++ behind ++ found =
      (part ++ [' ', 'w', 'i', 't', 'h']) ++ ' ' :: model := by
    simpa [asking] using hc
  have hlast : ∀ c ∈ (part ++ [' ', 'w', 'i', 't', 'h']).getLast?, isBlank c = false := by
    simp only [List.getLast?_append, List.getLast?_cons, Option.some_or]
    rintro c ⟨⟩
    decide
  obtain ⟨hw, -, -⟩ := append_blanks_inj hb hbb (hsolid hr) (hsolid hm) hlast hc'
  have hw' : (before ++ front) ++ word = (part ++ [' ']) ++ ['w', 'i', 't', 'h'] := by
    simpa using hw
  exact ⟨front, hf, hfb, (List.append_inj' hw' (by simp [hl])).1⟩

theorem asked_asking {model : List Char} (hm : isWordRun model) :
    asked (asking model) = some model := by
  rw [asked, asking, between_append (by decide), gap_word_all hm]
  rfl

/-- No input stands before the question in a part of the question. -/
theorem shortest_of_asking (before cs : List Char) {model : List Char} (hm : isWordRun model)
    (hc : before ++ cs = asking model) : shortest asked cs = none := by
  by_contra hn
  obtain ⟨⟨part, found⟩, hs⟩ := Option.ne_none_iff_exists'.1 hn
  obtain ⟨after, rfl, hp, -, ha, -⟩ := shortest_minimal hs
  have hc' : (before ++ part) ++ after = [] ++ asking model := by
    rw [List.append_assoc, hc, List.nil_append]
  obtain ⟨front, hf, -, he⟩ := asked_unique (before ++ part) hm ha hc'
  rw [List.append_assoc, List.nil_append] at he
  rcases List.append_eq_singleton_iff.1 he with ⟨-, h⟩ | ⟨-, h⟩
  · rcases List.append_eq_singleton_iff.1 h with ⟨h, -⟩ | ⟨-, h⟩
    · exact hp h
    · exact hf h
  · exact hp (List.append_eq_nil_iff.1 h).1

/-- The input of a classifier that has been read. -/
theorem isAsked_of_slack {cs input model : List Char}
    (h : slack (shortest asked) cs = some (input, model)) : IsAsked input ∧ isWordRun model := by
  obtain ⟨blanks, after, -, -, -, hs, hn⟩ := slack_eq_some h
  obtain ⟨behind, rfl, hne, hl, ha, hm⟩ := shortest_minimal hn
  obtain ⟨-, -, -, -, -, -, -, -, -, hr⟩ := asked_eq_some ha
  refine ⟨?_, hr⟩
  obtain ⟨c, cs, rfl⟩ := List.exists_cons_of_ne_nil hne
  rcases List.eq_nil_or_concat' cs with rfl | ⟨mid, d, rfl⟩
  · cases hc : isBlank c with
    | true => exact .inr ⟨c, hc, fun h => hl (h ▸ List.mem_cons_self), rfl⟩
    | false => exact .inl ⟨hne, trim_of_solid (by simpa using hc), hl⟩
  · -- a blank at the start would have been passed over
    have hc : isBlank c = false := by
      by_contra hb
      rw [Bool.not_eq_false] at hb
      have hr : shortest asked ((mid ++ [d]) ++ behind) = some (mid ++ [d], model) := by
        refine shortest_append (by simp) (fun h => hl (List.mem_cons_of_mem _ h)) ha ?_
        intro front back he hf hb
        exact hm (c :: front) back (by rw [he, List.cons_append]) (by simp) hb
      rw [List.cons_append, slack, if_pos hb, hr] at hs
      simp at hs
    -- and one at the end is not a part of the shortest input
    have hd : isBlank d = false := by
      by_contra hb
      rw [Bool.not_eq_false] at hb
      have hn := hm (c :: mid) [d] rfl (by simp) (by simp)
      rw [List.singleton_append, asked, between, gap_cons hb ha] at hn
      simp at hn
    exact .inl ⟨hne, trim_eq_self hc hd, hl⟩

/-- The input of a classifier is read back. -/
theorem slack_asking {input model : List Char} (hi : IsAsked input) (hm : isWordRun model) :
    slack (shortest asked) (' ' :: (input ++ asking model)) = some (input, model) := by
  rcases hi with hi | ⟨b, hb, hl, rfl⟩
  · rw [slack_single (by decide) (hi.trimStart_append _)]
    refine shortest_append hi.ne_nil hi.oneLine (asked_asking hm) ?_
    intro front back he hf hb
    by_contra hn
    obtain ⟨found, ha⟩ := Option.ne_none_iff_exists'.1 hn
    obtain ⟨blanks, -, hbb, hbl⟩ := asked_unique [] hm ha rfl
    subst he
    refine hi.not_blank hb fun b hm => hbb b ?_
    rw [← List.nil_append blanks, hbl]
    exact List.mem_append_left _ hm
  · rw [slack, if_pos (by decide)]
    have hw : slack (shortest asked) ("with".toList ++ ' ' :: model) = none := rfl
    have h₁ := shortest_of_asking [] (asking model) hm rfl
    have h₂ := shortest_of_asking [' '] ("with".toList ++ ' ' :: model) hm rfl
    have hs : slack (shortest asked) ([b] ++ asking model) = none := by
      rw [List.singleton_append, slack, if_pos hb, h₁, asking, slack, if_pos (by decide), hw, h₂]
      rfl
    have hr : shortest asked ([b] ++ asking model) = some ([b], model) := by
      refine shortest_append (by simp) (by simpa using Ne.symm hl) (asked_asking hm) ?_
      intro front back he hf hb
      rcases List.append_eq_singleton_iff.1 he.symm with ⟨h, -⟩ | ⟨-, h⟩
      · exact absurd h hf
      · exact absurd h hb
    rw [hs, hr]
    rfl

/-! ## What has been read -/

theorem legible_defineForm : Yields defineForm Legible :=
  .keyword (.gap (.word fun _ _ => .gap_rest fun _ _ => trivial))

theorem legible_fetchForm : Yields fetchForm Legible := by
  refine .keyword (.gap (.solid fun endpoint he => ?_))
  refine .gap (.keyword (.gap (.keyword (.gap (.word fun target ht => .done ?_)))))
  simpa [pair] using ⟨he, ht⟩

theorem legible_invokeForm : Yields invokeForm Legible :=
  .keyword (.gap (.word fun _ _ => .done trivial))

theorem legible_repeatForm : Yields repeatForm Legible :=
  .either (.keyword (.slack (.map fun _ => trivial))) (.keyword (.slack (.map fun _ => trivial)))

theorem legible_forForm : Yields forForm Legible :=
  .keyword (.gap (.some1 fun _ _ _ => .gap (.keyword (.gap_rest fun _ _ => trivial))))

theorem legible_branchForm : Yields branchForm Legible :=
  .keyword (.slack (.map fun _ => trivial))

theorem legible_waitForm : Yields waitForm Legible := by
  refine .keyword (.gap (.solid fun seconds hs => .gap (.keyword ?_)))
  have h : Legible (wait (String.ofList seconds)) := by simpa using hs
  exact .either (.keyword (.done h)) (.done h)

theorem legible_setForm : Yields setForm Legible := by
  have h : Yields (gap (solid fun target => between "to" (rest fun value => pair set target value)))
      Legible := by
    refine .gap (.solid fun target ht => .gap (.keyword (.gap_rest fun value hv => ?_)))
    simpa [pair] using ⟨ht, hv⟩
  exact .either (.keyword h) (.keyword h)

theorem legible_leaveForm : Yields leaveForm Legible :=
  .keyword (.done trivial)

theorem legible_retForm : Yields retForm Legible := by
  refine .keyword (.either (.done fun h => absurd rfl h) (.gap_rest fun value hv _ => ?_))
  simpa using hv

theorem legible_analyzeForm : Yields analyzeForm Legible := by
  refine .keyword fun cs c h => ?_
  rw [slack_map, Option.map_eq_some_iff] at h
  obtain ⟨⟨input, model⟩, h, rfl⟩ := h
  simpa [pair] using isAsked_of_slack h

theorem legible_renderForm : Yields renderForm Legible := by
  refine .keyword (.gap (.word fun component hc => ?_))
  refine .gap (.keyword (.gap (.word fun target ht => .done ?_)))
  simpa [pair] using ⟨hc, ht⟩

theorem legible_stateForm : Yields stateForm Legible := by
  refine .keyword (.gap (.word fun name hn => .gap (.keyword (.gap_rest fun initial hi => ?_))))
  simpa [pair] using ⟨hn, hi⟩

theorem legible_styleForm : Yields styleForm Legible := by
  refine .keyword (.gap (.solid fun selector hs => .gap (.keyword (.gap_rest fun ps hp => ?_))))
  simpa [pair] using ⟨hs, hp⟩

theorem legible_listenForm : Yields listenForm Legible := by
  refine .keyword (.gap (.word fun event he => ?_))
  refine .gap (.keyword (.gap (.word fun handler hh => .done ?_)))
  simpa [pair] using ⟨he, hh⟩

/-- **The parts of what has been read can be told apart.** -/
theorem legible_of_read? {line verb : String} {c : Command}
    (h : read? rules line = some (verb, c)) : c.Legible := by
  obtain ⟨rule, hr, -, hc⟩ := exists_rule_of_read? h
  have hall : ∀ rule ∈ rules, Yields rule.read Legible := by
    simp only [rules, List.forall_mem_cons, List.not_mem_nil, false_imp_iff, implies_true, and_true]
    exact ⟨legible_defineForm, legible_fetchForm, legible_invokeForm, legible_repeatForm,
      legible_forForm, legible_branchForm, legible_waitForm, legible_setForm, legible_leaveForm,
      legible_retForm, legible_analyzeForm, legible_renderForm, legible_stateForm,
      legible_styleForm, legible_listenForm⟩
  exact hall rule hr _ _ hc

/-! ## What is written -/

theorem read?_fetch {endpoint target : String} (he : IsSolid endpoint.toList)
    (ht : isWordRun target.toList) :
    read? rules (trimmed (.join ["call ", endpoint, " store in ", target])) =
      some ("call", fetch endpoint target) := by
  have hs : (String.join ["call ", endpoint, " store in ", target]).toList =
      "call".toList ++ ' ' :: (endpoint.toList ++ ' ' :: ("store".toList ++
        ' ' :: ("in".toList ++ ' ' :: target.toList))) := by
    simp
  have hf : fetchForm (String.join ["call ", endpoint, " store in ", target]).toList =
      some (fetch endpoint target) := by
    rw [hs, fetchForm, keyword_append (by decide), gap_solid he, gap_keyword (by decide),
      between_append (by decide), gap_word_all ht]
    simp [pair, done]
  have hw := (IsSolid.of_isWordRun ht).isFree
  rw [trimmed_join "call " [endpoint, " store in ", target] (by simp) (by decide)
    hw.ne_nil hw.trimEnd_eq]
  exact read?_of_mem (by simp [rules]) hf

theorem read?_wait {seconds : String} (hsec : IsSolid seconds.toList) :
    read? rules (trimmed (.join ["wait ", seconds, " seconds"])) = some ("wait", wait seconds) := by
  have hs : (String.join ["wait ", seconds, " seconds"]).toList =
      "wait".toList ++ ' ' :: (seconds.toList ++ ' ' :: ("second".toList ++
        "s".toList)) := by
    simp
  have hf : waitForm (String.join ["wait ", seconds, " seconds"]).toList = some (wait seconds) := by
    rw [hs, waitForm, keyword_append (by decide), gap_solid hsec, gap_keyword (by decide),
      String.ofList_toList]
    rfl
  have ht : trimEnd " seconds".toList = " seconds".toList := by decide
  rw [trimmed_join "wait " [seconds, " seconds"] (by simp) (by decide) (by simp) ht]
  exact read?_of_mem (by simp [rules]) hf

theorem read?_set {target value : String} (ht : IsSolid target.toList)
    (hv : IsFree value.toList) :
    read? rules (trimmed (.join ["set ", target, " to ", value])) =
      some ("set", set target value) := by
  have hs : (String.join ["set ", target, " to ", value]).toList =
      "set".toList ++ ' ' :: (target.toList ++ ' ' :: ("to".toList ++
        ' ' :: value.toList)) := by
    simp
  have hf : setForm (String.join ["set ", target, " to ", value]).toList =
      some (set target value) := by
    rw [hs, setForm, either, keyword_append (by decide), gap_solid ht, between_append (by decide),
      gap_rest hv]
    simp [pair]
  rw [trimmed_join "set " [target, " to ", value] (by simp) (by decide)
    hv.ne_nil hv.trimEnd_eq]
  exact read?_of_mem (by simp [rules]) hf

theorem read?_leave : read? rules (trimmed "break") = some ("break", leave) := by
  decide

theorem read?_ret {value : String} (hv : IsFree value.toList) :
    read? rules (trimmed (.join ["return ", value])) = some ("return", ret value) := by
  have hs : (String.join ["return ", value]).toList =
      "return".toList ++ ' ' :: value.toList := by
    simp
  have hf : retForm (String.join ["return ", value]).toList = some (ret value) := by
    rw [hs, retForm, keyword_append (by decide), either, gap_rest hv]
    simp [done]
  rw [trimmed_join "return " [value] (by simp) (by decide)
    hv.ne_nil hv.trimEnd_eq]
  exact read?_of_mem (by simp [rules]) hf

theorem read?_analyze {input model : String} (hi : IsAsked input.toList)
    (hm : isWordRun model.toList) :
    read? rules (trimmed (.join ["analyze ", input, " with ", model])) =
      some ("analyze", analyze input model) := by
  have hs : (String.join ["analyze ", input, " with ", model]).toList =
      "analyze".toList ++ ' ' :: (input.toList ++ asking model.toList) := by
    simp [asking]
  have hf : analyzeForm (String.join ["analyze ", input, " with ", model]).toList =
      some (analyze input model) := by
    rw [hs, analyzeForm, keyword_append (by decide), slack_map,
      show shortest (between "with" (word done)) = shortest asked from rfl, slack_asking hi hm]
    simp [pair]
  have hw := (IsSolid.of_isWordRun hm).isFree
  rw [trimmed_join "analyze " [input, " with ", model] (by simp) (by decide)
    hw.ne_nil hw.trimEnd_eq]
  exact read?_of_mem (by simp [rules]) hf

example : read? rules "analyze   with m" = some ("analyze", analyze " " "m") := by decide

theorem read?_render {component target : String} (hc : isWordRun component.toList)
    (ht : isWordRun target.toList) :
    read? rules (trimmed (.join ["render ", component, " as ", target])) =
      some ("render", render component target) := by
  have hs : (String.join ["render ", component, " as ", target]).toList =
      "render".toList ++ ' ' :: (component.toList ++ ' ' :: ("as".toList ++
        ' ' :: target.toList)) := by
    simp
  have hf : renderForm (String.join ["render ", component, " as ", target]).toList =
      some (render component target) := by
    rw [hs, renderForm, keyword_append (by decide), gap_word hc, between_append (by decide),
      gap_word_all ht]
    simp [pair, done]
  have hw := (IsSolid.of_isWordRun ht).isFree
  rw [trimmed_join "render " [component, " as ", target] (by simp) (by decide)
    hw.ne_nil hw.trimEnd_eq]
  exact read?_of_mem (by simp [rules]) hf

theorem read?_state {name initial : String} (hn : isWordRun name.toList)
    (hi : IsFree initial.toList) :
    read? rules (trimmed (.join ["state ", name, " as ", initial])) =
      some ("state", state name initial) := by
  have hs : (String.join ["state ", name, " as ", initial]).toList =
      "state".toList ++ ' ' :: (name.toList ++ ' ' :: ("as".toList ++
        ' ' :: initial.toList)) := by
    simp
  have hf : stateForm (String.join ["state ", name, " as ", initial]).toList =
      some (state name initial) := by
    rw [hs, stateForm, keyword_append (by decide), gap_word hn, between_append (by decide),
      gap_rest hi]
    simp [pair]
  rw [trimmed_join "state " [name, " as ", initial] (by simp) (by decide)
    hi.ne_nil hi.trimEnd_eq]
  exact read?_of_mem (by simp [rules]) hf

theorem read?_style {selector properties : String} (hsel : IsSolid selector.toList)
    (hp : IsFree properties.toList) :
    read? rules (trimmed (.join ["style ", selector, " with ", properties])) =
      some ("style", style selector properties) := by
  have hs : (String.join ["style ", selector, " with ", properties]).toList =
      "style".toList ++ ' ' :: (selector.toList ++ ' ' :: ("with".toList ++
        ' ' :: properties.toList)) := by
    simp
  have hf : styleForm (String.join ["style ", selector, " with ", properties]).toList =
      some (style selector properties) := by
    rw [hs, styleForm, keyword_append (by decide), gap_solid hsel, between_append (by decide),
      gap_rest hp]
    simp [pair]
  rw [trimmed_join "style " [selector, " with ", properties] (by simp) (by decide)
    hp.ne_nil hp.trimEnd_eq]
  exact read?_of_mem (by simp [rules]) hf

theorem read?_listen {event handler : String} (he : isWordRun event.toList)
    (hh : isWordRun handler.toList) :
    read? rules (trimmed (.join ["on ", event, " execute ", handler])) =
      some ("on", listen event handler) := by
  have hs : (String.join ["on ", event, " execute ", handler]).toList =
      "on".toList ++ ' ' :: (event.toList ++ ' ' :: ("execute".toList ++
        ' ' :: handler.toList)) := by
    simp
  have hf : listenForm (String.join ["on ", event, " execute ", handler]).toList =
      some (listen event handler) := by
    rw [hs, listenForm, keyword_append (by decide), gap_word he, between_append (by decide),
      gap_word_all hh]
    simp [pair, done]
  have hw := (IsSolid.of_isWordRun hh).isFree
  rw [trimmed_join "on " [event, " execute ", handler] (by simp) (by decide)
    hw.ne_nil hw.trimEnd_eq]
  exact read?_of_mem (by simp [rules]) hf

end Command
end FlowScript
