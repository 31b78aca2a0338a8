import FlowScript.Proofs.Step.Each
import FlowScript.Proofs.Tree.Recorded

/-!
# What the record of a step tells

The canonical text of a step's document is what is recorded of the step. It tells the step in every
detail, the steps inside it included. The properties of a component are values by name, so their
order is no detail.

## Main definitions

* `Step.IsExact`: steps whose literals are integers, truth values and texts, and whose components
  have texts as properties.
* `Step.Alike`: steps that are equal but for the order of properties.

## Main statements

* `Step.info_eq_of_sorted`, `Action.alike_of_sorted`: the descriptive part and the action of a step
  are told by its document.
* `Step.canonical_toJson_eq_iff`: the steps with one record.
-/
namespace FlowScript

open Json

namespace Action

/-- An action whose literals are integers, truth values and texts, and whose properties are texts,
one for each name. -/
def IsExact : Action → Prop
  | set _ value => value.tree.IsExact
  | wait seconds => seconds.isLiteral ∧ seconds.IsExact
  | ret value => value.tree.IsExact
  | analyze _ input _ => input.IsExact
  | render _ _ props => (∀ p ∈ props, ∃ s, p.2 = .string s) ∧ (props.map (·.1)).Nodup
  | state _ initial => initial.IsExact
  | _ => True

/-- Two actions are equal but for the order of properties. -/
def Alike : Action → Action → Prop
  | render component target props, b =>
    ∃ props', b = render component target props' ∧ props.Perm props'
  | a, b => a = b

end Action

namespace Step

/-- A step whose literals are integers, truth values and texts, and whose components have texts as
properties, at all depths. -/
def IsExact (s : Step) : Prop :=
  Each (fun _ a => a.IsExact) (fun c => c.tree.IsExact) s

/-- Steps whose literals are integers, truth values and texts, and whose components have texts as
properties, at all depths. -/
def AllExact (ss : List Step) : Prop :=
  EachAll (fun _ a => a.IsExact) (fun c => c.tree.IsExact) ss

mutual

/-- Two steps are equal but for the order of properties. -/
def Alike : Step → Step → Prop
  | act i a, t => ∃ b, t = act i b ∧ a.Alike b
  | branch i c yes no, t =>
    ∃ yes' no', t = branch i c yes' no' ∧ AllAlike yes yes' ∧ AllAlike no no'
  | loop i c body, t => ∃ body', t = loop i c body' ∧ AllAlike body body'
termination_by structural s => s

/-- Two lists of steps are equal but for the order of properties. -/
def AllAlike : List Step → List Step → Prop
  | [], ts => ts = []
  | s :: ss, ts => ∃ t ts', ts = t :: ts' ∧ Alike s t ∧ AllAlike ss ts'
termination_by structural ss => ss

end

end Step

/-! ## Documents without doubles -/

namespace Action

theorem IsExact.members {a : Action} (h : a.IsExact) : AllExactValues a.members := by
  cases a with
  | set target value => exact ⟨trivial, Tree.IsExact.toJson h, trivial⟩
  | wait seconds => exact ⟨⟨trivial, h.2, trivial⟩, trivial⟩
  | ret value => exact ⟨Tree.IsExact.toJson h, trivial⟩
  | leave => trivial
  | call target endpoint => exact ⟨trivial, trivial, trivial⟩
  | analyze model input target => exact ⟨trivial, Tree.IsExact.toJson h, trivial, trivial⟩
  | render component target props =>
    have hp : AllExactValues props := by
      apply allExactValues_iff.2
      intro p hp
      obtain ⟨s, hs⟩ := h.1 p hp
      rw [hs]
      trivial
    exact ⟨⟨trivial, hp, trivial, trivial, trivial⟩, trivial, trivial⟩
  | state name initial => exact ⟨⟨trivial, Tree.IsExact.toJson h, trivial⟩, trivial⟩
  | style selector properties framework =>
    exact ⟨⟨trivial, isExact_ofStrings properties, trivial, trivial⟩, trivial⟩
  | listen event handler => exact ⟨⟨trivial, trivial, trivial⟩, trivial⟩
  | plain => trivial

end Action

namespace Step

theorem isExact_document {own : Members} (h : AllExactValues own) (i : Info) (type : String) :
    (document i type own).IsExact := by
  have hown := allExactValues_iff.1 h
  have hinfo : AllExactValues i.members :=
    ⟨trivial, isExact_ofStrings _, ⟨isExact_ofStrings _, isExact_ofStrings _, trivial⟩, trivial⟩
  refine ⟨trivial, trivial, allExactValues_iff.2 fun m hm => ?_⟩
  rcases List.mem_append.1 hm with hm | hm
  · exact hown m hm
  · exact allExactValues_iff.1 hinfo m hm

mutual

theorem IsExact.toJson : (s : Step) → s.IsExact → s.toJson.IsExact
  | act i a, h => isExact_document (Action.IsExact.members h) i a.type
  | branch i c yes no, h => by
    have hc : c.toJson.IsExact := Tree.IsExact.toJson h.1
    have hy : Json.IsExact (.array (toJsons yes)) := AllExact.toJsons yes h.2.1
    have hn : Json.IsExact (.array (toJsons no)) := AllExact.toJsons no h.2.2
    apply isExact_document
    exact ⟨hc, hy, hn, trivial⟩
  | loop i c body, h => by
    have hc : c.toJson.IsExact := Tree.IsExact.toJson h.1
    have hb : Json.IsExact (.array (toJsons body)) := AllExact.toJsons body h.2
    apply isExact_document
    exact ⟨hc, hb, trivial⟩
termination_by structural s => s

theorem AllExact.toJsons : (ss : List Step) → AllExact ss → Json.AllExact (toJsons ss)
  | [], _ => trivial
  | s :: ss, h => ⟨IsExact.toJson s h.1, AllExact.toJsons ss h.2⟩
termination_by structural ss => ss

end

/-! ## Descriptive parts -/

/-- The keys of the descriptive part. -/
def infoKeys : List String := ["nl_phrase", "nl_examples", "access_control"]

theorem member?_document {key : String} (hk : key ∈ infoKeys) (i : Info) (type : String)
    {own : Members} (ho : lookup? key own = none) :
    (document i type own).member? key = lookup? key i.members := by
  have hid : ∀ key ∈ infoKeys, ("id" == key) = false ∧ ("type" == key) = false := by decide
  have hfind : own.find? (·.1 == key) = none := by simpa [lookup?] using ho
  simp only [document, member?, lookup?, List.cons_append, List.find?_cons, hid key hk,
    List.find?_append, hfind, Option.none_or]

/-- The descriptive part of a step is told by its document. -/
theorem info_eq_of_sorted {i j : Info} {type type' : String} {own own' : Members}
    (ho : ∀ key ∈ infoKeys, lookup? key own = none)
    (ho' : ∀ key ∈ infoKeys, lookup? key own' = none)
    (h : (document i type own).sorted = (document j type' own').sorted) : i = j := by
  have hpart (key : String) (hk : key ∈ infoKeys) {v w : Json}
      (hv : lookup? key i.members = some v) (hw : lookup? key j.members = some w) :
      v.sorted = w.sorted :=
    sorted_part key h ((member?_document hk i type (ho key hk)).trans hv)
      ((member?_document hk j type' (ho' key hk)).trans hw)
  have hid : i.id = j.id := string.inj (sorted_part "id" h rfl rfl)
  have hphrase : i.phrase = j.phrase := string.inj (hpart "nl_phrase" (by decide) rfl rfl)
  have hexamples : (ofStrings i.examples).sorted = (ofStrings j.examples).sorted :=
    hpart "nl_examples" (by decide) rfl rfl
  have haccess : i.access.toJson.sorted = j.access.toJson.sorted :=
    hpart "access_control" (by decide) rfl rfl
  have hroles : (ofStrings i.access.roles).sorted = (ofStrings j.access.roles).sorted :=
    sorted_part "roles" haccess rfl rfl
  have hpermissions : (ofStrings i.access.permissions).sorted =
      (ofStrings j.access.permissions).sorted :=
    sorted_part "permissions" haccess rfl rfl
  rw [sorted_ofStrings, sorted_ofStrings] at hexamples hroles hpermissions
  obtain ⟨id, phrase, examples, roles, permissions⟩ := i
  obtain ⟨id', phrase', examples', roles', permissions'⟩ := j
  obtain rfl : id = id' := hid
  obtain rfl : phrase = phrase' := hphrase
  obtain rfl : examples = examples' := ofStrings_injective hexamples
  obtain rfl : roles = roles' := ofStrings_injective hroles
  obtain rfl : permissions = permissions' := ofStrings_injective hpermissions
  rfl

end Step

namespace Action

theorem lookup?_members (a : Action) : ∀ key ∈ Step.infoKeys, lookup? key a.members = none := by
  intro key hk
  simp only [Step.infoKeys, List.mem_cons, List.not_mem_nil, or_false] at hk
  rcases hk with rfl | rfl | rfl <;> cases a <;> rfl

theorem perm_of_sorted {ps qs : Members} (hp : ∀ p ∈ ps, ∃ s, p.2 = .string s)
    (hq : ∀ q ∈ qs, ∃ s, q.2 = .string s) (h : (object ps).sorted = (object qs).sorted) :
    ps.Perm qs := by
  have htexts {ps : Members} (hp : ∀ p ∈ ps, ∃ s, p.2 = .string s) : sortedValues ps = ps := by
    have hmap : ps.map (fun p => (p.1, p.2.sorted)) = ps.map id := by
      apply List.map_congr_left
      intro p hm
      obtain ⟨s, hs⟩ := hp p hm
      simp [Prod.ext_iff, hs, sorted]
    rw [sortedValues_eq_map, hmap, List.map_id]
  simp only [sorted, htexts hp, htexts hq, object.injEq] at h
  exact (perm_sortMembers ps).symm.trans (h ▸ perm_sortMembers qs)

/-- The action of a step is told by its document. -/
theorem alike_of_sorted {a b : Action} {i j : Step.Info} (ha : a.IsExact) (hb : b.IsExact)
    (h : (Step.document i a.type a.members).sorted = (Step.document j b.type b.members).sorted) :
    a.Alike b := by
  have htype : a.type = b.type := string.inj (sorted_part "type" h rfl rfl)
  cases a with
  | set target value =>
    cases b with
    | set target' value' =>
      have ht : target = target' := string.inj (sorted_part "target" h rfl rfl)
      have hv := Value.eq_of_sorted ha hb (sorted_part "value" h rfl rfl)
      rw [ht, hv]
      rfl
    | _ => simp [type] at htype
  | wait seconds =>
    cases b with
    | wait seconds' =>
      have hs : seconds.sorted = seconds'.sorted :=
        sorted_part "value" (sorted_part "duration" h rfl rfl) rfl rfl
      rw [sorted_of_isLiteral ha.1, sorted_of_isLiteral hb.1] at hs
      rw [hs]
      rfl
    | _ => simp [type] at htype
  | ret value =>
    cases b with
    | ret value' =>
      rw [Value.eq_of_sorted ha hb (sorted_part "value" h rfl rfl)]
      rfl
    | _ => simp [type] at htype
  | leave =>
    cases b with
    | leave => rfl
    | _ => simp [type] at htype
  | call target endpoint =>
    cases b with
    | call target' endpoint' =>
      have ht : target = target' := string.inj (sorted_part "target" h rfl rfl)
      have he : endpoint = endpoint' := string.inj (sorted_part "endpoint" h rfl rfl)
      rw [ht, he]
      rfl
    | _ => simp [type] at htype
  | analyze model input target =>
    cases b with
    | analyze model' input' target' =>
      have hm : model = model' := string.inj (sorted_part "model" h rfl rfl)
      have hi := Tree.eq_of_sorted ha hb (sorted_part "input" h rfl rfl)
      have ht : target = target' := string.inj (sorted_part "target" h rfl rfl)
      rw [hm, hi, ht]
      rfl
    | _ => simp [type] at htype
  | render component target props =>
    cases b with
    | render component' target' props' =>
      have hc := sorted_part "component" h rfl rfl
      have hname : component = component' := string.inj (sorted_part "type" hc rfl rfl)
      have ht : target = target' := string.inj (sorted_part "target" h rfl rfl)
      have hp : (object props).sorted = (object props').sorted := sorted_part "props" hc rfl rfl
      rw [hname, ht]
      exact ⟨props', rfl, perm_of_sorted ha.1 hb.1 hp⟩
    | _ => simp [type] at htype
  | state name initial =>
    cases b with
    | state name' initial' =>
      have hs := sorted_part "state" h rfl rfl
      have hn : name = name' := string.inj (sorted_part "name" hs rfl rfl)
      rw [hn, Tree.eq_of_sorted ha hb (sorted_part "initial" hs rfl rfl)]
      rfl
    | _ => simp [type] at htype
  | style selector properties framework =>
    cases b with
    | style selector' properties' framework' =>
      have hs := sorted_part "styles" h rfl rfl
      have hn : selector = selector' := string.inj (sorted_part "selector" hs rfl rfl)
      have hp : (ofStrings properties).sorted = (ofStrings properties').sorted :=
        sorted_part "properties" hs rfl rfl
      have hf : framework = framework' := string.inj (sorted_part "framework" hs rfl rfl)
      rw [sorted_ofStrings, sorted_ofStrings] at hp
      rw [hn, ofStrings_injective hp, hf]
      rfl
    | _ => simp [type] at htype
  | listen event handler =>
    cases b with
    | listen event' handler' =>
      have he := sorted_part "event" h rfl rfl
      have hn : event = event' := string.inj (sorted_part "type" he rfl rfl)
      have hh : handler = handler' := string.inj (sorted_part "handler" he rfl rfl)
      rw [hn, hh]
      rfl
    | _ => simp [type] at htype
  | plain =>
    cases b with
    | plain => rfl
    | _ => simp [type] at htype

/-- Properties in another order stand in the same document. -/
theorem sorted_of_alike {a b : Action} (ha : a.IsExact) (h : a.Alike b) :
    a.type = b.type ∧ sortedValues a.members = sortedValues b.members := by
  cases a with
  | render component target props =>
    obtain ⟨props', rfl, hp⟩ := h
    have hkeys : ((sortedValues props).map (·.1)).Nodup := by
      rw [sortedValues_eq_map, List.map_map]
      exact ha.2
    have hsorted : sortMembers (sortedValues props) = sortMembers (sortedValues props') := by
      rw [sortMembers_eq_iff hkeys, sortedValues_eq_map, sortedValues_eq_map]
      exact hp.map _
    simp only [type, members, sortedValues, sorted, hsorted, and_self]
  | _ =>
    cases h
    exact ⟨rfl, rfl⟩

end Action

namespace Step

/-! ## Steps -/

theorem sorted_document_congr {own own' : Members} (h : sortedValues own = sortedValues own')
    (i : Info) (type : String) :
    (document i type own).sorted = (document i type own').sorted := by
  simp only [sortedValues_eq_map] at h
  simp only [document, sorted, sortedValues_eq_map, List.map_append, List.map_cons, h]

mutual

/-- A step is told by its document. -/
theorem alike_of_sorted : (s : Step) → ∀ {t : Step}, s.IsExact → t.IsExact →
    s.toJson.sorted = t.toJson.sorted → s.Alike t
  | act i a, t, hs, ht, h => by
    cases t with
    | act j b =>
      obtain rfl := info_eq_of_sorted a.lookup?_members b.lookup?_members h
      exact ⟨b, rfl, Action.alike_of_sorted hs ht h⟩
    | _ =>
      have htype := string.inj (sorted_part "type" h rfl rfl)
      cases a <;> simp [Action.type] at htype
  | branch i c yes no, t, hs, ht, h => by
    cases t with
    | branch j d yes' no' =>
      obtain rfl := info_eq_of_sorted (by simp [infoKeys, lookup?]) (by simp [infoKeys, lookup?]) h
      have hc : c = d := Condition.eq_of_sorted hs.1 ht.1 (sorted_part "condition" h rfl rfl)
      have hy := sorted_part "then" h rfl rfl
      have hn := sorted_part "else" h rfl rfl
      rw [hc]
      exact ⟨yes', no', rfl, allAlike_of_sorted yes hs.2.1 ht.2.1 (array.inj hy),
        allAlike_of_sorted no hs.2.2 ht.2.2 (array.inj hn)⟩
    | act j b =>
      have htype := string.inj (sorted_part "type" h rfl rfl)
      cases b <;> simp [Action.type] at htype
    | loop j d body =>
      have htype := string.inj (sorted_part "type" h rfl rfl)
      simp at htype
  | loop i c body, t, hs, ht, h => by
    cases t with
    | loop j d body' =>
      obtain rfl := info_eq_of_sorted (by simp [infoKeys, lookup?]) (by simp [infoKeys, lookup?]) h
      have hc : c = d := Condition.eq_of_sorted hs.1 ht.1 (sorted_part "condition" h rfl rfl)
      have hb := sorted_part "body" h rfl rfl
      rw [hc]
      exact ⟨body', rfl, allAlike_of_sorted body hs.2 ht.2 (array.inj hb)⟩
    | act j b =>
      have htype := string.inj (sorted_part "type" h rfl rfl)
      cases b <;> simp [Action.type] at htype
    | branch j d yes no =>
      have htype := string.inj (sorted_part "type" h rfl rfl)
      simp at htype
termination_by structural s => s

theorem allAlike_of_sorted : (ss : List Step) → ∀ {ts : List Step}, AllExact ss → AllExact ts →
    sortedItems (toJsons ss) = sortedItems (toJsons ts) → AllAlike ss ts
  | [], [], _, _, _ => rfl
  | [], t :: ts, _, _, h => by simp [toJsons, sortedItems] at h
  | s :: ss, [], _, _, h => by simp [toJsons, sortedItems] at h
  | s :: ss, t :: ts, hs, ht, h => by
    simp only [toJsons, sortedItems, List.cons.injEq] at h
    exact ⟨t, ts, rfl, alike_of_sorted s hs.1 ht.1 h.1, allAlike_of_sorted ss hs.2 ht.2 h.2⟩
termination_by structural ss => ss

end

mutual

theorem sorted_of_alike : (s : Step) → ∀ {t : Step}, s.IsExact → s.Alike t →
    s.toJson.sorted = t.toJson.sorted
  | act i a, _, hs, ⟨b, rfl, h⟩ => by
    obtain ⟨htype, hown⟩ := Action.sorted_of_alike hs h
    rw [toJson, toJson, htype]
    exact sorted_document_congr hown i b.type
  | branch i c yes no, _, hs, ⟨yes', no', rfl, hy, hn⟩ => by
    have hy := sorted_of_allAlike yes hs.2.1 hy
    have hn := sorted_of_allAlike no hs.2.2 hn
    apply sorted_document_congr
    simp only [sortedValues, sorted, hy, hn]
  | loop i c body, _, hs, ⟨body', rfl, h⟩ => by
    have hb := sorted_of_allAlike body hs.2 h
    apply sorted_document_congr
    simp only [sortedValues, sorted, hb]
termination_by structural s => s

theorem sorted_of_allAlike : (ss : List Step) → ∀ {ts : List Step}, AllExact ss →
    AllAlike ss ts → sortedItems (toJsons ss) = sortedItems (toJsons ts)
  | [], _, _, rfl => rfl
  | s :: ss, _, hs, ⟨t, ts, rfl, h, hr⟩ => by
    rw [toJsons, toJsons, sortedItems, sortedItems, sorted_of_alike s hs.1 h,
      sorted_of_allAlike ss hs.2 hr]
termination_by structural ss => ss

end

/-- **The steps with one record.** Two steps whose literals are integers, truth values and texts,
and whose components have texts as properties, have one canonical text if and only if they are equal
in every detail at every depth, the order of properties apart. -/
theorem canonical_toJson_eq_iff {s t : Step} (hs : s.IsExact) (ht : t.IsExact) :
    s.toJson.canonical = t.toJson.canonical ↔ s.Alike t := by
  rw [canonical_eq_iff (IsExact.toJson s hs) (IsExact.toJson t ht)]
  constructor
  · exact alike_of_sorted s hs ht
  · exact sorted_of_alike s hs

/-- A loop that shows a component with some properties and assigns a literal. -/
def showing (props : Members) (value : Json) : Step :=
  let info (id : String) : Info := .of id "" "show" [] .execute
  loop (info "step3") (.contains "title" "a.b") [act (info "step1") (.render "Card" "pane" props),
    act (info "step2") (.set "shown" (.expr (.literal value)))]

/-- The order of properties does not show in the record; a truth value and a number do. -/
theorem canonical_toJson_showing :
    let props := [("className", Json.string "wide"), ("title", .string "a\"b")]
    (showing props (.bool true)).IsExact ∧ (showing props.reverse (.bool true)).IsExact ∧
      (showing props (.ofInt 1)).IsExact ∧
      (showing props (.bool true)).toJson.canonical =
        (showing props.reverse (.bool true)).toJson.canonical ∧
      (showing props (.bool true)).toJson.canonical ≠
        (showing props (.ofInt 1)).toJson.canonical := by
  intro props
  have htexts : ∀ p ∈ props, ∃ s, p.2 = .string s := by simp [props]
  have hkeys : (props.map (·.1)).Nodup := by decide
  have hbool : (showing props (.bool true)).IsExact :=
    ⟨trivial, ⟨htexts, hkeys⟩, ⟨rfl, trivial⟩, trivial⟩
  have hreverse : (showing props.reverse (.bool true)).IsExact :=
    ⟨trivial, ⟨by simpa using htexts, by decide⟩, ⟨rfl, trivial⟩, trivial⟩
  have hint : (showing props (.ofInt 1)).IsExact :=
    ⟨trivial, ⟨htexts, hkeys⟩, ⟨rfl, 1, rfl⟩, trivial⟩
  refine ⟨hbool, hreverse, hint, (canonical_toJson_eq_iff hbool hreverse).2 ?_, fun h => ?_⟩
  · exact ⟨_, rfl, _, _, rfl, ⟨_, rfl, _, rfl, props.reverse_perm.symm⟩, _, _, rfl,
      ⟨_, rfl, rfl⟩, rfl⟩
  · obtain ⟨_, hb, _, _, rfl, -, _, _, rfl, ⟨_, rfl, ha⟩, -⟩ :=
      (canonical_toJson_eq_iff hbool hint).1 h
    cases ha
    simp [showing, Json.ofInt] at hb

end Step
end FlowScript
