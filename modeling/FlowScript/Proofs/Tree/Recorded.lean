import FlowScript.Proofs.Json.Canonical
import FlowScript.Proofs.Tree.Document

/-!
# What the document of a tree tells

A tree whose literals are integers, truth values and texts is told by its document, whatever the
order of members: the type tells the root, and a pattern tells the piece of text that it looks for.

## Main definitions

* `Tree.IsExact`: trees whose literals are integers, truth values and texts.

## Main statements

* `Json.sorted_part`: parts of documents that are the same up to the order of members.
* `Tree.pattern_injective`: a pattern tells its piece of text.
* `Tree.eq_of_sorted`, `Condition.eq_of_sorted`, `Value.eq_of_sorted`: trees, conditions and values
  are told by their documents.
-/
namespace FlowScript

namespace Json

variable {j k v w : Json}

/-- Parts of documents that are the same up to the order of members. -/
theorem sorted_part (key : String) (h : j.sorted = k.sorted) (hv : j.member? key = some v)
    (hw : k.member? key = some w) : v.sorted = w.sorted := by
  have hm := congrArg (member? key) h
  simpa [member?_sorted, hv, hw] using hm

theorem sorted_of_isLiteral (h : j.isLiteral) : j.sorted = j := by
  cases j <;> first | rfl | simp [isLiteral] at h

theorem sorted_ofStrings (ss : List String) : (ofStrings ss).sorted = ofStrings ss := by
  simp only [ofStrings, sorted, sortedItems_eq_map, List.map_map]
  rfl

theorem ofStrings_injective {ss ts : List String} (h : ofStrings ss = ofStrings ts) : ss = ts := by
  simp only [ofStrings, array.injEq] at h
  exact List.map_injective_iff.2 (fun _ _ h => string.inj h) h

theorem isExact_ofStrings (ss : List String) : (ofStrings ss).IsExact := by
  apply allExact_iff.2
  intro x hx
  obtain ⟨s, -, rfl⟩ := List.mem_map.1 hx
  trivial

end Json

open Json

namespace Tree

/-- The characters of a pattern are read in one way: a special one stands behind a backslash, which
is special itself. -/
theorem eq_of_escaped {cs ds : List Char}
    (h : cs.flatMap (fun c => if isSpecial c then ['\\', c] else [c]) =
      ds.flatMap fun c => if isSpecial c then ['\\', c] else [c]) : cs = ds := by
  have hslash : isSpecial '\\' := by decide
  induction cs generalizing ds with
  | nil =>
    cases ds with
    | nil => rfl
    | cons d ds =>
      rw [List.flatMap_cons] at h
      split at h <;> simp at h
  | cons c cs ih =>
    cases ds with
    | nil =>
      rw [List.flatMap_cons] at h
      split at h <;> simp at h
    | cons d ds =>
      rw [List.flatMap_cons, List.flatMap_cons] at h
      by_cases hc : isSpecial c <;> by_cases hd : isSpecial d
      all_goals simp only [hc, hd, if_true, if_false, Bool.false_eq_true, List.cons_append,
        List.nil_append, List.cons.injEq, true_and] at h
      · rw [h.1, ih h.2]
      · exact absurd (h.1 ▸ hslash) hd
      · exact absurd (h.1 ▸ hslash) hc
      · rw [h.1, ih h.2]

/-- A pattern tells its piece of text. -/
theorem pattern_injective {piece piece' : String} (h : pattern piece = pattern piece') :
    piece = piece' := by
  have hl := congrArg String.toList h
  simp only [pattern, String.toList_join, List.flatMap_cons, List.flatMap_nil, List.append_nil,
    String.toList_ofList, List.append_cancel_left_eq, List.append_cancel_right_eq] at hl
  exact String.toList_inj.1 (eq_of_escaped hl)

/-- A tree whose literals are integers, truth values and texts. -/
def IsExact : Tree → Prop
  | literal v => v.isLiteral ∧ v.IsExact
  | var _ => True
  | binary _ l r => l.IsExact ∧ r.IsExact
  | classify _ i => i.IsExact
  | compare l _ r => l.IsExact ∧ r.IsExact
  | join _ l r => l.IsExact ∧ r.IsExact
  | contains _ _ => True

theorem IsExact.toJson {t : Tree} (h : t.IsExact) : t.toJson.IsExact := by
  induction t with
  | literal v => exact ⟨trivial, h.2, trivial⟩
  | var name => exact ⟨trivial, trivial, trivial⟩
  | binary op l r ihl ihr => exact ⟨trivial, trivial, ihl h.1, ihr h.2, trivial⟩
  | classify m i ih => exact ⟨trivial, trivial, ih h, trivial⟩
  | compare l r s ihl ihs => exact ⟨trivial, ihl h.1, trivial, ihs h.2, trivial⟩
  | join k l r ihl ihr => exact ⟨trivial, ihl h.1, ihr h.2, trivial⟩
  | contains input piece => exact ⟨trivial, trivial, trivial, trivial⟩

/-- The type of a tree in documents. -/
def typeName : Tree → String
  | literal _ => "Literal"
  | var _ => "VariableRef"
  | binary _ _ _ => "BinaryOp"
  | classify _ _ => "Classify"
  | compare _ _ _ => "Compare"
  | join k _ _ => k.name
  | contains _ _ => "RegexContains"

theorem member?_type (t : Tree) : t.toJson.member? "type" = some (.string t.typeName) := by
  cases t <;> rfl

theorem typeName_eq_of_sorted {t u : Tree} (h : t.toJson.sorted = u.toJson.sorted) :
    t.typeName = u.typeName :=
  string.inj (sorted_part "type" h (member?_type t) (member?_type u))

/-- A tree is told by its document. -/
theorem eq_of_sorted {t u : Tree} (ht : t.IsExact) (hu : u.IsExact)
    (h : t.toJson.sorted = u.toJson.sorted) : t = u := by
  induction t generalizing u with
  | literal v =>
    have htype := typeName_eq_of_sorted h
    cases u with
    | literal w =>
      have hv : v.sorted = w.sorted := sorted_part "value" h rfl rfl
      rw [sorted_of_isLiteral ht.1, sorted_of_isLiteral hu.1] at hv
      rw [hv]
    | join k => cases k <;> simp [typeName, Connective.name] at htype
    | _ => simp [typeName] at htype
  | var name =>
    have htype := typeName_eq_of_sorted h
    cases u with
    | var name' => rw [string.inj (sorted_part "name" h rfl rfl)]
    | join k => cases k <;> simp [typeName, Connective.name] at htype
    | _ => simp [typeName] at htype
  | binary op l r ihl ihr =>
    have htype := typeName_eq_of_sorted h
    cases u with
    | binary op' l' r' =>
      have hop : op.name = op'.name := string.inj (sorted_part "op" h rfl rfl)
      have hl := ihl ht.1 hu.1 (sorted_part "left" h rfl rfl)
      have hr := ihr ht.2 hu.2 (sorted_part "right" h rfl rfl)
      have hnamed := congrArg ArithOp.named hop
      rw [ArithOp.named_name, ArithOp.named_name] at hnamed
      rw [Except.ok.inj hnamed, hl, hr]
    | join k => cases k <;> simp [typeName, Connective.name] at htype
    | _ => simp [typeName] at htype
  | classify m i ih =>
    have htype := typeName_eq_of_sorted h
    cases u with
    | classify m' i' =>
      have hm : m = m' := string.inj (sorted_part "model" h rfl rfl)
      rw [hm, ih (u := i') ht hu (sorted_part "input" h rfl rfl)]
    | join k => cases k <;> simp [typeName, Connective.name] at htype
    | _ => simp [typeName] at htype
  | compare l r s ihl ihs =>
    have htype := typeName_eq_of_sorted h
    cases u with
    | compare l' r' s' =>
      have hr : r.symbol = r'.symbol := string.inj (sorted_part "op" h rfl rfl)
      have hl := ihl ht.1 hu.1 (sorted_part "left" h rfl rfl)
      have hs := ihs ht.2 hu.2 (sorted_part "right" h rfl rfl)
      have hnamed := congrArg Relation.named hr
      rw [Relation.named_symbol, Relation.named_symbol] at hnamed
      rw [Except.ok.inj hnamed, hl, hs]
    | join k => cases k <;> simp [typeName, Connective.name] at htype
    | _ => simp [typeName] at htype
  | join k l r ihl ihr =>
    have htype := typeName_eq_of_sorted h
    cases u with
    | join k' l' r' =>
      have hk : k = k' := by
        cases k <;> cases k' <;> simp_all [typeName, Connective.name]
      rw [hk, ihl ht.1 hu.1 (sorted_part "left" h rfl rfl),
        ihr ht.2 hu.2 (sorted_part "right" h rfl rfl)]
    | _ => cases k <;> simp [typeName, Connective.name] at htype
  | contains input piece =>
    have htype := typeName_eq_of_sorted h
    cases u with
    | contains input' piece' =>
      have hi : input = input' := string.inj (sorted_part "input" h rfl rfl)
      rw [hi, pattern_injective (string.inj (sorted_part "pattern" h rfl rfl))]
    | join k => cases k <;> simp [typeName, Connective.name] at htype
    | _ => simp [typeName] at htype

end Tree

/-- A condition is told by its document. -/
theorem Condition.eq_of_sorted {c d : Condition} (hc : c.tree.IsExact) (hd : d.tree.IsExact)
    (h : c.toJson.sorted = d.toJson.sorted) : c = d := by
  have ht := congrArg Tree.condition? (Tree.eq_of_sorted hc hd h)
  rw [condition?_tree, condition?_tree] at ht
  exact Except.ok.inj ht

/-- A value is told by its document. -/
theorem Value.eq_of_sorted {v w : Value} (hv : v.tree.IsExact) (hw : w.tree.IsExact)
    (h : v.toJson.sorted = w.toJson.sorted) : v = w := by
  have ht := congrArg Tree.value? (Tree.eq_of_sorted hv hw h)
  rw [value?_tree, value?_tree] at ht
  exact Except.ok.inj ht

end FlowScript
