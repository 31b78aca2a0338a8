import FlowScript.Proofs.Json.Parts
import FlowScript.Proofs.Value.WellFormed

/-!
# Trees in documents

In a document, a variable and a classifier stand in an object of its own, with a type that says what
it is. Whoever looks for these objects in the document of a tree finds what the tree reads and asks,
in the same order, as long as no literal of the tree is an array or an object.

## Main definitions

* `Tree.Plain`: trees whose literals hold no documents.
* `Tree.nodes`: a tree and the trees inside it, each before those inside it.
* `Json.readName?`, `Json.modelName?`, `Json.targetName?`: the variable that a part of a document
  reads, the classifier that it asks, and the variable that it assigns.

## Main statements

* `Tree.found_toJson`: what is found in the document of a tree, node by node.
* `Tree.found_readName`, `Tree.found_modelName`, `Tree.found_targetName`: what a tree reads and
  asks, and that it assigns nothing.
-/
namespace FlowScript

namespace Json

/-- The text of a member of a part with a type. -/
def typedText? (type key : String) (j : Json) : Option String :=
  if j.textOf? "type" = some type then j.textOf? key else none

/-- The variable that a part of a document reads. -/
def readName? (j : Json) : Option String :=
  (j.typedText? "VariableRef" "name").or (j.typedText? "RegexContains" "input")

/-- The classifier that a part of a document asks. -/
def modelName? (j : Json) : Option String :=
  (j.typedText? "ai_classify" "model").or (j.typedText? "Classify" "model")

/-- The variable that a part of a document assigns a value. -/
def targetName? (j : Json) : Option String :=
  j.typedText? "set" "target"

theorem typedText?_of_untyped {type key : String} {j : Json} (h : j.textOf? "type" = none) :
    j.typedText? type key = none := by
  simp [typedText?, h]

theorem isTyped_readName : IsTyped readName? := fun j h => by
  simp [readName?, typedText?_of_untyped h]

theorem isTyped_modelName : IsTyped modelName? := fun j h => by
  simp [modelName?, typedText?_of_untyped h]

theorem isTyped_targetName : IsTyped targetName? := fun _ h => typedText?_of_untyped h

theorem IsTyped.found_literal {f : Json → Option String} (hf : IsTyped f) {j : Json}
    (h : j.isLiteral) : found f j = [] := by
  cases j with
  | bool b => exact hf.found_bool b
  | number n => exact hf.found_number n
  | string s => exact hf.found_string s
  | _ => simp [isLiteral] at h

end Json

open Json

namespace Tree

/-- A tree whose literals are numbers, truth values and texts. -/
def Plain : Tree → Prop
  | literal v => v.isLiteral
  | var _ => True
  | binary _ l r => l.Plain ∧ r.Plain
  | classify _ i => i.Plain
  | compare l _ r => l.Plain ∧ r.Plain
  | join _ l r => l.Plain ∧ r.Plain
  | contains _ _ => True

/-- A tree and the trees inside it, each before those inside it. -/
def nodes : Tree → List Tree
  | literal v => [literal v]
  | var name => [var name]
  | binary op l r => binary op l r :: (l.nodes ++ r.nodes)
  | classify m i => classify m i :: i.nodes
  | compare l r s => compare l r s :: (l.nodes ++ s.nodes)
  | join k l r => join k l r :: (l.nodes ++ r.nodes)
  | contains input piece => [contains input piece]

/-- What is found in the document of a tree is what its nodes say. -/
theorem found_toJson {f : Json → Option String} (hf : IsTyped f) {t : Tree} (h : t.Plain) :
    found f t.toJson = t.nodes.flatMap fun n => (f n.toJson).toList := by
  induction t with
  | literal v =>
    have hv : found f v = [] := hf.found_literal h
    simp [toJson, nodes, found_object, hf.found_string, hv]
  | var name => simp [toJson, nodes, found_object, hf.found_string]
  | binary op l r ihl ihr =>
    simp [toJson, nodes, found_object, hf.found_string, ihl h.1, ihr h.2]
  | classify m i ih => simp [toJson, nodes, found_object, hf.found_string, ih h]
  | compare l r s ihl ihr =>
    simp [toJson, nodes, found_object, hf.found_string, ihl h.1, ihr h.2]
  | join k l r ihl ihr =>
    simp [toJson, nodes, found_object, hf.found_string, ihl h.1, ihr h.2]
  | contains input piece => simp [toJson, nodes, found_object, hf.found_string]

/-! ## What a tree reads and asks -/

/-- The variable that the root of a tree reads. -/
def ownReads : Tree → List String
  | var name => [name]
  | contains input _ => [input]
  | _ => []

/-- The classifier that the root of a tree asks. -/
def ownModels : Tree → List String
  | classify m _ => [m]
  | _ => []

theorem flatMap_ownReads (t : Tree) : t.nodes.flatMap ownReads = t.reads := by
  induction t with
  | literal v => rfl
  | var name => rfl
  | binary op l r ihl ihr => simp [nodes, reads, ownReads, ihl, ihr]
  | classify m i ih => simp [nodes, reads, ownReads, ih]
  | compare l r s ihl ihr => simp [nodes, reads, ownReads, ihl, ihr]
  | join k l r ihl ihr => simp [nodes, reads, ownReads, ihl, ihr]
  | contains input piece => rfl

theorem flatMap_ownModels (t : Tree) : t.nodes.flatMap ownModels = t.models := by
  induction t with
  | literal v => rfl
  | var name => rfl
  | binary op l r ihl ihr => simp [nodes, models, ownModels, ihl, ihr]
  | classify m i ih => simp [nodes, models, ownModels, ih]
  | compare l r s ihl ihr => simp [nodes, models, ownModels, ihl, ihr]
  | join k l r ihl ihr => simp [nodes, models, ownModels, ihl, ihr]
  | contains input piece => rfl

theorem readName_toJson (t : Tree) : (readName? t.toJson).toList = t.ownReads := by
  cases t with
  | join k => cases k <;> rfl
  | _ => rfl

theorem modelName_toJson (t : Tree) : (modelName? t.toJson).toList = t.ownModels := by
  cases t with
  | join k => cases k <;> rfl
  | _ => rfl

theorem targetName_toJson (t : Tree) : targetName? t.toJson = none := by
  cases t with
  | join k => cases k <;> rfl
  | _ => rfl

variable {t : Tree}

/-- What the document of a tree says to be read is what the tree reads. -/
theorem found_readName (h : t.Plain) : found readName? t.toJson = t.reads := by
  rw [found_toJson isTyped_readName h, ← flatMap_ownReads]
  simp only [readName_toJson]

/-- What the document of a tree says to be asked is what the tree asks. -/
theorem found_modelName (h : t.Plain) : found modelName? t.toJson = t.models := by
  rw [found_toJson isTyped_modelName h, ← flatMap_ownModels]
  simp only [modelName_toJson]

/-- A tree assigns nothing. -/
theorem found_targetName (h : t.Plain) : found targetName? t.toJson = [] := by
  rw [found_toJson isTyped_targetName h]
  simp [targetName_toJson]

end Tree

/-! ## Well-formed expressions and conditions -/

theorem Expr.WellFormed.plain {e : Expr} (h : e.WellFormed) : e.tree.Plain := by
  induction e with
  | literal v => exact h
  | var name => trivial
  | binary op l r ihl ihr => exact ⟨ihl h.1, ihr h.2⟩
  | classify m i ih => exact ih h

theorem Condition.WellFormed.plain {c : Condition} (h : c.WellFormed) : c.tree.Plain := by
  induction c with
  | compare l r s => exact ⟨Expr.WellFormed.plain h.1, Expr.WellFormed.plain h.2⟩
  | join k l r ihl ihr => exact ⟨ihl h.1, ihr h.2⟩
  | contains input piece => trivial

theorem Value.WellFormed.plain {v : Value} (h : v.WellFormed) : v.tree.Plain := by
  cases v with
  | expr e => exact Expr.WellFormed.plain h
  | cond c => exact Condition.WellFormed.plain h

end FlowScript
