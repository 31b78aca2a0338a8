import FlowScript.Json.Reader
import FlowScript.Schema.Basic

/-!
# Libraries of schemas

What a schema is, and what it says about documents, is decided by a library that is called from
outside. Nothing is known about it but the form of its answers: it says what is wrong with the text
of a schema, if anything, and it reports what is wrong with documents; either may end in a fault.

## Main definitions

* `Schema.Source`: the text of a document together with the document.
* `Schema.Library`: a library of schemas.
-/
namespace FlowScript.Schema

/-- The text of a document, and the document that it writes. Two texts that differ in halves of
surrogate pairs may write one document, but they are different sources. -/
structure Source where
  text : List Char
  document : Json
  reads : Json.read text = .ok document

namespace Source

/-- The source that a text is. -/
def read (cs : List Char) : Except Json.Unread Source :=
  match h : Json.read cs with
  | .ok document => .ok ⟨cs, document, h⟩
  | .error e => .error e

/-- The source of a document that has been read. -/
theorem read_of_ok {cs : List Char} {document : Json} (h : Json.read cs = .ok document) :
    read cs = .ok ⟨cs, document, h⟩ := by
  unfold read
  split
  · rename_i hr
    cases h.symm.trans hr
    rfl
  · rename_i hr
    cases h.symm.trans hr

/-- A text that is no document is no source. -/
theorem read_of_error {cs : List Char} {e : Json.Unread} (h : Json.read cs = .error e) :
    read cs = .error e := by
  unfold read
  split
  · rename_i hr
    cases h.symm.trans hr
  · rename_i hr
    cases h.symm.trans hr
    rfl

@[simp] theorem read_text (source : Source) : read source.text = .ok source :=
  read_of_ok source.reads

end Source

/-- A library of schemas. -/
structure Library where
  /-- What is wrong with a source as a schema, if anything. -/
  check : Source → Except Fault (Option String)
  /-- The validator that a schema stands for. -/
  validator : Source → Validator

end FlowScript.Schema
