import FlowScript.Registry
import FlowScript.Schema.Library

/-!
# Stored schemas

Schemas are kept in files of a directory. A schema that has been loaded stays loaded: what happens
to its file later does not show. A file that yields no schema leaves no trace and is read again the
next time. Different spellings of a name mean the same file.

## Main definitions

* `Content`: contents of files.
* `LoadError`: why a file yields no schema.
* `Content.read`: the schema that a content yields with a library of schemas.
* `Store`, `Store.load`: a directory with what has been loaded from it by any way of reading files,
  and loading by name.
-/
namespace FlowScript

/-- What a name stands for in a directory. -/
inductive Content where
  | text (s : String)
  | bytes (bs : List Nat)
  | directory
  deriving DecidableEq, Repr, Inhabited

/-- Why the file with a name yields no schema. -/
inductive LoadError where
  | missing (name : String)
  | directory (name : String)
  /-- The text of the file is no document; the problem is given in words. -/
  | notJson (name problem : String)
  /-- The document in the file is no schema; the problem is given in words. -/
  | notSchema (name problem : String)
  deriving DecidableEq, Repr, Inhabited

/-- The wording of why a file yields no schema. -/
def LoadError.message : LoadError → String
  | missing name =>
    .join ["Cannot read workflow schema ", name, ": [Errno 2] No such file or directory: ",
      Text.quoted name]
  | directory name =>
    .join ["Cannot read workflow schema ", name, ": [Errno 21] Is a directory: ",
      Text.quoted name]
  | notJson name problem => .join ["Workflow schema ", name, " is not valid JSON: ", problem]
  | notSchema name problem =>
    .join ["Workflow schema ", name, " is not a valid JSON Schema: ", problem]

/-- Why there is no schema: the file yields none, or it cannot be read at all. -/
inductive Unloaded where
  | error (e : LoadError)
  | fault (f : Fault)
  deriving DecidableEq, Repr, Inhabited

namespace Content

/-- A text whose lines all end in line feeds. -/
def withLineFeeds : List Char → List Char
  | '\r' :: '\n' :: cs => '\n' :: withLineFeeds cs
  | '\r' :: cs => '\n' :: withLineFeeds cs
  | c :: cs => c :: withLineFeeds cs
  | [] => []

/-- The text of a file. -/
def chars (name : String) : Content → Except Unloaded (List Char)
  | text s => .ok (withLineFeeds s.toList)
  | bytes bs =>
    match Text.decodeUtf8 bs with
    | .ok cs => .ok (withLineFeeds cs)
    | .error f => .error (.fault (.notText f))
  | directory => .error (.error (.directory name))

/-- The schema that the content of a file yields. -/
def read (lib : Schema.Library) (name : String) (content : Content) :
    Except Unloaded Schema.Source := do
  let cs ← content.chars name
  match Schema.Source.read cs with
  | .error (.fault f) => throw (.fault f)
  | .error (.flaw f) => throw (.error (.notJson name (f.message cs)))
  | .ok source =>
    match lib.check source with
    | .ok none => return source
    | .ok (some problem) => throw (.error (.notSchema name problem))
    | .error f => throw (.fault f)

/-- The schema that a file yields, which may be missing. -/
def read? (lib : Schema.Library) (name : String) :
    Option Content → Except Unloaded Schema.Source
  | some content => content.read lib name
  | none => .error (.error (.missing name))

end Content

/-- A directory, and what has been loaded from it. -/
structure Store (σ : Type) where
  files : Registry Content := .empty
  loaded : Registry σ := .empty
  deriving Inhabited

namespace Store

variable {σ ε : Type}

/-- The parts of a name behind those that have been read (latest first), without steps that lead
nowhere or back. -/
def canonicalParts (read : List (List Char)) : List (List Char) → List (List Char)
  | [] => read.reverse
  | part :: parts =>
    if part.isEmpty ∨ part = ['.'] then canonicalParts read parts
    else if part = ['.', '.'] then canonicalParts read.tail parts
    else canonicalParts (part :: read) parts

/-- The name that all spellings of it share. -/
def canonicalName (name : String) : String :=
  String.ofList (['/'].intercalate (canonicalParts [] (name.toList.splitOn '/')))

/-- Writes a file. -/
def write (s : Store σ) (name : String) (content : Content) : Store σ :=
  { s with files := s.files.insert (canonicalName name) content }

/-- Deletes a file. -/
def delete (s : Store σ) (name : String) : Store σ :=
  { s with files := s.files.erase (canonicalName name) }

/-- Loads what a name stands for: what was loaded before, or what is read from the file. -/
def load (read : String → Option Content → Except ε σ) (s : Store σ) (name : String) :
    Except ε σ × Store σ :=
  let name := canonicalName name
  match s.loaded.find? name with
  | some schema => (.ok schema, s)
  | none =>
    match read name (s.files.find? name) with
    | .ok schema => (.ok schema, { s with loaded := s.loaded.insert name schema })
    | .error e => (.error e, s)

end Store
end FlowScript
