import FlowScript.Proofs.Json.Overlong
import FlowScript.Proofs.Schema.Store
import FlowScript.Proofs.Text.Utf8
import FlowScript.Proofs.Workflow.Verdict

/-!
# Texts whose schema cannot be had

A file that is missing, a directory, a text that is no document and a document that is no schema are
load errors: the text is compiled all the same, and the last thing that is said is why there is no
schema. Three kinds of files are not load errors but faults, which end the compiling of any text:
bytes that encode no text, text in which an integer that is too long is reached, and documents about
which the library of schemas fails. It may also fail when it is asked about the document of a
workflow, with a schema that has been loaded.

## Main definitions

* `Content.Spells`, `Content.Holds`: the text that a file holds, and the source that it is.
* `Content.Yields`: what a file comes to, apart from how it is read.

## Main statements

* `Content.read?_eq_iff`, `Store.load_eq_iff`: what files and loads come to.
* `compile_of_load`: what compiling a text comes to, whatever its schema is loaded from.
-/
namespace FlowScript

open Schema (Library Source)

/-! ## Files -/

namespace Content

variable {lib : Library} {name : String} {content : Content} {f : Fault}

/-- A file holds a text, or the bytes that encode it. -/
inductive Spells : Content → List Char → Prop
  | text (s : String) : Spells (text s) s.toList
  | bytes (cs : List Char) : Spells (bytes (Text.encodeUtf8 cs)) cs

/-- A file holds the text of a source, up to the ends of its lines. -/
def Holds (content : Content) (source : Source) : Prop :=
  ∃ cs, content.Spells cs ∧ source.text = withLineFeeds cs

/-- What a file with a name comes to, if there is one: a load error, a fault, or a schema. Its bytes
may not be continued as a text behind the encoding of one; its text may have a flaw, or an integer
that is too long may be reached in it; and what the library has to say about its document counts. -/
inductive Yields (lib : Library) (name : String) : Option Content → Except Unloaded Source → Prop
  | missing : Yields lib name none (.error (.error (.missing name)))
  | directory : Yields lib name (some directory) (.error (.error (.directory name)))
  | notText {cs : List Char} {rest : List Nat} {u : Text.Utf8Fault}
      (h : Text.Breaks (Text.encodeUtf8 cs).length rest u) :
      Yields lib name (some (bytes (Text.encodeUtf8 cs ++ rest))) (.error (.fault (.notText u)))
  | notJson {content : Content} {cs : List Char} {flaw : Json.Flaw} (hs : content.Spells cs)
      (h : Json.read (withLineFeeds cs) = .error (.flaw flaw)) :
      Yields lib name (some content)
        (.error (.error (.notJson name (flaw.message (withLineFeeds cs)))))
  | overlong {content : Content} {cs : List Char} {count : Nat} (hs : content.Spells cs)
      (h : Json.HasOverlong (withLineFeeds cs) count) :
      Yields lib name (some content) (.error (.fault (.tooManyDigits count)))
  | unchecked {content : Content} {source : Source} {f : Fault} (hs : content.Holds source)
      (h : lib.check source = .error f) : Yields lib name (some content) (.error (.fault f))
  | notSchema {content : Content} {source : Source} {problem : String} (hs : content.Holds source)
      (h : lib.check source = .ok (some problem)) :
      Yields lib name (some content) (.error (.error (.notSchema name problem)))
  | schema {content : Content} {source : Source} (hs : content.Holds source)
      (h : lib.check source = .ok none) : Yields lib name (some content) (.ok source)

theorem chars_of_spells {cs : List Char} (h : content.Spells cs) :
    content.chars name = .ok (withLineFeeds cs) := by
  cases h with
  | text s => rfl
  | bytes cs => simp [chars, Text.decodeUtf8_eq_ok_iff.2 rfl]

/-- A directory, a text, or bytes that are none. -/
theorem cases_spells (content : Content) :
    content = directory ∨ (∃ cs, content.Spells cs) ∨
      ∃ bs u, content = bytes bs ∧ Text.decodeUtf8 bs = .error u := by
  cases content with
  | text s => exact .inr (.inl ⟨_, .text s⟩)
  | bytes bs =>
    cases h : Text.decodeUtf8 bs with
    | ok cs =>
      rw [Text.decodeUtf8_eq_ok_iff.1 h]
      exact .inr (.inl ⟨cs, .bytes cs⟩)
    | error u => exact .inr (.inr ⟨bs, u, rfl, h⟩)
  | directory => exact .inl rfl

theorem read_of_decodeUtf8 {bs : List Nat} {u : Text.Utf8Fault}
    (h : Text.decodeUtf8 bs = .error u) :
    (bytes bs).read lib name = .error (.fault (.notText u)) := by
  simp [read, chars, h, bind, Except.bind]

theorem read_of_flaw {cs : List Char} {flaw : Json.Flaw} (hs : content.Spells cs)
    (h : Json.read (withLineFeeds cs) = .error (.flaw flaw)) :
    content.read lib name =
      .error (.error (.notJson name (flaw.message (withLineFeeds cs)))) := by
  simp only [read, chars_of_spells hs, bind, Except.bind, Source.read_of_error h]
  rfl

theorem read_of_fault {cs : List Char} (hs : content.Spells cs)
    (h : Json.read (withLineFeeds cs) = .error (.fault f)) :
    content.read lib name = .error (.fault f) := by
  simp only [read, chars_of_spells hs, bind, Except.bind, Source.read_of_error h]
  rfl

/-- A file that holds a source comes to what the library says about it. -/
theorem read_of_holds {source : Source} (hs : content.Holds source) :
    content.read lib name = match lib.check source with
      | .ok none => .ok source
      | .ok (some problem) => .error (.error (.notSchema name problem))
      | .error f => .error (.fault f) := by
  obtain ⟨cs, hs, ht⟩ := hs
  simp only [read, chars_of_spells hs, bind, Except.bind, ← ht, Source.read_text]
  rcases lib.check source with f | _ | problem <;> rfl

/-- Reading a file gives what the file comes to. -/
theorem yields_read? (lib : Library) (name : String) (file : Option Content) :
    Yields lib name file (read? lib name file) := by
  cases file with
  | none => exact .missing
  | some content =>
    rw [read?]
    rcases content.cases_spells with rfl | ⟨cs, hs⟩ | ⟨bs, u, rfl, hu⟩
    · exact .directory
    · cases hj : Json.read (withLineFeeds cs) with
      | ok document =>
        have hh : content.Holds ⟨_, document, hj⟩ := ⟨cs, hs, rfl⟩
        rw [read_of_holds hh]
        cases hc : lib.check ⟨_, document, hj⟩ with
        | error f => exact .unchecked hh hc
        | ok problem? =>
          cases problem? with
          | none => exact .schema hh hc
          | some problem => exact .notSchema hh hc
      | error e =>
        cases e with
        | flaw flaw =>
          rw [read_of_flaw hs hj]
          exact .notJson hs hj
        | fault f =>
          obtain ⟨count, ho, rfl⟩ := Json.read_eq_fault_iff.1 hj
          rw [read_of_fault hs hj]
          exact .overlong hs ho
    · rw [read_of_decodeUtf8 hu]
      obtain ⟨cs, rest, rfl, hb⟩ := Text.decodeUtf8_eq_error_iff.1 hu
      exact .notText hb

/-- **What a file comes to** is what reading it gives, and nothing else. -/
theorem read?_eq_iff {file : Option Content} {result : Except Unloaded Source} :
    read? lib name file = result ↔ Yields lib name file result := by
  constructor
  · rintro rfl
    exact yields_read? lib name file
  · intro h
    cases h with
    | missing => rfl
    | directory => rfl
    | notText hb => exact read_of_decodeUtf8 (Text.decodeUtf8_eq_error_iff.2 ⟨_, _, rfl, hb⟩)
    | notJson hs hj => exact read_of_flaw hs hj
    | overlong hs ho => exact read_of_fault hs (Json.read_eq_fault_iff.2 ⟨_, ho, rfl⟩)
    | unchecked hs hc => rw [read?, read_of_holds hs, hc]
    | notSchema hs hc => rw [read?, read_of_holds hs, hc]
    | schema hs hc => rw [read?, read_of_holds hs, hc]

end Content

/-- **What a load comes to**: what has been loaded from the path, or else what the file there comes
to. -/
theorem Store.load_eq_iff {lib : Library} {s : Store Source} {name : String}
    {result : Except Unloaded Source} :
    (s.load (Content.read? lib) name).1 = result ↔
      match s.loaded.find? (canonicalName name) with
      | some source => result = .ok source
      | none =>
        Content.Yields lib (canonicalName name) (s.files.find? (canonicalName name)) result := by
  rw [load_answer]
  cases s.loaded.find? (canonicalName name) with
  | some source => exact eq_comm
  | none => exact Content.read?_eq_iff

/-! ## Texts -/

variable {text function stamp name : String} {o : Options} {w : Workflow} {t : Session}

/-- Without a schema, a text that can be assembled has a document, and why there is no schema is
said last. -/
theorem compile_of_loadError {e : LoadError} (hb : (Text.trimmed text).isEmpty = false)
    (ha : Workflow.assemble function text {} = .ok w t) :
    ∃ events, compile (some text) function stamp o (.error (.error e)) =
      .ok (.unchecked (w.toJson o stamp) t.diagnostics e, events) := by
  rw [compile_eq_judge hb ha]
  exact ⟨_, rfl⟩

/-- A schema that meets a fault ends the compiling of every text that can be assembled. -/
theorem compile_of_loadFault {f : Fault} (hb : (Text.trimmed text).isEmpty = false)
    (ha : Workflow.assemble function text {} = .ok w t) :
    compile (some text) function stamp o (.error (.fault f)) = .error f := by
  rw [compile_eq_judge hb ha]
  rfl

/-- A validator that meets a fault ends the compiling as well. -/
theorem compile_of_invalid {validate : Validator} {f : Fault}
    (hb : (Text.trimmed text).isEmpty = false)
    (ha : Workflow.assemble function text {} = .ok w t)
    (hv : validate (w.toJson o stamp) = .error f) :
    compile (some text) function stamp o (.ok validate) = .error f := by
  simp only [compile_eq_judge hb ha, judge, hv]
  rfl

/-- **What loads lead to**, for every library of schemas, every name in every directory and every
text that can be assembled. A load comes to what has been loaded from the path before, and otherwise
to what the file there comes to: a schema, a load error or a fault. A fault ends the compiling of
the text. With a load error there is an outcome whose last message is that of the error. With a
schema there is an outcome as well, unless its validator meets a fault with the document of the
text; then this fault ends the compiling. -/
theorem compile_of_load (lib : Library) (s : Store Source) (name : String) (o : Options)
    (stamp : String) (hb : (Text.trimmed text).isEmpty = false)
    (ha : Workflow.assemble function text {} = .ok w t) :
    let path := Store.canonicalName name
    let answer := (s.load (Content.read? lib) name).1
    let compiled := compile (some text) function stamp o (answer.map lib.validator)
    (∀ result, answer = result ↔
      match s.loaded.find? path with
      | some source => result = .ok source
      | none => Content.Yields lib path (s.files.find? path) result) ∧
    (∀ f, answer = .error (.fault f) → compiled = .error f) ∧
    (∀ e, answer = .error (.error e) → ∃ outcome events, compiled = .ok (outcome, events) ∧
      outcome.workflow? = none ∧ outcome.document? = some (w.toJson o stamp) ∧
      outcome.messages = t.diagnostics.map Diagnostic.message ++ [e.message]) ∧
    ∀ source, answer = .ok source →
      (∀ f, lib.validator source (w.toJson o stamp) = .error f → compiled = .error f) ∧
      ∀ reports, lib.validator source (w.toJson o stamp) = .ok reports →
        ∃ events, compiled = .ok
          (.judged w (w.toJson o stamp) t.diagnostics (Report.listed reports), events) := by
  intro path answer compiled
  refine ⟨fun result => Store.load_eq_iff, ?_, ?_, ?_⟩
  · intro f h
    simp only [compiled, h]
    exact compile_of_loadFault hb ha
  · intro e h
    obtain ⟨events, hc⟩ := compile_of_loadError hb ha
    refine ⟨.unchecked (w.toJson o stamp) t.diagnostics e, events, ?_, rfl, rfl, rfl⟩
    simp only [compiled, h]
    exact hc
  · intro source h
    simp only [compiled, h]
    exact ⟨fun f hv => compile_of_invalid hb ha hv, fun reports hv => compile_of_assemble hb ha hv⟩

/-- The text of a schema whose pattern repeats a letter more often than can be counted. -/
def hugeText : List Char :=
  "\x7b\x22pattern\x22: \x22a\x7b4294967295\x7d\x22\x7d".toList

/-- The schema with such a pattern. -/
def hugeSource : Source where
  text := hugeText
  document := .object [("pattern", .string "a\x7b4294967295\x7d")]
  reads := rfl

theorem check_hugeSource : Library.described.check hugeSource = .error .tooManyTurns := by
  have hknown : (Schema.keywords hugeSource.document).find?
      (fun m => Schema.beyond.contains m.1) = none := by decide +kernel
  have hfaults : Schema.patternFaults hugeSource.document = [.tooManyTurns] := by decide +kernel
  have hformed : Schema.isFormed hugeSource.document := by decide +kernel
  have hdescribed : hugeSource.described = .ok hugeSource.document := rfl
  simp only [Library.described, hdescribed, bind, Except.bind, Schema.isSchema, hknown, hfaults,
    hformed, List.all_nil, Bool.and_self, if_true]

/-- A byte that begins no character ends the compiling of a text, and so does a pattern that the
library cannot read. A missing file does not. -/
theorem compile_of_load_byte :
    let read := Content.read? .described
    compile (some "break") "f" "2024-01-02T03:04:05Z" {}
      (((({} : Store Source).write "s.json" (.bytes [0xFF])).load read "s.json").1.map
        Library.described.validator) = .error (.notText (.start 0xFF 0)) ∧
    compile (some "break") "f" "2024-01-02T03:04:05Z" {}
      (((({} : Store Source).write "s.json" (.text (String.ofList hugeText))).load read
        "s.json").1.map Library.described.validator) = .error .tooManyTurns ∧
    ∃ outcome events, compile (some "break") "f" "2024-01-02T03:04:05Z" {}
        ((({} : Store Source).load read "s.json").1.map Library.described.validator) =
          .ok (outcome, events) ∧
      outcome.messages.getLast? = some (LoadError.missing "s.json").message := by
  intro read
  have hb : (Text.trimmed "break").isEmpty = false := by decide
  have hl : Text.commandLines "break" = ["break"] := by decide
  obtain ⟨steps, t, hs⟩ : ∃ steps t, Compile.line "break" {} = .ok steps t := ⟨_, _, rfl⟩
  obtain ⟨w, ha, -⟩ : ∃ w, Workflow.assemble "f" "break" {} = .ok w t ∧ w.steps = steps :=
    assemble_of_line hl hs
  refine ⟨?_, ?_, ?_⟩
  · have hbreaks : Text.Breaks 0 [0xFF] (.start 0xFF 0) := .start (Text.not_begins_nil_iff.2 rfl)
    obtain ⟨hload, hends, -, -⟩ := compile_of_load .described
      (({} : Store Source).write "s.json" (.bytes [0xFF])) "s.json" {} "2024-01-02T03:04:05Z" hb ha
    exact hends _ ((hload _).2 (@Content.Yields.notText .described "s.json" [] [0xFF] _ hbreaks))
  · have hholds : Content.Holds (.text (String.ofList hugeText)) hugeSource :=
      ⟨_, .text _, by rw [String.toList_ofList]; rfl⟩
    obtain ⟨hload, hends, -, -⟩ := compile_of_load .described
      (({} : Store Source).write "s.json" (.text (String.ofList hugeText))) "s.json" {}
      "2024-01-02T03:04:05Z" hb ha
    exact hends _ ((hload _).2 (.unchecked hholds check_hugeSource))
  · obtain ⟨hload, -, herror, -⟩ :=
      compile_of_load .described {} "s.json" {} "2024-01-02T03:04:05Z" hb ha
    obtain ⟨outcome, events, hc, -, -, hm⟩ := herror (.missing "s.json") ((hload _).2 .missing)
    exact ⟨outcome, events, hc, by simp [hm]⟩

end FlowScript
