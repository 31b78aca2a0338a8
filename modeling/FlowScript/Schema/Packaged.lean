import FlowScript.Schema.Basic

/-!
# The schema of workflow documents

Every document of a workflow must pass this schema. It fixes the form of steps, expressions and
conditions, which refer to one another, of the signature, and of what surrounds them.

## Main definitions

* `Packaged.definitions`: the named schemas.
* `Packaged.root`: the schema of workflow documents.
-/
namespace FlowScript.Packaged

open Schema

/-- The title of the schema. -/
def title : String := "Stepweave Workflow"

/-- The identifier of the schema. -/
def identity : String := "https://stepweave.invalid/schemas/workflow.schema.json"

/-- How a named schema is referred to. -/
def reference (name : String) : String :=
  .join ["#/$defs/", name]

/-- The schema with a name. -/
def use (name : String) : Schema :=
  .ref (reference name)

/-! ## Common forms -/

/-- A text. -/
def text : Schema := .type [.string]

/-- A text with a pattern. -/
def textLike (source : String) (p : Pattern) : Schema :=
  .all [text, .pattern source p]

/-- A text with at least a number of characters. -/
def textOf (n : Nat) : Schema :=
  .all [text, .minLength n]

/-- An array of documents that pass a rule. -/
def arrayOf (rule : Schema) : Schema :=
  .all [.type [.array], .items rule]

/-- A nonempty array of documents that pass a rule. -/
def someOf (rule : Schema) : Schema :=
  .all [arrayOf rule, .minItems 1]

/-- An object with some required members, whose members pass rules. -/
def record (required : List String) (members : List (String × Schema)) : Schema :=
  .all (.type [.object] :: .required required :: members.map fun m => .property m.1 m.2)

/-- An object all of whose members pass a rule. -/
def mapOf (rule : Schema) : Schema :=
  .all [.type [.object], .others [] rule]

/-- An integer that is at least a number. -/
def integerFrom (n : Int) : Schema :=
  .all [.type [.integer], .minimum (.int n)]

/-- One of some texts. -/
def oneOfTexts (ss : List String) : Schema :=
  .oneOf (ss.map .string)

/-- One of some texts, and nothing else. -/
def textAmong (ss : List String) : Schema :=
  .all [text, oneOfTexts ss]

/-- A rule for the objects whose type is a given one, or which have no type. -/
def whenType (type : String) (rules : List Schema) : Schema :=
  .when (.property "type" (.const (.string type))) (.all rules)

/-! ## Patterns -/

/-- The pattern of a whole text. -/
def wholly (ps : List Pattern) : Pattern :=
  .seq (.edge .start) (.seq (.sequence ps) (.edge .stop))

/-- A given text as a pattern. -/
def exactly (s : String) : Pattern :=
  .sequence (s.toList.map fun c => .one (.one c))

/-- The names of functions. -/
def functionPattern : Pattern :=
  let digit := Pattern.one (.either .asciiDigit (.range 'a' 'f'))
  wholly [exactly "workflow_", .times .many digit 32 (some 32)]

/-- Versions: three numbers with points between them. -/
def versionPattern : Pattern :=
  let digits := Pattern.many1 (.one .digit)
  let point := Pattern.one (.one '.')
  wholly [digits, point, digits, point, digits]

/-- Tags: letters, digits, underscores and hyphens. -/
def tagPattern : Pattern :=
  wholly [.many1 (.one (.either .asciiWord (.one '-')))]

/-- The names of variables. -/
def identifierPattern : Pattern :=
  wholly [.many1 (.one .word)]

/-- The names of steps. -/
def stepPattern : Pattern :=
  wholly [exactly "step", .many1 (.one .asciiDigit)]

/-! ## Named schemas -/

/-- The types of variables. -/
def varType : Schema :=
  textAmong ["number", "boolean", "string", "tensor"]

/-- Who may do something. -/
def accessControl : Schema :=
  record ["roles", "permissions"] [("roles", someOf text), ("permissions", someOf text)]

/-- The name of a variable. -/
def identifier : Schema :=
  textLike "^\\w+$" identifierPattern

/-- A tree with one of some types. -/
def tree (types : List String) (rules : List Schema) : Schema :=
  .all (record ["type"] [("type", oneOfTexts types)] :: rules)

/-- An expression. -/
def expression : Schema :=
  tree ["Literal", "VariableRef", "BinaryOp", "Classify"] [
    whenType "Literal" [.required ["value"],
      .property "value" (.type [.number, .boolean, .string])],
    whenType "VariableRef" [.required ["name"], .property "name" (textOf 1)],
    whenType "BinaryOp" [.required ["op", "left", "right"],
      .property "op" (oneOfTexts ["add", "subtract", "multiply", "divide"]),
      .property "left" (use "expression"),
      .property "right" (use "expression")],
    whenType "Classify" [.required ["model", "input"],
      .property "model" text,
      .property "input" (use "expression")]]

/-- A condition. -/
def condition : Schema :=
  tree ["Compare", "And", "Or", "RegexContains"] [
    whenType "Compare" [.required ["left", "op", "right"],
      .property "op" (oneOfTexts [">=", "<=", "===", "!==", "==", "!=", ">", "<"]),
      .property "left" (use "expression"),
      .property "right" (use "expression")],
    .when (.property "type" (oneOfTexts ["And", "Or"])) (.all [.required ["left", "right"],
      .property "left" (use "condition"),
      .property "right" (use "condition")]),
    whenType "RegexContains" [.required ["input", "pattern"],
      .property "input" text,
      .property "pattern" text]]

/-- An expression or a condition. -/
def value : Schema :=
  .anyOf [use "expression", use "condition"]

/-- The types of steps, each with the members that it requires. -/
def stepTypes : List (String × List String) :=
  [("set", ["target", "value"]), ("if", ["condition", "then"]), ("while", ["condition", "body"]),
   ("wait", ["duration"]), ("return", ["value"]), ("break", []), ("call", ["target", "endpoint"]),
   ("ai_classify", ["model", "input", "target"]), ("ui_render", ["component", "target"]),
   ("ui_state", ["state"]), ("css_style", ["styles"]), ("ui_event", ["event"])]

/-- The members of steps, whatever the type of the step. -/
def stepMembers : List (String × Schema) :=
  [("id", textLike "^step[0-9]+$" stepPattern),
   ("type", textAmong (stepTypes.map (·.1))),
   ("nl_phrase", text),
   ("nl_examples", someOf text),
   ("access_control", use "accessControl"),
   ("target", use "identifier"),
   ("value", use "value"),
   ("condition", use "condition"),
   ("then", arrayOf (use "step")),
   ("else", arrayOf (use "step")),
   ("body", arrayOf (use "step")),
   ("duration", record ["unit", "value"]
     [("unit", .const (.string "seconds")), ("value", integerFrom 0)]),
   ("endpoint", textOf 1),
   ("model", textOf 1),
   ("input", use "expression"),
   ("component", record ["type"]
     [("type", text), ("props", .type [.object]), ("children", .type [.array]),
      ("hooks", .type [.array])]),
   ("state", record ["name", "initial"] [("name", text), ("initial", use "expression")]),
   ("styles", record ["properties"]
     [("selector", text), ("properties", arrayOf text), ("framework", text)]),
   ("event", record ["type", "handler"] [("type", text), ("handler", text)])]

/-- A step. A type without required members asks for nothing more. -/
def step : Schema :=
  .all (record ["id", "type", "nl_phrase", "nl_examples", "access_control"] stepMembers ::
    (stepTypes.filter (!·.2.isEmpty)).map fun t => whenType t.1 [.required t.2])

/-- The named schemas. -/
def definitions : List (String × Schema) :=
  [("varType", varType), ("accessControl", accessControl), ("identifier", identifier),
   ("expression", expression), ("condition", condition), ("value", value), ("step", step)]

/-! ## The document -/

/-- What the caller says about a workflow. -/
def metadata : Schema :=
  record ["schema_version", "version", "author", "description", "created", "updated", "tags",
      "language"]
    [("schema_version", .all [text, .const (.string "2.0.0")]),
     ("version", textLike "^\\d+\\.\\d+\\.\\d+$" versionPattern),
     ("author", textOf 1),
     ("description", textOf 10),
     ("created", text),
     ("updated", text),
     ("tags", someOf (textLike "^[a-zA-Z0-9_-]+$" tagPattern)),
     ("language", textAmong ["en", "es", "fr", "zh", "ja", "ar", "ru", "de", "hi", "pt", "it",
       "ko", "tr", "nl", "sv", "pl", "th", "vi", "id", "ms"])]

/-- The signature of a workflow. -/
def signature : Schema :=
  record ["inputs", "context", "outputs", "nl_context"]
    [("inputs", mapOf (record ["type", "required"]
       [("type", use "varType"), ("required", .type [.boolean]), ("description", text)])),
     ("context", .type [.object]),
     ("outputs", mapOf (record ["type"] [("type", use "varType"), ("description", text)])),
     ("nl_context", record ["prompts", "entities", "intent", "sentiment"]
       [("prompts", someOf (record ["language", "text"] [("language", text), ("text", text)])),
        ("entities", mapOf text),
        ("intent", text),
        ("sentiment", textAmong ["positive", "negative", "neutral"])])]

/-- How a workflow may be run. -/
def executionPolicy : Schema :=
  record ["max_runs_per_minute", "max_concurrent_runs", "priority", "timeout"]
    [("max_runs_per_minute", integerFrom 1),
     ("max_concurrent_runs", integerFrom 1),
     ("priority", textAmong ["low", "medium", "high"]),
     ("timeout", integerFrom 1)]

/-- The entry of a classifier. -/
def modelEntry : Schema :=
  record ["name", "version", "type", "source", "capabilities"]
    [("name", text), ("version", text), ("type", text), ("source", text),
     ("capabilities", arrayOf text)]

/-- A test of a workflow. -/
def test : Schema :=
  record ["name", "type", "inputs", "expected"]
    [("name", text), ("type", text), ("inputs", .type [.object]), ("expected", .type [.object])]

/-- A workflow document. -/
def workflow : Schema :=
  record ["function", "metadata", "schema", "steps", "access_policy", "execution_policy",
      "model_registry", "tests"]
    [("function", textLike "^workflow_[0-9a-f]\x7b32\x7d$" functionPattern),
     ("metadata", metadata),
     ("schema", signature),
     ("steps", someOf (use "step")),
     ("access_policy", use "accessControl"),
     ("execution_policy", executionPolicy),
     ("model_registry", mapOf modelEntry),
     ("tests", arrayOf test)]

/-- The schema of workflow documents. -/
def root : Root :=
  ⟨workflow, definitions.map fun d => (reference d.1, d.2)⟩

end FlowScript.Packaged
