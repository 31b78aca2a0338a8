import FlowScript.Pattern.Reader
import FlowScript.Schema.Library

/-!
# Described schemas

A schema is itself written as a document: a truth value, or an object whose members are rules. Here
is a library that describes some keywords, namely those of the schema of workflows and a few that
say nothing about documents. Each of them asks for a value of some shape, and a document with a
value of another shape is no schema. Unknown keywords are ignored. Schemas with other keywords, with
references that lead anywhere but to schemas in the same document, or with halves of surrogate pairs
are set aside: what the library has to say about them is that they are not described.

## Main definitions

* `Shape`, `Schema.shapes`, `Schema.beyond`: what described keywords ask for, and other keywords.
* `Schema.isSchema`: whether a document is a schema.
* `Schema.ofJson`, `Schema.Root.ofJson`: the rule that a schema denotes, and the rule together with
  the schemas that it refers to.
* `Schema.Library.described`: the library.
-/
namespace FlowScript

/-- The shapes of the values of described keywords. -/
inductive Shape where
  | anything
  | text
  | pattern
  | flag
  | number
  | count
  | list
  | texts
  | kinds
  | schema
  | schemas
  | fields
  deriving DecidableEq, Repr, Inhabited

namespace Schema

/-- What the described keywords ask for. -/
def shapes : List (Shape × List String) :=
  [(.text, ["$schema", "$ref", "$comment", "title", "description", "format"]),
   (.pattern, ["pattern"]),
   (.flag, ["deprecated", "readOnly", "writeOnly"]),
   (.number, ["minimum"]),
   (.count, ["minLength", "minItems"]),
   (.list, ["enum", "examples"]),
   (.texts, ["required"]),
   (.kinds, ["type"]),
   (.schema, ["items", "additionalProperties", "if", "then"]),
   (.schemas, ["allOf", "anyOf"]),
   (.fields, ["properties", "$defs", "definitions"])]

/-- The keywords that mean something but are not described. -/
def beyond : List String :=
  ["$id", "$anchor", "$dynamicRef", "$dynamicAnchor", "$recursiveRef", "$recursiveAnchor",
   "$vocabulary", "else", "not", "oneOf", "contains", "minContains", "maxContains", "prefixItems",
   "uniqueItems", "maxItems", "unevaluatedItems", "maxLength", "maximum", "exclusiveMinimum",
   "exclusiveMaximum", "multipleOf", "minProperties", "maxProperties", "propertyNames",
   "patternProperties", "unevaluatedProperties", "dependencies", "dependentRequired",
   "dependentSchemas", "contentEncoding", "contentMediaType", "contentSchema"]

/-- What a keyword asks for. -/
def shapeOf (keyword : String) : Shape :=
  match shapes.find? (·.2.contains keyword) with
  | some (shape, _) => shape
  | none => .anything

/-- The number of a document. -/
def number? : Json → Option Number
  | .number n => some n
  | _ => none

/-- The texts of an array, if all its items are texts. -/
def texts? : Json → Option (List String)
  | .array xs => xs.mapM fun x => match x with
    | .string s => some s
    | _ => none
  | _ => none

/-- Whether no text occurs twice. -/
def allDistinct : List String → Bool
  | [] => true
  | s :: ss => !ss.contains s && allDistinct ss

/-- Whether a document is an array of texts, each once. -/
def isTexts (j : Json) : Bool :=
  (texts? j).any allDistinct

/-- The names of kinds that a document holds: one, or an array of them. -/
def kindNames? : Json → Option (List String)
  | .string s => some [s]
  | j => texts? j

/-- Whether a document is a name of a kind, or a nonempty array of them, each once. -/
def isKinds (j : Json) : Bool :=
  (kindNames? j).any fun names =>
    !names.isEmpty && allDistinct names && names.all fun n => (Kind.named? n).isSome

/-- Whether a number is zero or a positive integer. -/
def isCount (n : Number) : Bool :=
  n.isWhole && !n.less (.int 0)

/-- Whether a document has the outer form of a schema: it is a truth value or an object. -/
def isOpen : Json → Bool
  | .bool _ => true
  | .object _ => true
  | _ => false

/-- Whether a value has the shape that its keyword asks for, up to the insides of schemas in it. -/
def fits (shape : Shape) (j : Json) : Bool :=
  match shape with
  | .anything => true
  | .text => Kind.string.admits j
  | .pattern => match j with
    | .string source =>
      match Pattern.ofString source with
      | .error .malformed => false
      | _ => true
    | _ => false
  | .flag => Kind.boolean.admits j
  | .number => Kind.number.admits j
  | .count => (number? j).any isCount
  | .list => Kind.array.admits j
  | .texts => isTexts j
  | .kinds => isKinds j
  | .schema => isOpen j
  | .schemas => match j with
    | .array xs => !xs.isEmpty && xs.all isOpen
    | _ => false
  | .fields => match j with
    | .object ms => ms.all fun m => isOpen m.2
    | _ => false

mutual

/-- The keywords of a schema and of the schemas inside it, with their values. -/
def keywords : Json → Json.Members
  | .object ms => memberKeywords ms
  | .null => []
  | .bool _ => []
  | .number _ => []
  | .string _ => []
  | .array _ => []
termination_by structural j => j

/-- Some keywords with their values, and those of the schemas inside the values. -/
def memberKeywords : Json.Members → Json.Members
  | [] => []
  | (k, v) :: ms => (k, v) ::
    ((match shapeOf k, v with
      | .schema, v => keywords v
      | .schemas, .array xs => itemKeywords xs
      | .fields, .object fs => fieldKeywords fs
      | _, _ => []) ++ memberKeywords ms)
termination_by structural ms => ms

/-- The keywords of the schemas of an array. -/
def itemKeywords : List Json → Json.Members
  | [] => []
  | x :: xs => keywords x ++ itemKeywords xs
termination_by structural xs => xs

/-- The keywords of the schemas of an object. -/
def fieldKeywords : Json.Members → Json.Members
  | [] => []
  | (_, v) :: ms => keywords v ++ fieldKeywords ms
termination_by structural ms => ms

end

/-- The faults of the patterns of a schema. -/
def patternFaults (j : Json) : List Fault :=
  (keywords j).filterMap fun
    | ("pattern", .string source) =>
      match Pattern.ofString source with
      | .error (.fault f) => some f
      | _ => none
    | _ => none

/-- Whether a document has the form of a schema, up to faults of its patterns. -/
def isFormed (j : Json) : Bool :=
  isOpen j && (keywords j).all fun (k, v) => fits (shapeOf k) v

/-- Whether a document is a schema. Where several things are wrong with it, a fault among them, it
is not described which of them is met. -/
def isSchema (j : Json) : Except Fault Bool :=
  match (keywords j).find? fun m => beyond.contains m.1 with
  | some (keyword, _) => .error (.undescribed keyword)
  | none =>
    match patternFaults j with
    | [] => .ok (isFormed j)
    | f :: fs => .error (if isFormed j && fs.all (· == f) then f else .undescribed "pattern")

/-! ## Rules -/

/-- What has been read of the value of a keyword. -/
inductive Part where
  | one (rule : Schema)
  | many (rules : List Schema)
  | fields (rules : List (String × Schema))
  | plain (value : Json)

/-- What has been read of the value of a keyword of a schema. -/
def part? (keyword : String) (parts : List (String × Part)) : Option Part :=
  (parts.find? (·.1 == keyword)).map (·.2)

attribute [local instance (high)] instPowNat

/-- The natural number that a number denotes; other numbers count as zero. -/
def countOf (n : Number) : Nat :=
  match n with
  | .int n => n.toNat
  | .double (.finite false m e) => m * 2 ^ e.toNat / 2 ^ (-e).toNat
  | .double _ => 0

/-- The rule that a described keyword stands for, given all keywords of its schema. Keywords that say
nothing about documents let every document pass. -/
def ruleOf (parts : List (String × Part)) : String × Part → Schema
  | ("type", .plain j) => .type (((kindNames? j).getD []).filterMap Kind.named?)
  | ("enum", .plain (.array values)) => .oneOf values
  | ("const", .plain value) => .const value
  | ("pattern", .plain (.string source)) =>
    match Pattern.ofString source with
    | .ok p => .pattern source p
    | .error _ => anything
  | ("minLength", .plain (.number n)) => .minLength (countOf n)
  | ("minItems", .plain (.number n)) => .minItems (countOf n)
  | ("minimum", .plain (.number n)) => .minimum n
  | ("required", .plain j) => .required ((texts? j).getD [])
  | ("properties", .fields fs) => .all (fs.map fun f => .property f.1 f.2)
  | ("additionalProperties", .one rule) =>
    let known := match part? "properties" parts with
      | some (.fields fs) => fs.map (·.1)
      | _ => []
    .others known rule
  | ("items", .one rule) => .items rule
  | ("allOf", .many rules) => .all rules
  | ("anyOf", .many rules) => .anyOf rules
  | ("if", .one condition) =>
    match part? "then" parts with
    | some (.one consequence) => .when condition consequence
    | _ => anything
  | ("$ref", .plain (.string name)) => .ref name
  | _ => anything

/-- The rule that the keywords of a schema stand for together. -/
def together (parts : List (String × Part)) : Schema :=
  all (parts.map (ruleOf parts))

mutual

/-- The rule that a schema denotes. -/
def ofJson : Json → Schema
  | .bool b => if b then anything else nothing
  | .object ms => together (partsOf ms)
  | .null => anything
  | .number _ => anything
  | .string _ => anything
  | .array _ => anything
termination_by structural j => j

/-- The keywords of a schema, with what has been read of their values. -/
def partsOf : Json.Members → List (String × Part)
  | [] => []
  | (k, .array xs) :: ms =>
    (k, if shapeOf k = .schemas then .many (rulesOf xs) else .plain (.array xs)) :: partsOf ms
  | (k, .object fs) :: ms =>
    (k, if shapeOf k = .fields then .fields (fieldsOf fs)
      else if shapeOf k = .schema then .one (together (partsOf fs))
      else .plain (.object fs)) :: partsOf ms
  | (k, .bool b) :: ms =>
    (k, if shapeOf k = .schema then .one (if b then anything else nothing) else .plain (.bool b)) ::
      partsOf ms
  | (k, .null) :: ms => (k, .plain .null) :: partsOf ms
  | (k, .number n) :: ms => (k, .plain (.number n)) :: partsOf ms
  | (k, .string s) :: ms => (k, .plain (.string s)) :: partsOf ms
termination_by structural ms => ms

/-- The rules that the schemas of an array denote. -/
def rulesOf : List Json → List Schema
  | [] => []
  | x :: xs => ofJson x :: rulesOf xs
termination_by structural xs => xs

/-- The rules that the schemas of an object denote, by key. -/
def fieldsOf : Json.Members → List (String × Schema)
  | [] => []
  | (k, v) :: ms => (k, ofJson v) :: fieldsOf ms
termination_by structural ms => ms

end

/-! ## References -/

mutual

/-- The names that a document refers to. -/
def references : Json → List String
  | .array xs => itemReferences xs
  | .object ms => memberReferences ms
  | .null => []
  | .bool _ => []
  | .number _ => []
  | .string _ => []
termination_by structural j => j

/-- The names that the documents of an array refer to. -/
def itemReferences : List Json → List String
  | [] => []
  | x :: xs => references x ++ itemReferences xs
termination_by structural xs => xs

/-- The names that the members of an object refer to. -/
def memberReferences : Json.Members → List String
  | [] => []
  | (k, v) :: ms =>
    (match v with
      | .string s => if k = "$ref" then [s] else []
      | v => references v) ++ memberReferences ms
termination_by structural ms => ms

end

/-- The bytes that a text in a reference stands for. A percent sign with two hexadecimal digits
stands for one byte, and all other characters for themselves. -/
def referenceBytes : List Char → List Nat
  | '%' :: a :: b :: cs =>
    match Json.hexDigit? a, Json.hexDigit? b with
    | some x, some y => (16 * x + y) :: referenceBytes cs
    | _, _ => 0x25 :: referenceBytes (a :: b :: cs)
  | c :: cs => (String.utf8EncodeChar c).map (·.toNat) ++ referenceBytes cs
  | [] => []

/-- The pointer that a reference holds; bytes that are no text are left as they are written. -/
def pointer (cs : List Char) : List Char :=
  match Text.decodeUtf8 (referenceBytes cs) with
  | .ok decoded => decoded
  | .error _ => cs

/-- One step of a pointer without its escapes. -/
def unescaped : List Char → List Char
  | '~' :: '1' :: cs => '/' :: unescaped cs
  | '~' :: '0' :: cs => '~' :: unescaped cs
  | c :: cs => c :: unescaped cs
  | [] => []

/-- The part of a document that the steps of a pointer lead to. -/
def partAt? : List (List Char) → Json → Option Json
  | [], j => some j
  | step :: steps, .object ms =>
    (Json.lookup? (String.ofList (unescaped step)) ms).bind (partAt? steps)
  | step :: steps, .array xs =>
    if Text.isDigitRun step then (xs[Text.digitsValue step]?).bind (partAt? steps) else none
  | _ :: _, _ => none

/-- The part of a document that a reference inside it leads to. -/
def resolve? (document : Json) (name : String) : Option Json :=
  match name.toList with
  | [] => some document
  | ['#'] => some document
  | '#' :: '/' :: path => partAt? ((pointer path).splitOn '/') document
  | _ => none

mutual

/-- The names that a rule asks for at the same place of a document. -/
def namesHere : Schema → List String
  | all rules => namesAllHere rules
  | anyOf options => namesAllHere options
  | when condition consequence => namesHere condition ++ namesHere consequence
  | ref name => [name]
  | _ => []
termination_by structural s => s

/-- The names that some rules ask for at the same place of a document. -/
def namesAllHere : List Schema → List String
  | [] => []
  | s :: ss => namesHere s ++ namesAllHere ss
termination_by structural ss => ss

end

namespace Root

/-- Whether names can be followed from a rule to an end without a step into the document; at most a
number of names are followed. -/
def endsWithin (named : List (String × Schema)) : Nat → Schema → Bool
  | 0, _ => false
  | allowance + 1, rule => (namesHere rule).all fun name =>
    (named.find? (·.1 == name)).all fun r => endsWithin named allowance r.2

/-- The rule that a document denotes, with the schemas that it refers to. What references outside
the document mean is not described, nor what names mean that lead back to themselves. -/
def ofJson (document : Json) : Except Fault Root := do
  let named ← (references document).mapM fun name =>
    match resolve? document name with
    | some part => do
      if ← isSchema part then return (name, Schema.ofJson part) else throw (.undescribed name)
    | none => throw (.undescribed name)
  if named.all fun r => endsWithin named (named.length + 1) r.2 then
    return ⟨Schema.ofJson document, named⟩
  else throw (.undescribed "$ref")

end Root

/-- Whether half of a surrogate pair stands alone in the text of a document; `first` tells whether
there is a first half directly before. -/
def hasHalf (first : Bool) : List Char → Bool
  | '\\' :: 'u' :: a :: b :: c :: d :: cs =>
    match Json.hexFour? [a, b, c, d] with
    | some n =>
      if 0xDC00 ≤ n ∧ n < 0xE000 then !first || hasHalf false cs
      else first || hasHalf (0xD800 ≤ n ∧ n < 0xDC00) cs
    | none => first || hasHalf false cs
  | '\\' :: _ :: cs => first || hasHalf false cs
  | _ :: cs => first || hasHalf false cs
  | [] => first

/-- The document of a source; texts with halves of surrogate pairs are not described. -/
def Source.described (source : Source) : Except Fault Json :=
  if hasHalf false source.text then .error (.undescribed "surrogate") else .ok source.document

/-- The library of described schemas; with anything else it meets the fault that this is not
described. The wording of what is wrong with a schema is its own. -/
def Library.described : Library where
  check source := do
    let document ← source.described
    if ← isSchema document then return none
    else return some (.join [document.shown, " is not a schema"])
  validator source j := do
    (← Root.ofJson (← source.described)).validate j

end Schema
end FlowScript
