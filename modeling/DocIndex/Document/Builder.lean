/-
From a JSON document to the document that is indexed.

`prepare` fills in an identity and a content type, and `build` projects every value that is
not an object, each at its path, and keeps the whole document as its source.  An array gives
its count first and then its elements, which stand at the path of the array.
-/
import DocIndex.Config
import DocIndex.Document.Strategy
import DocIndex.Schema.JsonSchema

namespace DocIndex

/-- The strategies of an index: identities and content types are exact terms. -/
def FieldConfiguration.ofConfig (config : Config) : FieldConfiguration :=
  ⟨[config.identityField, config.contentTypeField], []⟩

/-- The identity that a member of a document gives: a text, or a number as JSON text. -/
def Json.identity? (json : Json) (key : String) : Option String :=
  match json.member? key with
  | some (.text s) => some s
  | some (.int n) => some (Json.int n).write
  | some (.double x) => some (Json.double x).write
  | _ => none

/-- A JSON document in the form in which it is indexed. -/
structure BuiltDocument where
  id : String
  contentType : String
  document : Document
  infos : FieldInfos
  schema : JsonSchema

/-- What documents are built with. -/
structure DocumentBuilder where
  config : Config
  fields : FieldConfiguration
  /-- The analyzers that text fields may name. -/
  analyzers : Analyzers

namespace DocumentBuilder

variable (builder : DocumentBuilder)

/-- The member of an object, unless it is missing or null. -/
def present? (members : List (String × Json)) (key : String) : Option Json :=
  match Table.find? members key with
  | some .null => none
  | found => found

/-- Adds a member unless it is present. -/
def fillIn (members : List (String × Json)) (key value : String) : List (String × Json) :=
  if (present? members key).isSome then members else Table.insert members key (.text value)

/-- Whether a document lacks an identity. -/
def lacksIdentity (json : Json) : Bool :=
  match json with
  | .object members => (present? members builder.config.identityField).isNone
  | _ => false

/-- The document with an identity and a content type; `freshId` is used if it has no identity. -/
def prepare (json : Json) (freshId : String) : Except Error Json :=
  match json with
  | .object members =>
    let config := builder.config
    .ok (.object (fillIn (fillIn members config.identityField freshId)
      config.contentTypeField config.defaultContentType))
  | _ => .error (.notAnObject json.type.name)

/-- The identity that a document states. -/
def identity? (json : Json) : Option String := json.identity? builder.config.identityField

/-- The content type that a document states, or the default one. -/
def contentType (json : Json) : String :=
  ((json.member? builder.config.contentTypeField).bind Json.text?).getD
    builder.config.defaultContentType

/-- Projects a value that is not an object by the strategy for its place. -/
def project (place : Place) (value : Json) : Except Error (List Projection) :=
  match builder.fields.resolve? place value.type with
  | some strategy => do return [← strategy.project value place]
  | none => .ok []

mutual

/-- Projects a value and everything in it. -/
def visit (place : Place) : Json → Except Error (List Projection)
  | .object members => visitMembers place members
  | .array items => do
    let own ← builder.project place (.array items)
    return own ++ (← visitItems place items)
  | .null => builder.project place .null
  | .bool b => builder.project place (.bool b)
  | .int n => builder.project place (.int n)
  | .double x => builder.project place (.double x)
  | .text s => builder.project place (.text s)

/-- Projects the members of an object, each at its own place. -/
def visitMembers (place : Place) : List (String × Json) → Except Error (List Projection)
  | [] => .ok []
  | (key, value) :: rest => do
    let first ← visit (place.child key) value
    return first ++ (← visitMembers place rest)

/-- Projects the items of an array, all at the place of the array. -/
def visitItems (place : Place) : List Json → Except Error (List Projection)
  | [] => .ok []
  | item :: rest => do
    let first ← visit place item
    return first ++ (← visitItems place rest)

end

/-- The first text field whose analyzer is not known. -/
def unknownAnalyzer? (fields : List Field) : Option (String × String) :=
  fields.findSome? fun field =>
    match field.value with
    | .text _ analyzer =>
      if Table.contains builder.analyzers analyzer then none else some (field.name, analyzer)
    | _ => none

/-- The stored field that keeps a document as it was written. -/
def sourceOf (json : Json) : Field :=
  .bytes builder.config.sourceField
    (pack (Bytes.ofText json.write) builder.config.sourceCompression)

/-- Builds a document. -/
def build (json : Json) : Except Error BuiltDocument :=
  match json with
  | .object members => do
    let id ← match builder.identity? json with
      | some id => .ok id
      | none => .error (.noIdentity builder.config.identityField)
    let contentType := builder.contentType json
    let projections ← builder.visitMembers ⟨contentType, ""⟩ members
    let fields := projections.flatMap Projection.fields
    match builder.unknownAnalyzer? fields with
    | some (field, analyzer) => .error (.unknownFieldAnalyzer field analyzer)
    | none =>
      .ok {
        id
        contentType
        document := fields ++ [builder.sourceOf json]
        infos := (projections.flatMap Projection.infos).foldl FieldInfos.add []
        schema := .infer json }
  | _ => .error (.notAnObject json.type.name)

end DocumentBuilder

end DocIndex
