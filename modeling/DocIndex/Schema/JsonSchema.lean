/-
Schemas: the shape of all documents of a content type seen so far.

A schema lists the types seen at a node, the schema of each property and one schema for all
array items.  `merge` joins two schemas, and `grows` tells whether joining adds anything to
the first.
-/
import DocIndex.Document.Strategy

namespace DocIndex

/-- The shape of the values seen at a node. -/
structure JsonSchema where
  /-- The types of the values, in increasing order. -/
  types : List JsonType
  /-- The shapes of the members of objects, by name. -/
  properties : List (String × JsonSchema)
  /-- The shape of the items of arrays, once one was seen. -/
  items : Option JsonSchema
deriving Inhabited

namespace JsonSchema

/-- The shape of nothing. -/
def empty : JsonSchema := ⟨[], [], none⟩

mutual

/-- The join of two shapes. -/
def merge (a : JsonSchema) : JsonSchema → JsonSchema
  | ⟨types, properties, items⟩ =>
    ⟨types.foldl (fun known t => insertSorted t known) a.types,
     mergeProperties a.properties properties, mergeItems a.items items⟩

/-- The join of two tables of properties. -/
def mergeProperties (known : List (String × JsonSchema)) :
    List (String × JsonSchema) → List (String × JsonSchema)
  | [] => known
  | (name, schema) :: rest =>
    let joined := Table.alter known name fun
      | some old => merge old schema
      | none => schema
    mergeProperties joined rest

/-- The join of two shapes of items, either of which may be missing. -/
def mergeItems (known : Option JsonSchema) : Option JsonSchema → Option JsonSchema
  | none => known
  | some schema =>
    match known with
    | some old => some (merge old schema)
    | none => some schema

end

mutual

/-- Whether joining the second shape to the first adds anything. -/
def grows (a : JsonSchema) : JsonSchema → Bool
  | ⟨types, properties, items⟩ =>
    types.any (fun t => !a.types.contains t) || growsProperties a.properties properties ||
      growsItems a.items items

/-- Whether a property is new or its shape grows. -/
def growsProperties (known : List (String × JsonSchema)) : List (String × JsonSchema) → Bool
  | [] => false
  | (name, schema) :: rest =>
    let grown := match Table.find? known name with
      | some old => grows old schema
      | none => true
    grown || growsProperties known rest

/-- Whether the items are new or their shape grows. -/
def growsItems (known : Option JsonSchema) : Option JsonSchema → Bool
  | none => false
  | some schema =>
    match known with
    | some old => grows old schema
    | none => true

end

mutual

/-- The shape of one value. -/
def infer : Json → JsonSchema
  | .object members => ⟨[.object], inferMembers members, none⟩
  | .array items => ⟨[.array], [], inferItems none items⟩
  | .null => ⟨[.null], [], none⟩
  | .bool b => ⟨[(Json.bool b).type], [], none⟩
  | .int n => ⟨[(Json.int n).type], [], none⟩
  | .double x => ⟨[(Json.double x).type], [], none⟩
  | .text s => ⟨[(Json.text s).type], [], none⟩

/-- The shapes of the members of an object. -/
def inferMembers : List (String × Json) → List (String × JsonSchema)
  | [] => []
  | (name, value) :: rest => (name, infer value) :: inferMembers rest

/-- The join of a shape of items and the shapes of further items. -/
def inferItems (known : Option JsonSchema) : List Json → Option JsonSchema
  | [] => known
  | item :: rest =>
    let joined := match known with
      | some old => old.merge (infer item)
      | none => infer item
    inferItems (some joined) rest

end

/-- The name of a type in a JSON schema. -/
def typeName : JsonType → String
  | .object => "object"
  | .array => "array"
  | .text | .date | .timeSpan => "string"
  | .integer => "integer"
  | .float => "number"
  | .boolean => "boolean"
  | .null | .undefined => "null"

/-- The `type` member: a name, or a list unless there is exactly one type. -/
def typeJson (types : List JsonType) : Json :=
  match types with
  | [t] => .text (typeName t)
  | ts => .array (ts.map fun t => .text (typeName t))

mutual

/-- The shape as a JSON schema. -/
def toJson : JsonSchema → Json
  | ⟨types, properties, items⟩ =>
    let format := if types.contains .date then [("format", Json.text "date-time")] else []
    let members := if properties.isEmpty then []
      else [("properties", Json.object (propertiesToJson properties))]
    .ofMembers ([("type", typeJson types)] ++ format ++ members ++ itemsToJson items)

/-- The shapes of properties as JSON schemas. -/
def propertiesToJson : List (String × JsonSchema) → List (String × Json)
  | [] => []
  | (name, schema) :: rest => (name, toJson schema) :: propertiesToJson rest

/-- The `items` member, if there is one. -/
def itemsToJson : Option JsonSchema → List (String × Json)
  | none => []
  | some schema => [("items", toJson schema)]

end

end JsonSchema

/-- Schemas by content type. -/
abbrev SchemaCatalog := Table String JsonSchema

namespace SchemaCatalog

/-- Joins a shape to the one of its content type. -/
def merge (catalog : SchemaCatalog) (contentType : String) (schema : JsonSchema) : SchemaCatalog :=
  Table.alter catalog contentType fun known => (known.getD .empty).merge schema

end SchemaCatalog

end DocIndex
