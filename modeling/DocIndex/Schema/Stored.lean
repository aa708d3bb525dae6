/-
What is known about fields and schemas, as it is stored with a commit.
-/
import DocIndex.Json.Member
import DocIndex.Json.Parser
import DocIndex.Json.Printer
import DocIndex.Schema.JsonSchema

namespace DocIndex

open Json (Member.once? Member.optional?)

/-! ### Observations -/

namespace FieldInfo

def memberNames : List String :=
  ["path", "json_type", "field_name", "field_type", "strategy", "analyzer"]

def toJson (info : FieldInfo) : Json :=
  .ofMembers [("path", .text info.path), ("json_type", .text info.jsonType.name),
    ("field_name", .text info.fieldName), ("field_type", .text info.kind.name),
    ("strategy", .text info.strategy),
    ("analyzer", match info.analyzer with
      | some name => .text name
      | none => .null)]

/-- Reads an observation with all its members. -/
def ofStored? (json : Json) : Option FieldInfo := do
  let members ← Json.Member.ofRecord? memberNames json
  let text? := fun name => (Member.once? members name).bind Json.text?
  return {
    path := ← text? "path"
    jsonType := ← (text? "json_type").bind JsonType.ofName?
    fieldName := ← text? "field_name"
    kind := ← (text? "field_type").bind FieldKind.ofName?
    strategy := ← text? "strategy"
    analyzer := ← (Member.optional? members "analyzer").bind Json.Member.optionalText? }

end FieldInfo

namespace FieldInfos

/-- The observations of each path. -/
def toStored (infos : FieldInfos) : Json :=
  let ofPath := fun path => (path, Json.array ((infos.atPath path).map FieldInfo.toJson))
  .ofMembers [("paths", .object (infos.paths.map ofPath))]

def readPath? : Json → Option (List FieldInfo)
  | .array items => items.mapM FieldInfo.ofStored?
  | _ => none

def ofStored? (json : Json) : Option FieldInfos := do
  let members ← Json.Member.ofRecord? ["paths"] json
  let paths ← (Member.once? members "paths").bind (Json.Member.table? readPath?)
  return paths.values.flatten.foldl FieldInfos.add []

end FieldInfos

namespace FieldCatalog

/-- The catalog as it is stored. -/
def toStored (catalog : FieldCatalog) : Json :=
  .ofMembers [("content_types",
    .object (catalog.map fun entry => (entry.1, FieldInfos.toStored entry.2)))]

def ofStored? (json : Json) : Option FieldCatalog := do
  let members ← Json.Member.ofRecord? ["content_types"] json
  (Member.once? members "content_types").bind (Json.Member.table? FieldInfos.ofStored?)

/-- Reads a stored catalog from its text. -/
def ofText? (text : String) : Option FieldCatalog := (Json.parseWritten? text).bind ofStored?

end FieldCatalog

/-! ### Schemas -/

namespace JsonSchema

mutual

/-- The schema as it is stored. -/
def toStored : JsonSchema → Json
  | ⟨types, properties, items⟩ =>
    .ofMembers [("types", .array (types.map fun t => .text t.name)),
      ("properties", .object (propertiesToStored properties)), ("items", itemsToStored items)]

def propertiesToStored : List (String × JsonSchema) → List (String × Json)
  | [] => []
  | (name, schema) :: rest => (name, toStored schema) :: propertiesToStored rest

def itemsToStored : Option JsonSchema → Json
  | none => .null
  | some schema => toStored schema

end

/-- The members of a stored schema that were read. -/
structure Parts where
  types : Option (List JsonType)
  properties : Option (List (String × JsonSchema))
  items : Option (Option JsonSchema)

/-- The schema of its parts; only the items may be missing. -/
def Parts.whole? (parts : Parts) : Option JsonSchema := do
  return ⟨← parts.types, ← parts.properties, parts.items.getD none⟩

def readTypes? : Json → Option (List JsonType)
  | .array items =>
    (items.mapM fun item => (Json.text? item).bind JsonType.ofName?).map sortedDistinct
  | _ => none

mutual

def ofStored? : Json → Option JsonSchema
  | .object members => (readParts? members).bind Parts.whole?
  | .array [types, properties, items] => do
    return ⟨← readTypes? types, ← readProperties? properties, ← readItems? items⟩
  | _ => none

/-- Reads the members of a stored schema, none of them twice. -/
def readParts? : List (String × Json) → Option Parts
  | [] => some ⟨none, none, none⟩
  | (name, value) :: rest =>
    match readParts? rest with
    | none => none
    | some parts =>
      if name == "types" then
        if parts.types.isSome then none
        else (readTypes? value).map fun types => { parts with types := some types }
      else if name == "properties" then
        if parts.properties.isSome then none
        else (readProperties? value).map fun properties =>
          { parts with properties := some properties }
      else if name == "items" then
        if parts.items.isSome then none
        else (readItems? value).map fun items => { parts with items := some items }
      else some parts

def readProperties? : Json → Option (List (String × JsonSchema))
  | .object members => (readMembers? members).map Table.ofEntries
  | _ => none

def readMembers? : List (String × Json) → Option (List (String × JsonSchema))
  | [] => some []
  | (name, value) :: rest =>
    match ofStored? value, readMembers? rest with
    | some schema, some others => some ((name, schema) :: others)
    | _, _ => none

def readItems? : Json → Option (Option JsonSchema)
  | .null => some none
  | .object members => ((readParts? members).bind Parts.whole?).map some
  | .array [types, properties, items] =>
    match readTypes? types, readProperties? properties, readItems? items with
    | some types, some properties, some items => some (some ⟨types, properties, items⟩)
    | _, _, _ => none
  | _ => none

end

end JsonSchema

namespace SchemaCatalog

/-- The schemas as they are stored. -/
def toStored (schemas : SchemaCatalog) : Json :=
  .ofMembers [("schemas", .object (schemas.map fun entry => (entry.1, entry.2.toStored)))]

def ofStored? (json : Json) : Option SchemaCatalog := do
  let members ← Json.Member.ofRecord? ["schemas"] json
  (Member.once? members "schemas").bind (Json.Member.table? JsonSchema.ofStored?)

/-- Reads stored schemas from their text. -/
def ofText? (text : String) : Option SchemaCatalog := (Json.parseWritten? text).bind ofStored?

end SchemaCatalog

end DocIndex
