/-
JSON forms of what the index holds and is asked for.
-/
import DocIndex.Document.Hit
import DocIndex.Exchange.Query
import DocIndex.Schema.Stored
import DocIndex.Storage.Writer
import DocIndex.Text.Lossy

namespace DocIndex

def Bytes.toJson (bytes : Bytes) : Json := .text (Hex.encode bytes)

def Bytes.ofJson (j : Json) : Decoded Bytes := do
  match Hex.decode? (← j.asText) with
  | some bytes => .ok bytes
  | none => .error "hexadecimal digits"

/-- The bytes of a member, none by default. -/
def Bytes.at (j : Json) (key : String) : Decoded Bytes := j.memberOr key [] Bytes.ofJson

/-! ### What is known about fields -/

def JsonType.ofName (name : String) : Decoded JsonType :=
  match JsonType.ofName? name with
  | some type => .ok type
  | none => .error "type"

def FieldKind.ofName (name : String) : Decoded FieldKind :=
  match FieldKind.ofName? name with
  | some kind => .ok kind
  | none => .error "kind of field"

/-- Decodes an observation; by default the field has the name of the path. -/
def FieldInfo.ofJson (j : Json) : Decoded FieldInfo := do
  let path ← j.textAt "path"
  return ⟨path, ← JsonType.ofName (← j.textAt "json_type"), ← j.textOr "field_name" path,
    ← FieldKind.ofName (← j.textAt "field_type"), ← j.textOr "strategy" "test",
    ← j.optional "analyzer" Json.asText⟩

def FieldInfos.toJson (infos : FieldInfos) : Json := .ofList FieldInfo.toJson infos

/-- A collection of observations, and those at a path or of a field of the given name. -/
def FieldInfos.describe (name : String) (infos : FieldInfos) : Json :=
  .ofMembers [("paths", .ofTexts infos.paths), ("infos", infos.toJson),
    ("get", .ofNat (infos.atPath name).length),
    ("by_field_name", FieldInfos.toJson (infos.ofField name))]

/-- A catalog of lists of observations by content type. -/
def FieldCatalog.ofLists (j : Json) : Decoded FieldCatalog := do
  (← j.asMembers).foldlM (fun catalog (name, infos) => do
    let infos ← (← infos.asItems).mapM FieldInfo.ofJson
    return FieldCatalog.merge catalog name (infos.foldl FieldInfos.add [])) []

def FieldUse.toJson : FieldUse → Json
  | .numeric kind => .text ("Numeric(" ++ kind.name ++ ")")
  | .date => .text "Date"
  | .lexical => .text "Lexical"
  | .unknown => .text "Unknown"

/-! ### Lookups -/

def orderingToJson : Ordering → Json
  | .lt => .text "Less"
  | .eq => .text "Equal"
  | .gt => .text "Greater"

def Numeric.toJson : Numeric → Json
  | .long n => .ofMembers [("Long", .int n)]
  | .double x => .ofMembers [("Double", x.toJson)]

def Numeric.ofJson (j : Json) : Decoded Numeric := do
  match j.given? "Long" with
  | some n => return .long (← n.asInt)
  | none => return .double (← (← j.need "Double").asDouble)

def Interval.toJson {α : Type} (encode : α → Json) (field : String) (interval : Interval α) :
    Json :=
  .ofMembers [("field", .text field), ("lower", .ofOption encode interval.lower),
    ("upper", .ofOption encode interval.upper), ("include_lower", .bool interval.includeLower),
    ("include_upper", .bool interval.includeUpper)]

def Interval.ofJson {α : Type} (decode : Json → Decoded α) (j : Json) : Decoded (Interval α) := do
  return ⟨← j.optional "lower" decode, ← j.optional "upper" decode,
    ← j.boolOr "include_lower" false, ← j.boolOr "include_upper" false⟩

namespace Lookup

/-- The form of a phrase. -/
def phraseToJson (field : String) (words : List (String × Nat)) (slop : Nat) : Json :=
  .ofMembers [("field", .text field),
    ("phrase", .ofList (fun word => .array [.text word.1, .ofNat word.2]) words),
    ("slop", .ofNat slop)]

mutual

def toJson : Lookup → Json
  | everything => .text "MatchAll"
  | term field value =>
    .ofMembers [("Term", .ofMembers [("field", .text field), ("value", .text value)])]
  | phrase field words slop => .ofMembers [("Phrase", phraseToJson field words slop)]
  | combine must should mustNot =>
    .ofMembers [("Bool", .ofMembers [("must", .array (listToJson must)),
      ("should", .array (listToJson should)), ("must_not", .array (listToJson mustNot))])]
  | terms field interval => .ofMembers [("TermRange", interval.toJson Json.text field)]
  | numbers field interval => .ofMembers [("NumericRange", interval.toJson Numeric.toJson field)]
  | wildcard field pattern =>
    .ofMembers [("Wildcard", .ofMembers [("field", .text field), ("pattern", .text pattern)])]
  | fuzzy field model maxEdits =>
    .ofMembers [("Fuzzy", .ofMembers [("field", .text field), ("term", .text model),
      ("max_edits", .ofNat maxEdits)])]

def listToJson : List Lookup → List Json
  | [] => []
  | lookup :: rest => toJson lookup :: listToJson rest

end

/-- Decodes a term of a phrase with its place. -/
def placedTerm (j : Json) : Decoded (String × Nat) := do
  match j with
  | .array [text, place] => return (← text.asText, ← place.asNat)
  | _ => .error "term and place"

/-- Decodes a lookup that is nested at most so deep. -/
def ofJsonWithin : Nat → Json → Decoded Lookup
  | 0, _ => .error "less depth"
  | depth + 1, j => do
    let .object [(kind, q)] := j | return .everything
    let field := q.textAt "field"
    match kind with
    | "Term" => return .term (← field) (← q.textAt "value")
    | "Phrase" =>
      return .phrase (← field) (← (← q.itemsAt "phrase").mapM placedTerm) (← q.natOr "slop" 0)
    | "Bool" =>
      let part := fun key => do (← q.itemsAt key).mapM (ofJsonWithin depth)
      return .combine (← part "must") (← part "should") (← part "must_not")
    | "TermRange" => return .terms (← field) (← Interval.ofJson Json.asText q)
    | "NumericRange" => return .numbers (← field) (← Interval.ofJson Numeric.ofJson q)
    | "Wildcard" => return .wildcard (← field) (← q.textAt "pattern")
    | "Fuzzy" => return .fuzzy (← field) (← q.textAt "term") (← q.natOr "max_edits" 0)
    | _ => .error "kind of lookup"

def ofJson (j : Json) : Decoded Lookup := ofJsonWithin (Json.maxDepth + 1) j

end Lookup

def SortField.toJson (key : SortField) : Json :=
  .ofMembers [("field", .text key.field), ("descending", .bool key.descending)]

def SortField.ofJson (j : Json) : Decoded SortField := do
  return ⟨← j.textAt "field", ← j.boolOr "descending" false⟩

/-- The form of a plan: the lookup and the order that is asked for. -/
def Lookup.planToJson (plan : Lookup × Option (List SortField)) : Json :=
  .ofMembers [("query", plan.1.toJson),
    ("sort", .ofOption (Json.ofList SortField.toJson) plan.2)]

/-! ### Documents -/

/-- The form of stored bytes: the text of a packed block, or the bytes. -/
def Bytes.storedToJson (bytes : Bytes) : Json :=
  match CompressedBlock.ofBytes bytes with
  | .ok block =>
    match block.decompress with
    | .ok data =>
      .ofMembers [("StoredText", .ofMembers [("tag", .ofNat block.compression.tag),
        ("size", .ofNat block.size), ("text", .text (String.ofList (Text.ofBytes data)))])]
    | .error _ => .ofMembers [("Stored", bytes.toJson)]
  | .error _ => .ofMembers [("Stored", bytes.toJson)]

def FieldValue.toJson : FieldValue → Json
  | .term s => .ofMembers [("Term", .text s)]
  | .text s analyzer =>
    .ofMembers [("Text", .ofMembers [("text", .text s), ("analyzer", .text analyzer)])]
  | .long n => .ofMembers [("Long", .int n)]
  | .double x => .ofMembers [("Double", x.toJson)]
  | .stored bytes => bytes.storedToJson

def Field.toJson (field : Field) : Json :=
  .ofMembers [("name", .text field.name), ("value", field.value.toJson),
    ("type", .text field.kind.name), ("stored", .bool field.stored),
    ("indexed", .bool field.indexed)]

/-- Decodes the value of a field with the flags that it has by default. -/
def Field.ofValue (name : String) (j : Json) : Decoded Field := do
  if let some v := j.given? "term" then return .term name (← v.asText)
  if let some v := j.given? "text" then
    return .text name (← v.asText) (← j.textOr "analyzer" Analyzers.standardName)
  if let some v := j.given? "long" then return .long name (← v.asInt)
  if let some v := j.given? "double" then return .double name (← v.asDouble)
  return .bytes name (← Bytes.ofJson (← j.need "stored"))

def Field.ofJson (j : Json) : Decoded Field := do
  let field ← Field.ofValue (← j.textAt "name") j
  return { field with
    indexed := ← j.boolOr "indexed" field.indexed, stored := ← j.boolOr "is_stored" field.stored }

def Document.toJson (document : Document) : Json := .ofList Field.toJson document

def Document.ofJson (j : Json) : Decoded Document := do (← j.asItems).mapM Field.ofJson

def Projection.toJson (p : Projection) : Json :=
  .ofMembers [("path", .text p.path), ("json_type", .text p.jsonType.name),
    ("strategy", .text p.strategy), ("fields", Document.toJson p.fields),
    ("infos", FieldInfos.toJson p.infos)]

def Change.toJson : Change → Json
  | .add document => .ofMembers [("add", document.toJson)]
  | .deleteTerm field term => .ofMembers [("field", .text field), ("term", .text term)]

def Change.ofJson (j : Json) : Decoded Change := do
  match j.given? "add" with
  | some document => return .add (← Document.ofJson document)
  | none => return .deleteTerm (← j.textAt "field") (← j.textAt "term")

def Posting.toJson (p : Posting) : Json :=
  .array [.ofNat p.doc, .ofNat p.frequency, .ofList Json.ofNat p.positions]

def SortValue.toJson : SortValue → Json
  | .text s => .ofMembers [("Text", .text s)]
  | .number n => n.toJson

def Hit.toJson (hit : Hit) : Json :=
  .ofMembers [("doc", .ofNat hit.doc), ("id", .ofOption Json.text hit.id),
    ("source", hit.source.exact)]

def SearchResults.toJson (results : SearchResults) : Json :=
  .ofMembers [("total", .ofNat results.total), ("len", .ofNat results.hits.length),
    ("empty", .bool results.hits.isEmpty), ("hits", .ofList Hit.toJson results.hits)]

end DocIndex
