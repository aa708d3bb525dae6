/-
JSON forms of queries, for tools that show and send them.

A double is given by its bits, so that nothing is lost on the way.  Decoding follows nested
forms to the depth that JSON text can have.
-/
import DocIndex.Data.Bytes
import DocIndex.Json.Decode
import DocIndex.Json.Parser
import DocIndex.Query.Token
import DocIndex.Query.Tree
import DocIndex.Time.Notation

namespace DocIndex

/-- A double by its bits. -/
def Double.toJson (x : Double) : Json :=
  .ofMembers [("f64", .text (if x.isNaN then "nan" else Hex.ofWord x.bits))]

def Moment.toJson (m : Moment) : Json := .text m.write

def Moment.ofJson (j : Json) : Decoded Moment := do
  match Moment.ofRfc3339? (← j.asText).toList with
  | some m => .ok m
  | none => .error "time"

namespace Json

mutual

/-- A document in which every double is given by its bits. -/
def exact : Json → Json
  | double x => x.toJson
  | array items => array (exactItems items)
  | object members => object (exactMembers members)
  | null => null
  | bool b => bool b
  | int n => int n
  | text s => text s

def exactItems : List Json → List Json
  | [] => []
  | item :: rest => exact item :: exactItems rest

def exactMembers : List (String × Json) → List (String × Json)
  | [] => []
  | (key, value) :: rest => (key, exact value) :: exactMembers rest

end

end Json

namespace Query

namespace Operator

/-- The operators with the names of their JSON forms. -/
def names : List (String × Operator) :=
  [("None", plain), ("Equals", equals), ("NotEquals", notEquals), ("GreaterThan", greater),
   ("GreaterThanOrEquals", greaterOrEqual), ("LessThan", less),
   ("LessThanOrEquals", lessOrEqual), ("In", oneOf), ("NotIn", noneOf), ("Similar", similar),
   ("NotSimilar", notSimilar)]

def toJson (op : Operator) : Json :=
  .ofOption (fun entry => .text entry.1) (names.find? fun entry => entry.2 == op)

def ofName (name : String) : Decoded Operator :=
  match names.find? fun entry => entry.1 == name with
  | some entry => .ok entry.2
  | none => .error "operator"

end Operator

def Precision.toJson : Precision → Json
  | .day => .text "Date"
  | .instant => .text "DateTime"

def RelativeTime.toJson (t : RelativeTime) : Json :=
  .ofMembers [("raw", .text t.raw),
    ("anchor", .text (match t.anchor with | .now => "Now" | .today => "Today")),
    ("months", .int t.months), ("seconds", .int t.span.seconds),
    ("nanos", .int t.span.subsecondNanos)]

def RelativeTime.ofJson (j : Json) : Decoded RelativeTime := do
  let anchor := if (← j.textOr "anchor" "Now") == "Today" then Anchor.today else .now
  let seconds ← j.memberOr "seconds" 0 Json.asInt
  return ⟨← j.textAt "raw", anchor, ← j.memberOr "months" 0 Json.asInt,
    ⟨seconds * Span.nanosPerSecond⟩⟩

namespace Value

mutual

def toJson : Value → Json
  | word s => .ofMembers [("string", .text s)]
  | wildcard s => .ofMembers [("wildcard", .text s)]
  | phrase s => .ofMembers [("phrase", .text s)]
  | number x => .ofMembers [("number", x.toJson)]
  | integer n => .ofMembers [("integer", .int n)]
  | time m precision => .ofMembers [("datetime", m.toJson), ("kind", precision.toJson)]
  | relative t => .ofMembers [("offset", t.toJson)]
  | everything => .text "match_all"
  | list values => .ofMembers [("list", .array (listToJson values))]

def listToJson : List Value → List Json
  | [] => []
  | value :: rest => toJson value :: listToJson rest

end

/-- Decodes a value that is nested at most so deep. -/
def ofJsonWithin : Nat → Json → Decoded Value
  | 0, _ => .error "less depth"
  | depth + 1, j => do
    if let .text _ := j then return .everything
    if let some v := j.given? "string" then return .word (← v.asText)
    if let some v := j.given? "wildcard" then return .wildcard (← v.asText)
    if let some v := j.given? "phrase" then return .phrase (← v.asText)
    if let some v := j.given? "number" then return .number (← v.asDouble)
    if let some v := j.given? "integer" then return .integer (← v.asInt)
    if let some v := j.given? "datetime" then
      let ofDay := (← j.textOr "kind" "DateTime") == "Date"
      return .time (← Moment.ofJson v) (if ofDay then .day else .instant)
    if let some v := j.given? "offset" then return .relative (← RelativeTime.ofJson v)
    let values ← (← (← j.need "list").asItems).mapM (ofJsonWithin depth)
    return if ← j.boolOr "flat" false then .flatList values else .list values

def ofJson (j : Json) : Decoded Value := ofJsonWithin (Json.maxDepth + 1) j

end Value

def SortKey.toJson (key : SortKey) : Json :=
  .ofMembers [("name", .text key.field),
    ("direction", .text (if key.descending then "Descending" else "Ascending"))]

def SortKey.ofJson (j : Json) : Decoded SortKey := do
  return ⟨← j.textAt "name", (← j.textOr "direction" "Ascending") == "Descending"⟩

namespace Tree

/-- The member that shows the content types of tags, unless there are no tags. -/
def tagMembers (tags : Tags) : List (String × Json) :=
  if tags.isEmpty then [] else [("contentTypes", .ofOption Json.ofTexts tags.contentTypes?)]

/-- The form of a node of a kind. -/
def nodeToJson (kind : String) (members : List (String × Json)) (tags : Tags) : Json :=
  .ofMembers (("type", .text kind) :: members ++ tagMembers tags)

mutual

def toJson : Tree → Json
  | clause c => nodeToJson "field" [("name", .ofOption Json.text c.field), ("op", c.op.toJson),
      ("value", c.value.toJson)] c.tags
  | all parts tags => nodeToJson "and" [("queries", .array (partsToJson parts))] tags
  | any parts tags => nodeToJson "or" [("queries", .array (partsToJson parts))] tags
  | adjacent parts tags => nodeToJson "implicit" [("queries", .array (partsToJson parts))] tags
  | negated tree tags => nodeToJson "not" [("query", toJson tree)] tags
  | sorted tree keys tags =>
    nodeToJson "ordered" [("query", toJson tree), ("fields", .ofList SortKey.toJson keys)] tags

def partsToJson : List Tree → List Json
  | [] => []
  | tree :: rest => toJson tree :: partsToJson rest

end

/-- The tree with the tags and the content types that its form states. -/
def withTagsOf (j : Json) (tree : Tree) : Decoded Tree := do
  let members ← j.memberOr "metadata" [] Json.asMembers
  let tagged := members.foldl (fun t (key, value) =>
    Tree.mapTags (fun tags => Table.insert tags key value) t) tree
  match ← j.optional "contentTypes" Json.asTexts with
  | some names => return tagged.mapTags fun tags => tags.setContentTypes names
  | none => return tagged

/-- Decodes a tree that is nested at most so deep. -/
def ofJsonWithin : Nat → Json → Decoded Tree
  | 0, _ => .error "less depth"
  | depth + 1, j => do
    let parts := do (← j.itemsAt "queries").mapM (ofJsonWithin depth)
    match ← j.textAt "type" with
    | "field" =>
      withTagsOf j (.clause ⟨← j.optional "name" Json.asText,
        ← Operator.ofName (← j.textOr "op" "None"), ← Value.ofJson (← j.need "value"), []⟩)
    | "and" => withTagsOf j (.all (← parts) [])
    | "or" => withTagsOf j (.any (← parts) [])
    | "implicit" => withTagsOf j (.adjacent (← parts) [])
    | "not" => withTagsOf j (.negated (← ofJsonWithin depth (← j.need "query")) [])
    | "ordered" =>
      let keys ← (← j.itemsAt "fields").mapM SortKey.ofJson
      withTagsOf j (.sorted (← ofJsonWithin depth (← j.need "query")) keys [])
    | _ => .error "kind of node"

def ofJson (j : Json) : Decoded Tree := ofJsonWithin (Json.maxDepth + 1) j

/-- The form of a tree together with its text and size. -/
def describe (tree : Tree) : Json :=
  .ofMembers [("ast", tree.toJson), ("display", .text tree.write), ("nodes", .ofNat tree.size)]

end Tree

namespace Token

/-- The form of a token. -/
def toJson : Token → Json
  | word s => .ofMembers [("Word", .text s)]
  | quoted s => .ofMembers [("Quoted", .text s)]
  | integer n => .ofMembers [("Integer", .int n)]
  | number x => .ofMembers [("Number", x.toJson)]
  | time m precision => .ofMembers [("Date", m.toJson), ("dateKind", precision.toJson),
      ("ticks", .int m.ticks)]
  | relative t => .ofMembers [("Offset", t.toJson), ("dateKind", t.precision.toJson)]
  | operator op => .ofMembers [("Op", op.toJson), ("symbol", .text op.symbol),
      ("ordering", .bool op.isOrdering)]
  | colon => .text "Colon"
  | andWord => .text "And"
  | orWord => .text "Or"
  | notWord => .text "Not"
  | inWord => .text "In"
  | orderWord => .text "Order"
  | byWord => .text "By"
  | ascWord => .text "Asc"
  | descWord => .text "Desc"
  | openParen => .text "LParen"
  | closeParen => .text "RParen"
  | comma => .text "Comma"

end Token

/-- The form of a token with its place; with an instant also what a relative time means then. -/
def PlacedToken.toJson (now : Option Moment) (p : PlacedToken) : Json :=
  let resolved := match p.token, now with
    | .relative t, some now => [("resolved", Json.ofOption Moment.toJson (t.resolve? now))]
    | _, _ => []
  .ofMembers ([("pos", .ofNat p.position), ("describe", .text p.token.describe),
    ("kind", p.token.toJson)] ++ resolved)

end Query

end DocIndex
