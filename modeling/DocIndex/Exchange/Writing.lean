/-
JSON forms of requests, documents and edits, and the figures of writers, stores and caches.
-/
import DocIndex.Document.Hit
import DocIndex.Exchange.Error
import DocIndex.Exchange.Index
import DocIndex.Query.Cache
import DocIndex.Work.Queue
import DocIndex.Writing.Store

namespace DocIndex

def Work.Priority.ofName (name : String) : Decoded Work.Priority :=
  match name with
  | "Highest" => .ok .highest
  | "High" => .ok .high
  | "Medium" => .ok .medium
  | "Low" => .ok .low
  | _ => .error "priority"

/-- Decodes the priority of a request, which is high unless it is given. -/
def Work.Priority.ofMember (j : Json) : Decoded Work.Priority := do
  Work.Priority.ofName (← j.textOr "priority" "High")

/-- Decodes a request, an object of one member. -/
def WriteRequest.ofJson (j : Json) : Decoded WriteRequest := do
  match ← j.asMembers with
  | [("create", document)] => return .create document
  | [("update", document)] => return .update document
  | [("delete", .text id)] => return .delete id
  | _ => .error "request"

/-- Decodes the requests of a command of the given name; other names ask for no requests. -/
def WriteRequest.listOfJson (action : String) (j : Json) :
    Decoded (Option (List WriteRequest)) := do
  match action with
  | "create" => return some ((← j.itemsAt "docs").map .create)
  | "update" => return some ((← j.itemsAt "docs").map .update)
  | "delete" => return some ((← j.textsAt "ids").map .delete)
  | "write" => return some (← (← j.itemsAt "requests").mapM WriteRequest.ofJson)
  | _ => return none

/-- A native document: its fields, and those of the given names. -/
def Document.describe (document : Document) (names : List String) : Json :=
  let named := fun name =>
    let found := document.named name
    Json.array [.ofOption Field.toJson found.head?, .ofNat found.length]
  .ofMembers [("len", .ofNat document.length), ("named", .ofList named names),
    ("empty", .bool document.isEmpty), ("fields", document.toJson)]

/-- A document as it was built. -/
def BuiltDocument.members (built : BuiltDocument) (names : List String) : List (String × Json) :=
  [("id", .text built.id), ("content_type", .text built.contentType),
    ("document", built.document.describe names), ("infos", FieldInfos.toJson built.infos),
    ("schema", built.schema.toJson)]

/-- The kind of a change to a document, and how much the document brings. -/
def BuiltDocument.summary (kind : String) (document : BuiltDocument) : Json :=
  .array [.text kind, .text document.id, .text document.contentType,
    .ofNat document.document.length, .ofNat document.infos.length]

def Edit.toJson : Edit → Json
  | .add document => document.summary "add"
  | .replace document => document.summary "update"
  | .delete id => .ofTexts ["delete", id]

def Delivery.toJson : Delivery → Json
  | .edits changes => .ofMembers [("ops", .ofList Edit.toJson changes)]
  | .failed e => .ofMembers [("failed", e.toJson)]
  | .commit _ => .text "commit"
  | .nothing => .text "noop"

/-- A result together with the figures of the writer behind it. -/
def Storage.IndexWriter.figures (writer : Storage.IndexWriter) (result : Json) : Json :=
  .ofMembers [("result", result), ("num", .ofNat writer.index.size),
    ("max", .ofNat writer.index.nextDoc), ("generation", .ofNat writer.last.generation),
    ("uncommitted", .bool writer.hasPending)]

/-- The identity that a document was stored with, if it can be read back. -/
def DocumentStore.identityOf (store : DocumentStore) (sourceField : String) (doc : DocId) : Json :=
  match Hit.read store.writer.index sourceField store.identityField doc with
  | .ok hit => .ofOption Json.text hit.id
  | .error _ => .null

/-- The figures of a store, and the identities of its documents. -/
def DocumentStore.figures (store : DocumentStore) (sourceField : String) : Json :=
  let index := store.writer.index
  .ofMembers [("num", .ofNat index.size), ("max", .ofNat index.nextDoc),
    ("generation", .ofNat store.writer.last.generation),
    ("types", .ofTexts (Table.keys store.catalog)), ("uncommitted", .bool store.writer.hasPending),
    ("ids", .ofList (store.identityOf sourceField) index.live)]

def Query.QueryCache.figures (cache : Query.QueryCache) : Json :=
  .ofMembers [("hits", .ofNat cache.hits), ("misses", .ofNat cache.misses),
    ("size", .ofNat cache.size), ("capacity", .ofNat cache.limit), ("rate", cache.hitRate.toJson)]

end DocIndex
