/-
The documents of an index, with what is known of their fields and schemas.

What is known travels with every commit as its user data, so that it is read back with the
documents.  Edits are delivered one chunk after the other.  A chunk that was not converted,
or that could not be made in full, is held against the next commit: that commit is refused,
and the one after it counts again.
-/
import DocIndex.Schema.Stored
import DocIndex.Storage.Writer
import DocIndex.Writing.Request

namespace DocIndex

open Storage (IndexWriter Step)

/-- The documents of an index that is written to. -/
structure DocumentStore where
  writer : IndexWriter
  catalog : FieldCatalog
  schemas : SchemaCatalog
  /-- The field that documents are updated and deleted by. -/
  identityField : String
  /-- The first failure since a commit was last asked for. -/
  failure : Option Error

/-- What arrives at a store, in the order of the requests. -/
inductive Delivery where
  | edits (edits : List Edit)
  /-- A chunk of requests that was not converted. -/
  | failed (error : Error)
  /-- A commit, to be answered under a number. -/
  | commit (ticket : Nat)
  | nothing

namespace DocumentStore

/-- Where a commit keeps what is known of fields. -/
def fieldInfosKey : String := "jsondex.fieldInfos"

/-- Where a commit keeps the schemas. -/
def schemasKey : String := "jsondex.schemas"

section Opening

/-- Reads a part of the user data that may be missing. -/
def readUserData {α : Type} (userData : Table String String) (key : String)
    (ofText? : String → Option α) (missing : α) : Except Error α :=
  match Table.find? userData key with
  | none => .ok missing
  | some text =>
    match ofText? text with
    | some value => .ok value
    | none => .error .malformedJson

/-- The store at the last commit of a writer. -/
def ofWriter (writer : IndexWriter) (identityField : String) : Except Error DocumentStore := do
  let userData := writer.last.userData
  let catalog ← readUserData userData fieldInfosKey FieldCatalog.ofText? []
  let schemas ← readUserData userData schemasKey SchemaCatalog.ofText? []
  return ⟨writer, catalog, schemas, identityField, none⟩

/-- The store at the last commit in a directory. -/
def openAt {σ : Type} [Storage σ] (config : Config) (analyzers : Analyzers) (directory : σ) :
    Except Error DocumentStore := do
  ofWriter (← IndexWriter.openAt analyzers config.sourceCompression directory)
    config.identityField

end Opening

variable (store : DocumentStore)

/-- Notes what a document shows of its fields and its schema. -/
def record (document : BuiltDocument) : DocumentStore :=
  { store with
    catalog := store.catalog.merge document.contentType document.infos
    schemas := store.schemas.merge document.contentType document.schema }

/-- The store with another writer, or as it is together with the error. -/
def withWriter (result : Except Error (IndexWriter × DocId)) : Except Error Unit × DocumentStore :=
  match result with
  | .ok (writer, _) => (.ok (), { store with writer })
  | .error e => (.error e, store)

/-- Makes an edit.  What a document shows is noted before the document is put in. -/
def makeEdit (analyzers : Analyzers) : Edit → Except Error Unit × DocumentStore
  | .add doc =>
    let noted := store.record doc
    noted.withWriter (noted.writer.add analyzers doc.document)
  | .replace doc =>
    let noted := store.record doc
    noted.withWriter (noted.writer.update analyzers store.identityField doc.id doc.document)
  | .delete id =>
    (.ok (), { store with writer := (store.writer.deleteTerm store.identityField id).1 })

/-- Makes edits up to the first that fails. -/
def makeEdits (analyzers : Analyzers) (store : DocumentStore) :
    List Edit → Except Error Unit × DocumentStore
  | [] => (.ok (), store)
  | edit :: rest =>
    match store.makeEdit analyzers edit with
    | (.ok _, next) => makeEdits analyzers next rest
    | (.error e, next) => (.error e, next)

/-- Holds a failure against the next commit, unless an earlier one is held. -/
def hold (error : Error) : DocumentStore :=
  { store with failure := some (store.failure.getD error) }

/-- Makes the edits of a chunk. -/
def takeEdits (analyzers : Analyzers) (edits : List Edit) : DocumentStore :=
  match store.makeEdits analyzers edits with
  | (.ok _, next) => next
  | (.error e, next) => next.hold e

/-- The user data that a commit carries. -/
def userData : Table String String :=
  .ofEntries [(fieldInfosKey, store.catalog.toStored.write),
    (schemasKey, store.schemas.toStored.write)]

section Committing

variable {σ : Type} [Storage σ]

/--
Answers a commit: with a refusal if a failure is held, which is then forgotten, and otherwise
with the generation.
-/
def answerCommit (segment : String) (now : Moment) (directory : σ) :
    Except Error Nat × DocumentStore × σ :=
  match store.failure with
  | some e => (.error (.commitRefused e.message), { store with failure := none }, directory)
  | none =>
    match (store.writer.commit segment store.userData now).runFrom directory with
    | (.ok writer, directory) =>
      (.ok writer.last.generation, { store with writer }, directory)
    | (.error e, directory) => (.error e, store, directory)

end Committing

end DocumentStore

end DocIndex
