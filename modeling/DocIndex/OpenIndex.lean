/-
An index that is open: documents are written to it, and queries find them.

A query is parsed and simplified once and then taken from a cache; it is planned anew every
time, because the plan depends on what is known of the fields by then.  A restored index is
opened afresh with the settings of the one before.
-/
import DocIndex.Document.Hit
import DocIndex.Query.Cache
import DocIndex.Query.Plan
import DocIndex.Query.Tree.Parser
import DocIndex.Query.Tree.Simplify
import DocIndex.Storage.Snapshot
import DocIndex.Text.CharSet
import DocIndex.Writing.Pipeline

namespace DocIndex

open Query (PlanContext QueryCache Tree)
open Storage (SnapshotReader SnapshotTarget Step)
open Work (Priority)

/-- An index that is open. -/
structure OpenIndex (σ : Type) where
  config : Config
  /-- The analyzers that fields may name. -/
  analyzers : Analyzers
  fields : FieldConfiguration
  pipeline : WritePipeline σ
  cache : QueryCache

namespace OpenIndex

variable {σ : Type} [Storage σ]

/-! ### Opening -/

/-- Opens the index in a directory. -/
def openWith (config : Config) (analyzers : Analyzers) (fields : FieldConfiguration)
    (directory : σ) (identifiers : IdentifierSupply) : Except Error (OpenIndex σ) := do
  let store ← DocumentStore.openAt config analyzers directory
  return {
    config
    analyzers
    fields
    pipeline := .ofStore config.capacityCeiling store directory identifiers
    cache := .empty config.queryCacheSize }

/-- Opens the index in a directory with the built-in analyzers and default strategies. -/
def openAt (config : Config) (directory : σ) (identifiers : IdentifierSupply) :
    Except Error (OpenIndex σ) :=
  openWith config Analyzers.builtIn (.ofConfig config) directory identifiers

variable (index : OpenIndex σ)

/-- The documents and what is known of them. -/
def store : DocumentStore := index.pipeline.store

/-- How many documents there are. -/
def size : Nat := index.store.writer.index.size

/-- The number of the last commit. -/
def generation : Nat := index.store.writer.last.generation

/-- The schema of a content type. -/
def schema? (contentType : String) : Option JsonSchema :=
  Table.find? index.store.schemas contentType

/-- Adds an analyzer, in place of one of its name. -/
def register (name : String) (analyzer : Analysis.Analyzer) : OpenIndex σ :=
  { index with analyzers := Table.insert index.analyzers name analyzer }

/-! ### Writing -/

/-- What requests are converted and committed with. -/
def settings (now : Moment) : WriteSettings :=
  ⟨⟨index.config, index.fields, index.analyzers⟩, index.analyzers, now⟩

/-- The index with another pipeline, in which all work is done that can be done. -/
def settled (now : Moment) (pipeline : WritePipeline σ) : OpenIndex σ :=
  { index with pipeline := pipeline.settle (index.settings now) }

/-- Sends requests to the index. -/
def write (requests : List WriteRequest) (priority : Priority) (now : Moment) :
    Step (OpenIndex σ) Unit := do
  let index ← get
  let (result, pipeline) := index.pipeline.submit (index.settings now) requests priority
  set (index.settled now pipeline)
  result

/-- The answer under a number; one that is still missing will never come. -/
def answerOf (result : Except Error Nat) : Except Error Nat := do
  let ticket ← result
  (Table.find? index.pipeline.answers ticket).getD (.error .commitAbandoned)

/-- Commits all that was written before; gives the generation. -/
def commit (now : Moment) : Step (OpenIndex σ) Nat := do
  let index ← get
  let (ticket, pipeline) := index.pipeline.commit (index.settings now)
  let next := index.settled now pipeline
  set next
  next.answerOf ticket

/-- Takes documents in batch by batch; gives their number. -/
def ingest (documents : List Json) (now : Moment) : Step (OpenIndex σ) Nat := do
  let index ← get
  let (ticket, pipeline) := index.pipeline.ingest (index.settings now) documents
  let next := index.settled now pipeline
  set next
  next.answerOf (.ok ticket)

/-- Lets workers leave new requests alone. -/
def pause : OpenIndex σ :=
  { index with pipeline := { index.pipeline with scheduler := index.pipeline.scheduler.pause } }

/-- Lets workers go on. -/
def resume (now : Moment) : OpenIndex σ :=
  index.settled now { index.pipeline with scheduler := index.pipeline.scheduler.resume }

/-! ### Searching -/

/-- Reads a query and brings it to its normal form. -/
def readQuery (config : Config) (text : String) : Except Error Tree :=
  match Tree.parse text with
  | .ok tree => .ok (tree.simplify config.conventions)
  | .error e => .error (.syntaxError e)

/-- The tree of a query. -/
def compile (text : String) : Step (OpenIndex σ) Tree := do
  let index ← get
  let text := String.ofList (Text.trim text.toList)
  if text.isEmpty then throw .blankQuery
  let (result, cache) :=
    index.cache.getOrMake ⟨text, index.config.defaultConnective⟩ (readQuery index.config text)
  set { index with cache }
  result

/-- What queries are planned with. -/
def planContext (now : Moment) : PlanContext :=
  ⟨index.store.catalog, index.analyzers, now, index.config.phraseSlop, index.config.fuzzyMaxEdits⟩

/-- What a query looks up, and how its hits are sorted. -/
def explain (text : String) (now : Moment) :
    Step (OpenIndex σ) (Lookup × Option (List SortField)) := do
  let tree ← compile text
  let index ← get
  (index.planContext now).plan tree

/-- Reads documents back, up to the first that cannot be. -/
def readHits (documents : InvertedIndex) (config : Config) (docs : List DocId) :
    Except Error (List Hit) :=
  docs.mapM (Hit.read documents config.sourceField config.identityField)

/-- Finds the documents of a query, and reads the first so many of them back. -/
def search (text : String) (limit : Option Nat) (now : Moment) :
    Step (OpenIndex σ) SearchResults := do
  let (lookup, keys) ← explain text now
  let index ← get
  let documents := index.store.writer.index
  let (docs, total) := documents.search lookup (keys.getD []) limit
  return ⟨← readHits documents index.config docs, total⟩

/-- Counts the documents of a query. -/
def count (text : String) (now : Moment) : Step (OpenIndex σ) Nat := do
  let (lookup, _) ← explain text now
  return ((← get).store.writer.index.matching lookup).length

/-! ### Snapshots -/

/-- Copies the last commit; gives its generation. -/
def snapshot {τ : Type} [SnapshotTarget τ] : Step τ Nat :=
  Storage.snapshot index.pipeline.directory

/-- Ends all work; what was not committed is lost with the index. -/
def close (now : Moment) : σ := (index.pipeline.close (index.settings now)).directory

/--
Replaces the content of the directory by a snapshot and opens the index again.  Whatever comes
of it, this index is closed, and the directory is given back.
-/
def restore (source : Except Error SnapshotReader) (now : Moment) :
    Except Error (OpenIndex σ) × σ :=
  let (result, directory) := (Storage.restore source).runFrom (index.close now)
  (do
    let _ ← result
    openWith index.config index.analyzers index.fields directory index.pipeline.identifiers,
   directory)

end OpenIndex

end DocIndex
