/-
The writer of an index that lies in a directory.

Changes are made to the index in memory at once and kept as pending until they are
committed.  A commit writes the pending changes as one segment, then the segments file of the
next generation, and the generation marker last: until the marker is replaced, the commit
before it is the one that counts.
-/
import DocIndex.Storage.Commit
import DocIndex.Storage.Directory
import DocIndex.Storage.Segment

namespace DocIndex.Storage

/-- What was committed last; generation 0 stands for no commit. -/
structure CommitPoint where
  generation : Nat
  segments : List String
  userData : Table String String
deriving DecidableEq

namespace CommitPoint

/-- The point before the first commit. -/
def initial : CommitPoint := ⟨0, [], []⟩

/-- The point that a commit makes. -/
def ofCommit (commit : Commit) : CommitPoint :=
  ⟨commit.generation, commit.segments, commit.userData⟩

end CommitPoint

/-- A writer with the index in memory. -/
structure IndexWriter where
  index : InvertedIndex
  /-- The changes since the last commit, in order. -/
  pending : List Change
  last : CommitPoint
  /-- How segments are compressed. -/
  compression : Compression

namespace IndexWriter

/-- The writer of an index without commits and documents. -/
def empty (compression : Compression) : IndexWriter := ⟨.empty, [], .initial, compression⟩

section Opening

variable {σ : Type} [Storage σ]

/--
The index that the named segments make.  A segment is read after the changes of those before it
were made.
-/
def replaySegments (analyzers : Analyzers) (directory : σ) (index : InvertedIndex) :
    List String → Except Error InvertedIndex
  | [] => .ok index
  | name :: rest => do
    let changes ← Segment.decode (← Storage.read directory name)
    replaySegments analyzers directory (← index.replay analyzers changes) rest

/-- The last commit in a directory and its index. -/
def load (analyzers : Analyzers) (directory : σ) : Except Error (CommitPoint × InvertedIndex) :=
  if Storage.hasFile directory GenerationMarker.fileName then do
    let marker ← Storage.read directory GenerationMarker.fileName
    let generation ← GenerationMarker.decode marker
    let commit ← Commit.ofBytes (← Storage.read directory (Commit.fileNameOf generation))
    let index ← replaySegments analyzers directory .empty commit.segments
    return (.ofCommit commit, index)
  else .ok (.initial, .empty)

/-- The writer at the last commit in a directory. -/
def openAt (analyzers : Analyzers) (compression : Compression) (directory : σ) :
    Except Error IndexWriter :=
  (load analyzers directory).map fun (last, index) => ⟨index, [], last, compression⟩

/--
Gives the changes since the last commit up.  If the last commit cannot be read the writer stays
behind as if there was none.
-/
def rollback (writer : IndexWriter) (analyzers : Analyzers) (directory : σ) :
    Except Error Unit × IndexWriter :=
  match openAt analyzers writer.compression directory with
  | .ok reloaded => (.ok (), reloaded)
  | .error e => (.error e, empty writer.compression)

end Opening

section Changing

variable (writer : IndexWriter) (analyzers : Analyzers)

/-- Adds a document. -/
def add (document : Document) : Except Error (IndexWriter × DocId) := do
  let (index, doc) ← writer.index.add analyzers document
  return ({ writer with index, pending := writer.pending ++ [.add document] }, doc)

/-- Deletes the documents with a term; gives their number. -/
def deleteTerm (field term : String) : IndexWriter × Nat :=
  let (index, count) := writer.index.deleteTerm field term
  ({ writer with index, pending := writer.pending ++ [.deleteTerm field term] }, count)

/-- Puts a document in place of those with a term; nothing is deleted if it cannot be analysed. -/
def update (field term : String) (document : Document) : Except Error (IndexWriter × DocId) := do
  let analyzed ← InvertedIndex.analyze analyzers document
  let (index, doc) := (writer.index.deleteTerm field term).1.insert analyzed
  return ({ writer with
    index, pending := writer.pending ++ [.deleteTerm field term, .add document] }, doc)

/-- Whether there are changes since the last commit. -/
def hasPending : Bool := !writer.pending.isEmpty

end Changing

section Committing

variable {σ : Type} [Storage σ]

/-- Writes the pending changes as a segment, if there are any; gives the segments then. -/
def writePending (writer : IndexWriter) (segment : String) : Step σ (List String) :=
  if writer.hasPending then do
    let file := Segment.fileName segment
    Storage.write file (Segment.encode writer.pending writer.compression)
    return writer.last.segments ++ [file]
  else return writer.last.segments

/-- Makes a commit the one that counts. -/
def publish (commit : Commit) : Step σ Unit := do
  Storage.write commit.fileName commit.toBytes
  Storage.sync
  Storage.write GenerationMarker.fileName (GenerationMarker.encode commit.generation)
  Storage.sync

/-- Removes the segments file of an earlier commit. -/
def removeStale (generation : Nat) : Step σ Unit := do
  let stale := Commit.fileNameOf generation
  if 0 < generation && Storage.hasFile (← get) stale then Storage.delete stale

/--
Commits the pending changes under a name for their segment that is not in use.  A commit that
fails leaves the writer as it was.
-/
def commit (writer : IndexWriter) (segment : String) (userData : Table String String)
    (now : Moment) : Step σ IndexWriter := do
  let segments ← writer.writePending segment
  let commit : Commit := ⟨writer.last.generation + 1, segments, userData, now⟩
  publish commit
  removeStale writer.last.generation
  return { writer with pending := [], last := .ofCommit commit }

end Committing

end IndexWriter

end DocIndex.Storage
