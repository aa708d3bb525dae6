/-
Snapshots: copies of the last commit of a directory.

`snapshot` hands the files of a commit to a target, the segments file last, and `restore`
replaces the content of a directory by the files that a source gives.  It clears the directory
first, then writes the segments file after all others, and the generation marker at the very
end.
-/
import DocIndex.Storage.Commit
import DocIndex.Storage.Directory

namespace DocIndex.Storage

/-- Where snapshots are put. -/
class SnapshotTarget (τ : Type) where
  /-- Begins the snapshot of a generation. -/
  start : Nat → Step τ Unit
  writeFile : String → Bytes → Step τ Unit
  /-- Writes the file that describes the commit. -/
  writeSegmentsFile : String → Bytes → Step τ Unit
  finish : Step τ Unit

/-- A snapshot as it is read. -/
structure SnapshotReader where
  generation : Nat
  /-- Every file except the segments file. -/
  files : List String
  read : String → Except Error Bytes
  /-- The name and the content of the segments file, if there is one. -/
  segmentsFile : Except Error (Option (String × Bytes))

section Taking

variable {σ τ : Type} [Storage σ] [SnapshotTarget τ]

/-- Copies files of a directory. -/
def copyFiles (directory : σ) : List String → Step τ Unit
  | [] => pure ()
  | name :: rest => do
    let bytes ← Storage.read directory name
    SnapshotTarget.writeFile name bytes
    copyFiles directory rest

/-- The last commit of a directory with the content of its segments file. -/
def committed (directory : σ) : Except Error (Nat × Bytes × Commit) :=
  if Storage.hasFile directory GenerationMarker.fileName then do
    let marker ← Storage.read directory GenerationMarker.fileName
    let generation ← GenerationMarker.decode marker
    let bytes ← Storage.read directory (Commit.fileNameOf generation)
    return (generation, bytes, ← Commit.ofBytes bytes)
  else .error .nothingCommitted

/-- Copies the last commit of a directory; gives its generation. -/
def snapshot (directory : σ) : Step τ Nat := do
  let (generation, bytes, commit) ← committed directory
  SnapshotTarget.start generation
  copyFiles directory commit.segments
  SnapshotTarget.writeSegmentsFile (Commit.fileNameOf generation) bytes
  SnapshotTarget.finish
  return generation

end Taking

section Restoring

variable {σ : Type} [Storage σ]

/-- Deletes files of a directory. -/
def deleteFiles : List String → Step σ Unit
  | [] => pure ()
  | name :: rest => do
    Storage.delete name
    deleteFiles rest

/-- Writes files of a snapshot into a directory. -/
def writeFiles (reader : SnapshotReader) : List String → Step σ Unit
  | [] => pure ()
  | name :: rest => do
    let bytes ← reader.read name
    Storage.write name bytes
    writeFiles reader rest

/-- The segments file of a snapshot; a snapshot without one cannot be restored. -/
def requireSegmentsFile (reader : SnapshotReader) : Except Error (String × Bytes) :=
  match reader.segmentsFile with
  | .ok (some file) => .ok file
  | .ok none => .error .snapshotWithoutSegments
  | .error e => .error e

/-- Replaces the content of a directory by a snapshot; gives its generation. -/
def restore (source : Except Error SnapshotReader) : Step σ Nat := do
  let reader ← source
  let (name, bytes) ← requireSegmentsFile reader
  let generation := (Commit.generationOfName? name).getD reader.generation
  deleteFiles (← Storage.list (← get))
  writeFiles reader reader.files
  Storage.sync
  Storage.write name bytes
  Storage.sync
  Storage.write GenerationMarker.fileName (GenerationMarker.encode generation)
  Storage.sync
  return generation

end Restoring

end DocIndex.Storage
