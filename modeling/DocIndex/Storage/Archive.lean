/-
Archives: snapshots as folders on disk, one for each generation.

A folder is named by its generation.  Its manifest lists the files and is written at the end,
so a folder without manifest is not a snapshot.  Reading takes the greatest generation.
-/
import DocIndex.Storage.Snapshot

namespace DocIndex.Storage

open Json

/-- What a snapshot folder holds. -/
structure Manifest where
  generation : Nat
  createdAt : Moment
  files : List String
  segmentsFile : Option String

namespace Manifest

def fileName : String := "snapshot.json"

def memberNames : List String := ["generation", "created_at", "files", "segments_file"]

def toJson (manifest : Manifest) : Json :=
  .object [
    ("generation", .int manifest.generation),
    ("created_at", .text manifest.createdAt.writeUtc),
    ("files", .array (manifest.files.map Json.text)),
    ("segments_file", match manifest.segmentsFile with
      | some name => .text name
      | none => .null)]

def ofJson? (json : Json) : Option Manifest := do
  let members ← Member.ofRecord? memberNames json
  return {
    generation := ← (Member.once? members "generation").bind Member.natural?
    createdAt := ← (Member.once? members "created_at").bind readMoment?
    files := ← (Member.once? members "files").bind Member.texts?
    segmentsFile := ← (Member.optional? members "segments_file").bind Member.optionalText? }

def toBytes (manifest : Manifest) : Bytes := Bytes.ofText (manifest.toJson.writeIndented 0)

def ofBytes (bytes : Bytes) : Except Error Manifest :=
  match (bytes.toText?.bind Json.parseWritten?).bind ofJson? with
  | some manifest => .ok manifest
  | none => .error .malformedJson

end Manifest

/-- Folders with the snapshots of an index. -/
structure Archive where
  /-- Where the archive is, as messages name it. -/
  location : String
  folders : Table String (Table String Bytes)
  /-- The manifest of the snapshot that is being written. -/
  draft : Manifest
  /-- The time that new manifests are dated with. -/
  now : Moment

namespace Archive

/-- An archive without snapshots. -/
def empty (location : String) (now : Moment) : Archive :=
  ⟨location, [], ⟨0, now, [], none⟩, now⟩

/-- The folder of a generation. -/
def folderOf (generation : Nat) : String := toString generation

/-- Adds a folder, unless there is one of that name. -/
def addFolder (archive : Archive) (name : String) : Archive :=
  { archive with folders := Table.alter archive.folders name fun files => files.getD [] }

/-- Puts a file into a folder. -/
def putFile (archive : Archive) (folder name : String) (bytes : Bytes) : Archive :=
  { archive with
    folders := Table.alter archive.folders folder fun files =>
      Table.insert (files.getD []) name bytes }

/-- Whether a file of that name can stand in a folder. -/
def allows (name : String) : Bool := !name.isEmpty && !name.toList.contains '/'

/-- Puts a file into the folder of the snapshot that is being written. -/
def write (archive : Archive) (name : String) (bytes : Bytes) (note : Manifest → Manifest) :
    Except Error Unit × Archive :=
  if allows name then
    let written := archive.putFile (folderOf archive.draft.generation) name bytes
    (.ok (), { written with draft := note archive.draft })
  else (.error (.inaccessible name), archive)

instance : SnapshotTarget Archive where
  start generation := fun archive =>
    (.ok (), { archive with
      folders := Table.insert archive.folders (folderOf generation) []
      draft := ⟨generation, archive.now, [], none⟩ })
  writeFile name bytes := fun archive =>
    archive.write name bytes fun draft => { draft with files := draft.files ++ [name] }
  writeSegmentsFile name bytes := fun archive =>
    archive.write name bytes fun draft => { draft with segmentsFile := some name }
  finish := fun archive => archive.write Manifest.fileName archive.draft.toBytes id

/-- The generations whose folders have a manifest. -/
def generations (archive : Archive) : List Nat :=
  archive.folders.filterMap fun (name, files) =>
    if Table.contains files Manifest.fileName then readUInt64? name.toList else none

/-- The greatest of the generations. -/
def newest? (archive : Archive) : Option Nat := archive.generations.max?

/-- Reads a file of a folder. -/
def readFrom (archive : Archive) (folder name : String) : Except Error Bytes :=
  match (Table.find? archive.folders folder).bind fun files => Table.find? files name with
  | some bytes => .ok bytes
  | none => .error (.inaccessible name)

/-- The newest snapshot. -/
def reader (archive : Archive) : Except Error SnapshotReader :=
  match archive.newest? with
  | none => .error (.noSnapshot archive.location)
  | some generation => do
    let folder := folderOf generation
    let manifest ← Manifest.ofBytes (← archive.readFrom folder Manifest.fileName)
    return {
      generation := manifest.generation
      files := manifest.files
      read := archive.readFrom folder
      segmentsFile := match manifest.segmentsFile with
        | some name => (archive.readFrom folder name).map fun bytes => some (name, bytes)
        | none => .ok none }

end Archive

end DocIndex.Storage
