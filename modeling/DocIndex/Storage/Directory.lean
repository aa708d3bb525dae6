/-
Directories of files.

`Storage` is what the index asks of a directory: questions that leave it as it is, and
steps that change it.  A step that fails keeps what was done before it.  `Directory` is the
plain instance, in memory or on disk.  On disk it is held by a lock that lies in a file of
its own, and a file is replaced by writing a temporary one and renaming it.
-/
import DocIndex.Data.Bytes
import DocIndex.Data.Table
import DocIndex.Error

namespace DocIndex.Storage

/-- A step that changes a state and may fail; a failure keeps the state that it was reached in. -/
abbrev Step (σ : Type) := ExceptT Error (StateM σ)

/-- Runs a step from a state. -/
def Step.runFrom {σ α : Type} (step : Step σ α) (state : σ) : Except Error α × σ :=
  (ExceptT.run step).run state

end Storage

/-- A directory of files as the index uses it. -/
class Storage (σ : Type) where
  /-- The names of the files in order. -/
  list : σ → Except Error (List String)
  read : σ → String → Except Error Bytes
  hasFile : σ → String → Bool
  /-- Replaces the content of a file as a whole. -/
  write : String → Bytes → Storage.Step σ Unit
  delete : String → Storage.Step σ Unit
  /-- Makes sure that what was done lasts. -/
  sync : Storage.Step σ Unit

namespace Storage

/-- Where a directory is. -/
inductive Medium where
  | memory
  | disk
deriving DecidableEq, Repr

/-- A directory and what it holds. -/
structure Directory where
  medium : Medium
  /-- Where the directory is, as messages name it. -/
  location : String
  files : Table String Bytes
  /-- The names that lead to directories. -/
  folders : List String
  /-- Whether the lock file is held. -/
  locked : Bool

namespace Directory

/-- An empty directory in memory. -/
def inMemory : Directory := ⟨.memory, "", [], [], false⟩

/-- An empty directory on disk that nobody holds; some names lead to itself and its parent. -/
def onDisk (location : String) : Directory := ⟨.disk, location, [], ["", ".", ".."], false⟩

/-- The file that the lock lies in. -/
def lockFile : String := "write.lock"

/-- What the names of temporary files end with. -/
def temporaryEnd : String := ".tmp"

/-- Takes the lock. -/
def acquire (d : Directory) : Except Error Directory :=
  if d.locked then .error (.locked d.location)
  else if d.folders.contains lockFile then .error (.inaccessible lockFile)
  else .ok { d with
    files := if Table.contains d.files lockFile then d.files else Table.insert d.files lockFile []
    locked := true }

/-- Opens the directory: in memory as it is, on disk by taking its lock. -/
def opened (d : Directory) : Except Error Directory :=
  match d.medium with
  | .memory => .ok d
  | .disk => d.acquire

/-- Gives the lock up. -/
def release (d : Directory) : Directory := { d with locked := false }

/-- Adds a directory to the directory. -/
def addFolder (d : Directory) (name : String) : Directory :=
  { d with folders := name :: d.folders }

/-- Whether a directory lists a file. -/
def isListed (name : String) : Bool :=
  name != lockFile && !temporaryEnd.toList.isSuffixOf name.toList && !name.toList.contains '/'

/-- The directory that a path on disk leads to, if it is not this one. -/
def parent? (name : String) : Option String :=
  let rest := name.toList.reverse.dropWhile (· != '/')
  if rest.isEmpty then none else some (String.ofList (rest.drop 1).reverse)

/-- Whether a file of that name can stand in the directory. -/
def allows (d : Directory) (name : String) : Bool :=
  !d.folders.contains name &&
    match parent? name with
    | some folder => d.folders.contains folder
    | none => true

/-- The lock lies in its file, and goes with it. -/
def keepLock (d : Directory) (name : String) : Bool := d.locked && name != lockFile

def list (d : Directory) : List String :=
  match d.medium with
  | .memory => Table.keys d.files
  | .disk => (Table.keys d.files).filter isListed

def read (d : Directory) (name : String) : Except Error Bytes :=
  match Table.find? d.files name with
  | some bytes => .ok bytes
  | none => .error (if d.folders.contains name then .inaccessible name else .missingFile name)

def hasFile (d : Directory) (name : String) : Bool := Table.contains d.files name

/-- Writes a file by way of a temporary one. -/
def replace (d : Directory) (name : String) (bytes : Bytes) : Except Error Unit × Directory :=
  let temporary := name ++ temporaryEnd
  if !d.allows temporary then (.error (.inaccessible temporary), d)
  else if !d.allows name then
    (.error (.inaccessible name), { d with files := Table.insert d.files temporary bytes })
  else
    (.ok (), { d with
      files := Table.insert (Table.erase d.files temporary) name bytes
      locked := d.keepLock name })

def write (d : Directory) (name : String) (bytes : Bytes) : Except Error Unit × Directory :=
  match d.medium with
  | .memory => (.ok (), { d with files := Table.insert d.files name bytes })
  | .disk => d.replace name bytes

def delete (d : Directory) (name : String) : Except Error Unit × Directory :=
  match d.read name with
  | .ok _ => (.ok (), { d with files := Table.erase d.files name, locked := d.keepLock name })
  | .error e => (.error e, d)

instance : Storage Directory where
  list d := .ok d.list
  read := read
  hasFile := hasFile
  write name bytes := fun d => d.write name bytes
  delete name := fun d => d.delete name
  sync := pure ()

end Directory

end Storage

end DocIndex
