/-
Commands on the files of a directory and drafts of snapshots, as they are given in JSON.
-/
import DocIndex.Exchange.Error
import DocIndex.Exchange.Index
import DocIndex.Storage.Archive

namespace DocIndex.Storage

/-- Decodes the user data of a commit, none by default. -/
def userDataOfJson (j : Json) : Decoded (Table String String) := do
  (← j.memberOr "user_data" [] Json.asMembers).mapM fun (key, value) => do
    return (key, ← value.asText)

/-- What is to be done with files. -/
inductive FileCommand where
  | list
  | read (name : String)
  | write (name : String) (content : Bytes)
  | delete (name : String)
  | hasFile (name : String)
  | sync
  /-- Deletes every segment. -/
  | deleteSegments
  /-- Inverts the last byte of every segment. -/
  | damageSegments

namespace FileCommand

/-- Decodes a command of the given name; other names are none. -/
def ofJson (action : String) (j : Json) : Decoded (Option FileCommand) := do
  let name ← j.textOr "name" ""
  match action with
  | "list" => return some list
  | "read" => return some (read name)
  | "write" => return some (write name (← Bytes.at j "hex"))
  | "write_text" => return some (write name (Bytes.ofText (← j.textOr "text" "")))
  | "delete" => return some (delete name)
  | "exists" => return some (hasFile name)
  | "sync" => return some sync
  | "delete_segments" => return some deleteSegments
  | "corrupt_segments" => return some damageSegments
  | _ => return none

def segments (d : Directory) : List String := d.list.filter fun name => name.endsWith ".seg"

/-- Inverts the last byte of a file. -/
def damage (d : Directory) (name : String) : Directory :=
  match d.read name with
  | .ok bytes => (d.write name (bytes.modify (bytes.length - 1) (· ^^^ 255))).2
  | .error _ => d

/-- The answer of a change. -/
def changed (result : Except Error Unit × Directory) : Directory × Json :=
  (result.2, Json.ofResult (fun _ => .null) result.1)

/-- Does what a command says. -/
def run (d : Directory) : FileCommand → Directory × Json
  | list => (d, .ofTexts d.list)
  | read name => (d, Json.ofResult Bytes.toJson (d.read name))
  | write name content => changed (d.write name content)
  | delete name => changed (d.delete name)
  | hasFile name => (d, .bool (d.hasFile name))
  | sync => (d, .null)
  | deleteSegments => ((segments d).foldl (fun d name => (d.delete name).2) d, .null)
  | damageSegments => ((segments d).foldl damage d, .null)

end FileCommand

/-- A snapshot that is written file by file, and may be left unfinished. -/
structure SnapshotDraft where
  generation : Nat
  files : List (String × Bytes)
  segmentsFile : Option (String × Bytes)
  finish : Bool

namespace SnapshotDraft

def ofJson (j : Json) : Decoded SnapshotDraft := do
  let files ← (← j.memberOr "files" [] Json.asMembers).mapM fun (name, content) => do
    return (name, ← Bytes.ofJson content)
  let text := Bytes.ofText (← j.textOr "segments_text" "")
  return {
    generation := ← j.natOr "generation" 1
    files
    segmentsFile := (← j.optional "segments_name" Json.asText).map fun name => (name, text)
    finish := ← j.boolOr "finish" true }

/-- Writes the draft into an archive. -/
def write (draft : SnapshotDraft) : Step Archive Unit := do
  SnapshotTarget.start draft.generation
  for (name, content) in draft.files do SnapshotTarget.writeFile name content
  if let some (name, content) := draft.segmentsFile then
    SnapshotTarget.writeSegmentsFile name content
  if draft.finish then SnapshotTarget.finish

end SnapshotDraft

end DocIndex.Storage
