/-
Commits: which segments make up the index.

The segments file of a generation describes a commit, and the generation marker names the
generation that counts.  A reader of such files takes a JSON object in which every member
that it knows stands once, or an array of the members' values in their order.
-/
import DocIndex.Data.Bytes
import DocIndex.Error
import DocIndex.Json.Member
import DocIndex.Json.Parser
import DocIndex.Json.Printer
import DocIndex.Time.Notation

namespace DocIndex.Storage

open Json

/-- The instant that a text in a file gives. -/
def readMoment? (json : Json) : Option Moment :=
  (Json.text? json).bind fun text => (Moment.ofLooseText? text.toList).map Moment.utc

/-- A commit: the files whose changes, in order, make the index. -/
structure Commit where
  generation : Nat
  segments : List String
  /-- What the user of the index keeps with it. -/
  userData : Table String String
  createdAt : Moment

namespace Commit

/-- What the name of every segments file begins with. -/
def fileNameStart : String := "segments_"

/-- The file that describes the commit of a generation. -/
def fileNameOf (generation : Nat) : String := fileNameStart ++ toString generation

/-- The file that describes the commit. -/
def fileName (commit : Commit) : String := fileNameOf commit.generation

/-- The generation that the name of a segments file gives. -/
def generationOfName? (name : String) : Option Nat :=
  let start := fileNameStart.toList
  let chars := name.toList
  if start.isPrefixOf chars then readUInt64? (chars.drop start.length) else none

/-- The members of a segments file. -/
def memberNames : List String := ["generation", "segments", "user_data", "created_at"]

def toJson (commit : Commit) : Json :=
  .object [
    ("generation", .int commit.generation),
    ("segments", .array (commit.segments.map Json.text)),
    ("user_data", .object (commit.userData.map fun entry => (entry.1, .text entry.2))),
    ("created_at", .text commit.createdAt.writeUtc)]

def ofJson? (json : Json) : Option Commit := do
  let members ← Member.ofRecord? memberNames json
  return {
    generation := ← (Member.once? members "generation").bind Member.natural?
    segments := ← (Member.once? members "segments").bind Member.texts?
    userData := ← (Member.once? members "user_data").bind (Member.table? Json.text?)
    createdAt := ← (Member.once? members "created_at").bind readMoment? }

/-- The content of the segments file. -/
def toText (commit : Commit) : String := commit.toJson.writeIndented 0

def toBytes (commit : Commit) : Bytes := Bytes.ofText commit.toText

/-- Reads a segments file. -/
def ofBytes (bytes : Bytes) : Except Error Commit :=
  match (bytes.toText?.bind Json.parseWritten?).bind ofJson? with
  | some commit => .ok commit
  | none => .error (.damaged .segmentsFile)

end Commit

/-! ### The generation marker -/

namespace GenerationMarker

/-- The file that names the generation that counts. -/
def fileName : String := "segments.gen"

def encode (generation : Nat) : Bytes := Bytes.littleEndian 8 generation

def decode (bytes : Bytes) : Except Error Nat :=
  if bytes.length = 8 then .ok (Bytes.ofLittleEndian bytes)
  else .error (.damaged .generationMarker)

end GenerationMarker

end DocIndex.Storage
