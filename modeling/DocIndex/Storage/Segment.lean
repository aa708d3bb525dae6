/-
Segments: files that hold changes to the index.

A segment begins with a mark, the length of its header and the header, which gives the
version of the format, the number of changes and a checksum of the body.  The body is a
packed list of changes.  The codec is read off the body's own frame; the header only has to
name one.
-/
import DocIndex.Codec.Compressed
import DocIndex.Codec.Crc32
import DocIndex.Index.Change
import DocIndex.Storage.Record

namespace DocIndex.Storage

namespace Record

/-- A value with the number of its kind. -/
def writeValue : FieldValue → Bytes
  | .term value => writeChoice 0 ++ writeText value
  | .text value analyzer => writeChoice 1 ++ writeText value ++ writeText analyzer
  | .long value => writeChoice 2 ++ writeInt value
  | .double value => writeChoice 3 ++ writeDouble value
  | .stored bytes => writeChoice 4 ++ writeBytes bytes

def readValue : Reader FieldValue := fun bytes => do
  match ← readChoice bytes with
  | (0, rest) => (readText rest).map fun (value, rest) => (.term value, rest)
  | (1, rest) => do
    let (value, rest) ← readText rest
    let (analyzer, rest) ← readText rest
    return (.text value analyzer, rest)
  | (2, rest) => (readInt rest).map fun (value, rest) => (.long value, rest)
  | (3, rest) => (readDouble rest).map fun (value, rest) => (.double value, rest)
  | (4, rest) => (readBytes rest).map fun (value, rest) => (.stored value, rest)
  | _ => none

def writeField (field : Field) : Bytes :=
  writeText field.name ++ writeValue field.value ++ writeBool field.stored ++
    writeBool field.indexed

def readField : Reader Field := fun bytes => do
  let (name, rest) ← readText bytes
  let (value, rest) ← readValue rest
  let (stored, rest) ← readBool rest
  let (indexed, rest) ← readBool rest
  return (⟨name, value, stored, indexed⟩, rest)

def writeChange : Change → Bytes
  | .add document => writeChoice 0 ++ writeList writeField document
  | .deleteTerm field term => writeChoice 1 ++ writeText field ++ writeText term

def readChange : Reader Change := fun bytes => do
  match ← readChoice bytes with
  | (0, rest) => (readList readField rest).map fun (document, rest) => (.add document, rest)
  | (1, rest) => do
    let (field, rest) ← readText rest
    let (term, rest) ← readText rest
    return (.deleteTerm field term, rest)
  | _ => none

end Record

namespace Segment

open Record

/-- The bytes that every segment begins with. -/
def mark : Bytes := [0x4A, 0x44, 0x58, 0x53]

/-- The version of the format. -/
def formatVersion : Nat := 1

/-- What a segment says about its body. -/
structure Header where
  version : Nat
  count : Nat
  checksum : Nat
  compression : Compression
deriving DecidableEq

namespace Header

def write (header : Header) : Bytes :=
  Bytes.littleEndian 4 header.version ++ Bytes.littleEndian 4 header.count ++
    Bytes.littleEndian 4 header.checksum ++ writeChoice header.compression.tag

/-- Reads a header; bytes after it are allowed. -/
def ofBytes? (bytes : Bytes) : Option Header := do
  let (version, rest) ← readNat 4 bytes
  let (count, rest) ← readNat 4 rest
  let (checksum, rest) ← readNat 4 rest
  let (tag, _) ← readChoice rest
  return ⟨version, count, checksum, ← Compression.ofTag? tag⟩

end Header

/-- The packed list of changes. -/
def writeBody (changes : List Change) (compression : Compression) : Bytes :=
  pack (writeList writeChange changes) compression

/-- The checksum of a body as a number. -/
def checksumOf (body : Bytes) : Nat := (Codec.Crc32.checksum body).toNat

/-- A segment of changes. -/
def encode (changes : List Change) (compression : Compression) : Bytes :=
  let body := writeBody changes compression
  let header : Header := ⟨formatVersion, changes.length, checksumOf body, compression⟩
  mark ++ Bytes.littleEndian 4 header.write.length ++ header.write ++ body

/-- The changes that a body holds; bytes after the list are allowed. -/
def readBody (body : Bytes) : Except Error (List Change) := do
  match readList readChange (← unpack body) with
  | some (changes, _) => .ok changes
  | none => .error (.damaged .record)

/-- The header and the body of a segment. -/
def split (bytes : Bytes) : Except Error (Bytes × Bytes) :=
  match bytes.splitAt? 8 with
  | none => .error (.damaged .notASegment)
  | some (start, rest) =>
    if start.take 4 ≠ mark then .error (.damaged .notASegment)
    else
      match rest.splitAt? (Bytes.ofLittleEndian (start.drop 4)) with
      | none => .error (.damaged .headerTruncated)
      | some parts => .ok parts

/-- Reads the changes of a segment. -/
def decode (bytes : Bytes) : Except Error (List Change) := do
  let (headerBytes, body) ← split bytes
  let header ← match Header.ofBytes? headerBytes with
    | some header => .ok header
    | none => .error (.damaged .record)
  if header.version ≠ formatVersion then
    .error (.damaged (.unsupportedVersion header.version))
  else if header.checksum ≠ checksumOf body then .error (.damaged .checksumMismatch)
  else
    let changes ← readBody body
    if changes.length = header.count then .ok changes else .error (.damaged .countMismatch)

/-- The file that holds the segment of a name. -/
def fileName (name : String) : String := name ++ ".seg"

end Segment

end DocIndex.Storage
