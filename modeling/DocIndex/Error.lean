/-
Everything that can go wrong, as causes, and how each is reported.

An error is reported with a kind, which says what a caller can do about it, and a message
that names what was asked for.
-/
import DocIndex.Query.Token

namespace DocIndex

/-- The kinds of errors. -/
inductive ErrorKind where
  | io
  | parse
  | notFound
  | invalidArgument
  | internal
  | invalidInput
  | invalidState
  | configuration
  | conversion
  | corrupted
deriving DecidableEq, Repr

namespace ErrorKind

def name : ErrorKind → String
  | io => "Io"
  | parse => "Parse"
  | notFound => "NotFound"
  | invalidArgument => "InvalidArgument"
  | internal => "Internal"
  | invalidInput => "InvalidInput"
  | invalidState => "InvalidState"
  | configuration => "Configuration"
  | conversion => "Conversion"
  | corrupted => "Corrupted"

/-- All kinds in their order. -/
def all : List ErrorKind :=
  [io, parse, notFound, invalidArgument, internal, invalidInput, invalidState, configuration,
   conversion, corrupted]

/-- A message of this kind as one line. -/
def describe (kind : ErrorKind) (message : String) : String := kind.name ++ ": " ++ message

end ErrorKind

/-- What can be wrong with a compressed block or a segment. -/
inductive Damage where
  | blockTooShort
  | unknownTag (tag : Nat)
  /-- A codec cannot read its data. -/
  | codec
  /-- A serialized value ends early or has an impossible form. -/
  | record
  | notASegment
  | headerTruncated
  | unsupportedVersion (version : Nat)
  | checksumMismatch
  | countMismatch
  | generationMarker
  /-- A segments file is not the JSON text of one. -/
  | segmentsFile
  /-- A document was kept without its source. -/
  | missingSource (document : Nat) (field : String)
deriving DecidableEq

namespace Damage

def message : Damage → String
  | blockTooShort => "Compressed block too short"
  | unknownTag tag => "Unknown compression tag " ++ toString tag
  | codec => "malformed compressed data"
  | record => "malformed record"
  | notASegment => "not a segment file"
  | headerTruncated => "segment header truncated"
  | unsupportedVersion version => "unsupported segment version " ++ toString version
  | checksumMismatch => "segment checksum mismatch"
  | countMismatch => "segment operation count mismatch"
  | generationMarker => "segments.gen must hold 8 bytes"
  | segmentsFile => "segments file: malformed"
  | missingSource document field =>
    "document " ++ toString document ++ " has no stored '" ++ field ++ "'"

end Damage

/-- What can go wrong. -/
inductive Error where
  /-- A file cannot be read or removed. -/
  | inaccessible (file : String)
  | syntaxError (error : Query.SyntaxError)
  | blankQuery
  | malformedJson
  | unknownAnalyzer (name : String)
  | missingFile (name : String)
  | snapshotWithoutSegments
  | noSnapshot (folder : String)
  | locked (directory : String)
  | nothingCommitted
  | sourceDropped
  | sinkRefused
  | schedulerClosed (job : String)
  | commitAbandoned
  /-- Adjacent queries whose connective was not decided. -/
  | undecidedAdjacency
  | listRequired (op : Query.Operator) (field : String) (value : Query.Value)
  | listNotAllowed (field : String)
  | unresolvableTime (value : Query.Value)
  | notComparable (field : String) (value : Query.Value)
  | notFuzzy (field : String) (value : Query.Value)
  | notAnObject (jsonType : String)
  | noIdentity (field : String)
  | unknownFieldAnalyzer (field analyzer : String)
  | cannotProject (contentType jsonType path strategy : String)
  | updateWithoutIdentity (field : String)
  /-- A commit after a write that failed with the given message. -/
  | commitRefused (message : String)
  | jobFailed
  | damaged (damage : Damage)

namespace Error

def kind : Error → ErrorKind
  | inaccessible _ => .io
  | syntaxError _ => .parse
  | blankQuery | malformedJson => .invalidInput
  | unknownAnalyzer _ | missingFile _ => .notFound
  | snapshotWithoutSegments | noSnapshot _ => .invalidArgument
  | locked _ | nothingCommitted | sourceDropped | sinkRefused | schedulerClosed _
  | commitAbandoned => .invalidState
  | undecidedAdjacency | listRequired _ _ _ | listNotAllowed _ | unresolvableTime _
  | notComparable _ _ | notFuzzy _ _ => .configuration
  | notAnObject _ | noIdentity _ | unknownFieldAnalyzer _ _ | cannotProject _ _ _ _
  | updateWithoutIdentity _ | commitRefused _ | jobFailed => .conversion
  | damaged _ => .corrupted

def message : Error → String
  | inaccessible file => file ++ " is not accessible"
  | syntaxError error => error.message
  | blankQuery => "query text is blank"
  | malformedJson => "JSON error: malformed text"
  | unknownAnalyzer name => "Analyzer '" ++ name ++ "' not found"
  | missingFile name => "file " ++ name ++ " not found"
  | snapshotWithoutSegments => "snapshot holds no segments file"
  | noSnapshot folder => "no snapshot under " ++ folder
  | locked directory => "index directory " ++ directory ++ " is locked by another writer"
  | nothingCommitted => "nothing committed to snapshot"
  | sourceDropped => "ingest source dropped before completion"
  | sinkRefused => "sink refused"
  | schedulerClosed job => "scheduler closed, " ++ job ++ " dropped"
  | commitAbandoned => "index closed before the commit completed"
  | undecidedAdjacency =>
    "implicit composite reached lowering; the optimizer is required to resolve it"
  | listRequired op field value =>
    op.symbol ++ " on '" ++ field ++ "' requires a list value, got " ++ value.write
  | listNotAllowed field => "list value on '" ++ field ++ "' requires IN or NOT IN"
  | unresolvableTime value => "unresolvable date '" ++ value.write ++ "'"
  | notComparable field value => "cannot compare '" ++ field ++ "' with " ++ value.write
  | notFuzzy field value =>
    "'" ++ field ++ "' cannot be matched fuzzily against " ++ value.write
  | notAnObject jsonType => "expected a JSON object, got " ++ jsonType
  | noIdentity field => "document has no usable '" ++ field ++ "'"
  | unknownFieldAnalyzer field analyzer =>
    "field '" ++ field ++ "' uses unknown analyzer '" ++ analyzer ++ "'"
  | cannotProject contentType jsonType path strategy =>
    contentType ++ ": cannot project " ++ jsonType ++ " value at '" ++ path ++ "' with the " ++
      strategy ++ " strategy"
  | updateWithoutIdentity field => "update requires an '" ++ field ++ "' value"
  | commitRefused message => "commit refused after failed write: " ++ message
  | jobFailed => "boom"
  | damaged damage => damage.message

end Error

end DocIndex
