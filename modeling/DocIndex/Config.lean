/-
Settings of an index.
-/
import DocIndex.Codec.Compressed
import DocIndex.Query.Tree.Simplify

namespace DocIndex

/-- What an index is set up with. -/
structure Config where
  /-- How adjacent queries are connected. -/
  defaultConnective : Query.Connective
  phraseSlop : Nat
  fuzzyMaxEdits : Nat
  queryCacheSize : Nat
  /-- How many requests are converted in one job. -/
  batchSize : Nat
  /-- How much work may be under way before sources are asked for more. -/
  capacityCeiling : Nat
  identityField : String
  contentTypeField : String
  defaultContentType : String
  /-- The field that keeps the document as it was written. -/
  sourceField : String
  sourceCompression : Compression
deriving DecidableEq

namespace Config

/-- The settings that hold unless others are given. -/
def default : Config where
  defaultConnective := .or
  phraseSlop := 5
  fuzzyMaxEdits := 2
  queryCacheSize := 256
  batchSize := 250
  capacityCeiling := 20
  identityField := "$id"
  contentTypeField := "$contentType"
  defaultContentType := "document"
  sourceField := "$source"
  sourceCompression := .lz4

instance : Inhabited Config := ⟨default⟩

/-- The conventions that queries are simplified by. -/
def conventions (config : Config) : Query.Conventions :=
  ⟨config.defaultConnective, config.contentTypeField⟩

end Config

end DocIndex
