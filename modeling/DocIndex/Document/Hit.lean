/-
Hits: documents that were found, read back from the source that they were stored with.

What is indexed of a document never takes part in reading it back.
-/
import DocIndex.Index.Search
import DocIndex.Json.Parser
import DocIndex.Document.Builder

namespace DocIndex

/-- A document that was found. -/
structure Hit where
  doc : DocId
  id : Option String
  source : Json

namespace Hit

/-- Reads JSON out of a packed block. -/
def unpackJson (bytes : Bytes) : Except Error Json := do
  match (Bytes.toText? (← unpack bytes)).bind Json.parse? with
  | some json => .ok json
  | none => .error .malformedJson

/-- Reads a document back from the given field. -/
def read (index : InvertedIndex) (sourceField identityField : String) (doc : DocId) :
    Except Error Hit :=
  match index.stored? doc sourceField with
  | none => .error (.damaged (.missingSource doc sourceField))
  | some bytes => do
    let source ← unpackJson bytes
    return ⟨doc, source.identity? identityField, source⟩

end Hit

/-- What a search found. -/
structure SearchResults where
  hits : List Hit
  /-- How many documents match, those beyond the limit included. -/
  total : Nat

namespace SearchResults

def empty : SearchResults := ⟨[], 0⟩

/-- The values that hits have in a member, in the order of the hits. -/
def valuesOf (results : SearchResults) (property : String) : List Json :=
  results.hits.filterMap fun hit => hit.source.member? property

end SearchResults

end DocIndex
