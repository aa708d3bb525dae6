/-
Changes to the index: what a segment holds and what makes an index when it is replayed.
-/
import DocIndex.Index.Inverted

namespace DocIndex

/-- A change to the index. -/
inductive Change where
  | add (document : Document)
  /-- Deletes the documents with a term. -/
  | deleteTerm (field term : String)
deriving DecidableEq

namespace InvertedIndex

/-- Puts a document into the index; text for an unknown analyzer is an error. -/
def add (index : InvertedIndex) (analyzers : Analyzers) (document : Document) :
    Except Error (InvertedIndex × DocId) :=
  (analyze analyzers document).map index.insert

/-- Makes a change. -/
def apply (analyzers : Analyzers) (index : InvertedIndex) (change : Change) :
    Except Error InvertedIndex :=
  match change with
  | .add document => (index.add analyzers document).map Prod.fst
  | .deleteTerm field term => .ok (index.deleteTerm field term).1

/-- Makes changes in order. -/
def replay (analyzers : Analyzers) : InvertedIndex → List Change → Except Error InvertedIndex
  | index, [] => .ok index
  | index, change :: rest =>
    match index.apply analyzers change with
    | .ok next => replay analyzers next rest
    | .error e => .error e

end InvertedIndex

end DocIndex
