/-
Sets of document numbers, kept as increasing lists.
-/
import DocIndex.Data.Table

namespace DocIndex

/-- The number of a document in the index. -/
abbrev DocId := Nat

/-- A set of documents, in increasing order and each once. -/
abbrev DocSet := List DocId

namespace DocSet

/-- The documents of a list in any order. -/
def ofList (docs : List DocId) : DocSet := sortedDistinct docs

/-- The documents in either set. -/
def union (a b : DocSet) : DocSet := b.foldl (fun set doc => insertSorted doc set) a

/-- The documents in both sets. -/
def inter (a b : DocSet) : DocSet := a.filter b.contains

/-- The documents in the first set but not in the second. -/
def diff (a b : DocSet) : DocSet := a.filter fun doc => !b.contains doc

end DocSet

end DocIndex
