/-
Lookups: queries in the terms of the index itself.
-/
import DocIndex.Index.Numeric

namespace DocIndex

/-- A question to the index, answered by a set of documents. -/
inductive Lookup where
  /-- Every document. -/
  | everything
  /-- The documents with a term in a field. -/
  | term (field value : String)
  /--
  The documents with the terms of a phrase in order.  Each term has its place in the phrase,
  and `slop` is how much further apart two neighbours may be than there.
  -/
  | phrase (field : String) (terms : List (String × Nat)) (slop : Nat)
  /--
  The documents in all of `must` and none of `mustNot`, and in one of `should` if there is
  no `must`.
  -/
  | combine (must should mustNot : List Lookup)
  /-- The documents with a term in an interval. -/
  | terms (field : String) (interval : Interval String)
  /-- The documents with a number in an interval. -/
  | numbers (field : String) (interval : Interval Numeric)
  /-- The documents with a term that fits a pattern. -/
  | wildcard (field pattern : String)
  /-- The documents with a term that is so many edits away. -/
  | fuzzy (field term : String) (maxEdits : Nat)
deriving Inhabited

namespace Lookup

/-- The documents in one of several lookups. -/
def anyOf (alternatives : List Lookup) : Lookup := combine [] alternatives []

/-- The documents in none of the lookups' results, if something else is asked for as well. -/
def noneOf (excluded : Lookup) : Lookup := combine [] [] [excluded]

/-- A phrase of terms right after each other. -/
def adjacent (field : String) (terms : List String) (slop : Nat) : Lookup :=
  phrase field terms.zipIdx slop

end Lookup

/-- A field to sort results by. -/
structure SortField where
  field : String
  descending : Bool
deriving DecidableEq

end DocIndex
