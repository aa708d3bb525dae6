/-
Answering lookups from an inverted index, and sorting what was found.

`evaluate` works on the entries of all documents, deleted ones included, and `search` keeps
the live ones at the end.
-/
import DocIndex.Index.Inverted
import DocIndex.Index.Lookup
import DocIndex.Index.Pattern

namespace DocIndex.InvertedIndex

variable (index : InvertedIndex)

/-- The documents with a term of a field that passes a test. -/
def withTerm (field : String) (test : String → Bool) : DocSet :=
  (index.termsOf field).foldl
    (fun docs (term, list) => if test term then DocSet.union docs list.docs else docs) []

/-- The documents with a number of a field that passes a test. -/
def withNumber (field : String) (test : Numeric → Bool) : DocSet :=
  ((index.numbersOf field).filter fun (_, values) => values.any test).map Prod.fst

/-- The postings of every term of a phrase with its place, if all of them occur in the field. -/
def phrasePostings? (field : String) (terms : List (String × Nat)) :
    Option (List (PostingList × Nat)) :=
  terms.mapM fun (term, offset) => (index.postings? field term).map fun list => (list, offset)

/-- The positions of the terms of a phrase in a document, if it has all of them. -/
def phrasePositions? (lists : List (PostingList × Nat)) (doc : DocId) :
    Option (List TermPositions) :=
  lists.mapM fun (list, offset) => (list.get? doc).map fun p => ⟨p.positions, offset⟩

/-- The documents with a phrase. -/
def withPhrase (field : String) (terms : List (String × Nat)) (slop : Nat) : DocSet :=
  match index.phrasePostings? field terms with
  | none | some [] => []
  | some ((first, offset) :: rest) =>
    let candidates := rest.foldl (fun docs (list, _) => DocSet.inter docs list.docs) first.docs
    candidates.filter fun doc =>
      (phrasePositions? ((first, offset) :: rest) doc).any (matchesPhrase slop)

/-- Whether a term is at most so many edits away from another. -/
def isSimilar (term other : String) (maxEdits : Nat) : Bool :=
  let difference := max term.length other.length - min term.length other.length
  difference ≤ maxEdits && editDistance term.toList other.toList ≤ maxEdits

mutual

/-- The documents that a lookup holds for, among the live and the deleted ones. -/
def evaluate : Lookup → DocSet
  | .everything => index.live
  | .term field value => ((index.postings? field value).map PostingList.docs).getD []
  | .phrase field terms slop => index.withPhrase field terms slop
  | .combine must should mustNot =>
    let included := match must with
      | [] => evaluateAny should
      | first :: rest => evaluateAll (evaluate first) rest
    evaluateNone included mustNot
  | .terms field interval =>
    index.withTerm field (interval.contains fun a b => some (compare a b))
  | .numbers field interval => index.withNumber field (interval.contains Numeric.order?)
  | .wildcard field pattern =>
    index.withTerm field fun term => (Pattern.ofText pattern).fits term.toList
  | .fuzzy field term maxEdits => index.withTerm field fun other => isSimilar other term maxEdits

/-- The documents of a set that all lookups hold for. -/
def evaluateAll (docs : DocSet) : List Lookup → DocSet
  | [] => docs
  | lookup :: rest => evaluateAll (DocSet.inter docs (evaluate lookup)) rest

/-- The documents that one of the lookups holds for. -/
def evaluateAny : List Lookup → DocSet
  | [] => []
  | lookup :: rest => DocSet.union (evaluate lookup) (evaluateAny rest)

/-- The documents of a set that none of the lookups holds for. -/
def evaluateNone (docs : DocSet) : List Lookup → DocSet
  | [] => docs
  | lookup :: rest => evaluateNone (DocSet.diff docs (evaluate lookup)) rest

end

/-- The live documents that a lookup holds for. -/
def matching (lookup : Lookup) : DocSet := DocSet.inter (index.evaluate lookup) index.live

/-! ### Sorting -/

/-- The order of two values: numbers before texts; incomparable numbers count as equal. -/
def orderValues : SortValue → SortValue → Ordering
  | .number a, .number b => (a.order? b).getD .eq
  | .text a, .text b => compare a b
  | .number _, .text _ => .lt
  | .text _, .number _ => .gt

/-- The order of two documents by one field, where a missing value comes last either way. -/
def orderBy (key : SortField) (a b : DocId) : Ordering :=
  match index.sortValue? key.field a, index.sortValue? key.field b with
  | none, none => .eq
  | none, some _ => .gt
  | some _, none => .lt
  | some x, some y => if key.descending then (orderValues x y).swap else orderValues x y

/-- The order of two documents by several fields, and by their numbers in the end. -/
def order (keys : List SortField) (a b : DocId) : Ordering :=
  match keys with
  | [] => compare a b
  | key :: rest =>
    match index.orderBy key a b with
    | .eq => order rest a b
    | other => other

/-- Puts a document into a list in decreasing order, in front of what is not greater. -/
def insertDescending (keys : List SortField) (doc : DocId) : List DocId → List DocId
  | [] => [doc]
  | d :: rest =>
    if index.order keys doc d == .lt then d :: insertDescending keys doc rest else doc :: d :: rest

/-- Documents in increasing order. -/
def sort (keys : List SortField) (docs : List DocId) : List DocId :=
  (docs.foldl (fun sorted doc => index.insertDescending keys doc sorted) []).reverse

/-- The documents that a lookup finds, sorted, and the first so many of them. -/
def search (lookup : Lookup) (keys : List SortField) (limit : Option Nat) : List DocId × Nat :=
  let found := index.matching lookup
  let sorted := if keys.isEmpty then found else index.sort keys found
  (match limit with
    | some n => sorted.take n
    | none => sorted, found.length)

end DocIndex.InvertedIndex
