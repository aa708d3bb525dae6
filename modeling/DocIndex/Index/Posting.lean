/-
Posting lists: the documents with a term and where it stands in them.
-/
import DocIndex.Data.DocSet

namespace DocIndex

/-- The occurrences of a term in a document. -/
structure Posting where
  doc : DocId
  frequency : Nat
  /-- Positions in the order in which they were recorded. -/
  positions : List Nat
deriving DecidableEq

/-- The postings of a term, by document. -/
abbrev PostingList := List Posting

namespace PostingList

/-- Adds a posting for a document before the first of the same or a later document. -/
def addPosting (doc : DocId) (position : Nat) : PostingList → PostingList
  | [] => [⟨doc, 1, [position]⟩]
  | p :: rest =>
    if p.doc < doc then p :: addPosting doc position rest else ⟨doc, 1, [position]⟩ :: p :: rest

/--
Records an occurrence.  Documents are indexed one after the other, so it belongs to the last
posting or begins a new one.
-/
def record (list : PostingList) (doc : DocId) (position : Nat) : PostingList :=
  match list.getLast? with
  | some last =>
    if last.doc = doc then
      list.dropLast ++ [⟨doc, last.frequency + 1, last.positions ++ [position]⟩]
    else addPosting doc position list
  | none => addPosting doc position list

/-- The posting of a document, the last if there are several. -/
def get? (list : PostingList) (doc : DocId) : Option Posting :=
  list.reverse.find? fun p => p.doc = doc

/-- The documents of the list. -/
def docs (list : PostingList) : DocSet := DocSet.ofList (list.map Posting.doc)

end PostingList

/-! ### Phrases -/

/-- The positions of a phrase's term in a document, and its place in the phrase. -/
structure TermPositions where
  positions : List Nat
  offset : Nat

/--
Whether the terms that follow one at `position` stand in order after it.  Each is taken at
its first position that is after the one before it by at most the distance in the phrase,
at least one, and the slop.
-/
def followsWithin (slop position offset : Nat) : List TermPositions → Bool
  | [] => true
  | term :: rest =>
    let gap := max (term.offset - offset) 1
    match term.positions.find? fun p => position < p && p ≤ position + gap + slop with
    | some next => followsWithin slop next term.offset rest
    | none => false

/-- Whether the terms of a phrase stand in order from some position of the first one. -/
def matchesPhrase (slop : Nat) : List TermPositions → Bool
  | [] => false
  | first :: rest => first.positions.any fun start => followsWithin slop start first.offset rest

end DocIndex
