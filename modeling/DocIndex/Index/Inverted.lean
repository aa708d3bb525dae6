/-
The inverted index: for every field its terms with their postings, its numbers by document,
and one value of each document to sort by.

A document that is deleted keeps its entries and only leaves the set of live documents.
Instances of a field that occurs several times in a document follow each other at a distance
that no phrase bridges.
-/
import DocIndex.Analysis.Analyzer
import DocIndex.Document.Field
import DocIndex.Error
import DocIndex.Index.Numeric
import DocIndex.Index.Posting

namespace DocIndex

/-- The value of a field that a document is sorted by. -/
inductive SortValue where
  | number (value : Numeric)
  | text (value : String)
deriving DecidableEq

/-- An index in memory. -/
structure InvertedIndex where
  /-- The postings of each term of each field. -/
  terms : Table String (Table String PostingList)
  /-- The numbers of each field by document. -/
  numbers : Table String (Table DocId (List Numeric))
  /-- The first value of each field by document. -/
  sortValues : Table String (Table DocId SortValue)
  /-- The bytes that documents keep, by name. -/
  stored : Table DocId (List (String × Bytes))
  live : DocSet
  nextDoc : DocId
deriving DecidableEq

namespace InvertedIndex

/-- The index of no documents. -/
def empty : InvertedIndex := ⟨[], [], [], [], [], 0⟩

/-- The distance between two instances of a field beyond that of neighbouring tokens. -/
def positionGap : Nat := 100

/-- A field with the tokens of its text, if it is text that is indexed. -/
structure AnalyzedField where
  field : Field
  tokens : List Analysis.Token

/-- A field with its tokens; an unknown analyzer is an error. -/
def analyzeField (analyzers : Analyzers) (field : Field) : Except Error AnalyzedField :=
  match field.value with
  | .text text name =>
    if field.indexed then
      match Table.find? analyzers name with
      | some analyzer => .ok ⟨field, analyzer.analyze text⟩
      | none => .error (.unknownAnalyzer name)
    else .ok ⟨field, []⟩
  | _ => .ok ⟨field, []⟩

/-- The fields of a document with their tokens. -/
def analyze (analyzers : Analyzers) (doc : Document) : Except Error (List AnalyzedField) :=
  doc.mapM (analyzeField analyzers)

/-- Records an occurrence of a term. -/
def addTerm (index : InvertedIndex) (field term : String) (doc : DocId) (position : Nat) :
    InvertedIndex :=
  let record := fun list : Option PostingList => (list.getD []).record doc position
  let inField := fun terms : Option (Table String PostingList) =>
    Table.alter (terms.getD []) term record
  { index with terms := Table.alter index.terms field inField }

/-- Records a number. -/
def addNumber (index : InvertedIndex) (field : String) (doc : DocId) (n : Numeric) :
    InvertedIndex :=
  let inField := fun docs : Option (Table DocId (List Numeric)) =>
    Table.alter (docs.getD []) doc fun values => values.getD [] ++ [n]
  { index with numbers := Table.alter index.numbers field inField }

/-- Records the value to sort by, unless the document has one. -/
def addSortValue (index : InvertedIndex) (field : String) (doc : DocId) (value : SortValue) :
    InvertedIndex :=
  let inField := fun docs : Option (Table DocId SortValue) =>
    Table.alter (docs.getD []) doc fun known => known.getD value
  { index with sortValues := Table.alter index.sortValues field inField }

/-- Keeps bytes under a name. -/
def addStored (index : InvertedIndex) (name : String) (doc : DocId) (bytes : Bytes) :
    InvertedIndex :=
  { index with
    stored := Table.alter index.stored doc fun fields => fields.getD [] ++ [(name, bytes)] }

/-- The index while a document goes in, and where the next instance of each field begins. -/
structure Insertion where
  index : InvertedIndex
  starts : Table String Nat

/-- Records the tokens of a text from a position on; gives the last position too. -/
def addTokens (index : InvertedIndex) (field : String) (doc : DocId) (base : Nat)
    (tokens : List Analysis.Token) : InvertedIndex × Nat :=
  tokens.foldl (fun (index, _) t =>
    (index.addTerm field t.text doc (base + t.position), base + t.position)) (index, base)

/-- Puts a searched field of a document into the index. -/
def indexField (doc : DocId) (state : Insertion) (f : AnalyzedField) : Insertion :=
  let name := f.field.name
  let base := (Table.find? state.starts name).getD 0
  let next := fun last => Table.insert state.starts name (last + 1 + positionGap)
  match f.field.value with
  | .term term =>
    { index := (state.index.addTerm name term doc base).addSortValue name doc (.text term)
      starts := next base }
  | .text text _ =>
    let (index, last) := state.index.addTokens name doc base f.tokens
    { index := index.addSortValue name doc (.text (Text.lowercase text)), starts := next last }
  | .long n =>
    { state with
      index := (state.index.addNumber name doc (.long n)).addSortValue name doc
        (.number (.long n)) }
  | .double x =>
    { state with
      index := (state.index.addNumber name doc (.double x)).addSortValue name doc
        (.number (.double x)) }
  | .stored _ => state

/-- Puts a field of a document into the index: keeps its bytes and makes it searchable. -/
def insertField (doc : DocId) (state : Insertion) (f : AnalyzedField) : Insertion :=
  let kept := match f.field.value with
    | .stored bytes =>
      if f.field.stored then { state with index := state.index.addStored f.field.name doc bytes }
      else state
    | _ => state
  if f.field.indexed then indexField doc kept f else kept

/-- Puts a document into the index under the next number. -/
def insert (index : InvertedIndex) (fields : List AnalyzedField) : InvertedIndex × DocId :=
  let doc := index.nextDoc
  let state := fields.foldl (insertField doc) ⟨{ index with nextDoc := doc + 1 }, []⟩
  ({ state.index with live := insertSorted doc state.index.live }, doc)

/-- The postings of a term. -/
def postings? (index : InvertedIndex) (field term : String) : Option PostingList :=
  (Table.find? index.terms field).bind fun terms => Table.find? terms term

/-- The terms of a field in order, with their postings. -/
def termsOf (index : InvertedIndex) (field : String) : Table String PostingList :=
  (Table.find? index.terms field).getD []

/-- The numbers of a field by document. -/
def numbersOf (index : InvertedIndex) (field : String) : Table DocId (List Numeric) :=
  (Table.find? index.numbers field).getD []

/-- The value of a field that a document is sorted by. -/
def sortValue? (index : InvertedIndex) (field : String) (doc : DocId) : Option SortValue :=
  (Table.find? index.sortValues field).bind fun docs => Table.find? docs doc

/-- The first bytes that a document keeps under a name. -/
def stored? (index : InvertedIndex) (doc : DocId) (name : String) : Option Bytes :=
  (Table.find? index.stored doc).bind fun fields =>
    (fields.find? fun entry => entry.1 == name).map Prod.snd

/-- Deletes the live documents with a term; gives their number. -/
def deleteTerm (index : InvertedIndex) (field term : String) : InvertedIndex × Nat :=
  match index.postings? field term with
  | none => (index, 0)
  | some list =>
    let doomed := DocSet.inter index.live list.docs
    ({ index with live := DocSet.diff index.live doomed }, doomed.length)

/-- The number of live documents. -/
def size (index : InvertedIndex) : Nat := index.live.length

end InvertedIndex

end DocIndex
