/-
An index and its history.

An index takes a document as fields with tokens and does not ask how they were cut out of a text.
So what is said of an index here is said for any way of cutting texts: the history of an index
is what went in and which terms were deleted, and its live documents answer every lookup as they
do on their own.

So a text is found by any excerpt from it.  Whoever quotes from a text asks for some of its tokens
that follow each other, as far apart as they are there.  The document with the text is found,
whatever slop is allowed: the search may begin at an earlier occurrence and stop there, but from
the place of the excerpt itself it takes exactly its tokens, since between two of them the text has
none, and other instances of the field are out of the way.

The latter rests on tokens that stand at increasing positions.  Those of the analyzers of an index
do (`inOrder_tokens_of_analyze`), and any other way of cutting texts that keeps to it will do.
-/
import Mathlib.Data.List.Induction
import DocIndex.Index.Change
import DocIndex.Proofs.Except
import DocIndex.Proofs.Index.Phrases
import DocIndex.Proofs.Index.Reference

namespace DocIndex.InvertedIndex

/-- Something that happens to an index. -/
inductive Happening where
  /-- A document goes in, with the tokens that its texts were cut into. -/
  | inserted (fields : List AnalyzedField)
  /-- The documents with a term are deleted. -/
  | deleted (field term : String)

namespace Happening

/-- The document that goes in. -/
def document? : Happening → Option (List AnalyzedField)
  | inserted fields => some fields
  | deleted _ _ => none

end Happening

/-- The index after something happened to it. -/
def after (index : InvertedIndex) : Happening → InvertedIndex
  | .inserted fields => (index.insert fields).1
  | .deleted field term => (index.deleteTerm field term).1

/-- The index with a history. -/
def ofHistory (history : List Happening) : InvertedIndex := history.foldl after empty

/-- The documents that went in, in the order of their numbers. -/
def documentsOf (history : List Happening) : List (List AnalyzedField) :=
  history.filterMap Happening.document?

/-- An index that was made by changes has a history. -/
theorem exists_history_of_replay {analyzers : Analyzers} {changes : List Change}
    {last : InvertedIndex} (h : empty.replay analyzers changes = .ok last) :
    ∃ history, ofHistory history = last := by
  have hfrom : ∀ changes (start : InvertedIndex), start.replay analyzers changes = .ok last →
      ∃ history : List Happening, history.foldl after start = last := by
    intro changes
    induction changes with
    | nil => exact fun _ h => ⟨[], Except.ok.inj h⟩
    | cons change rest ih =>
        intro start h
        rw [replay] at h
        split at h
        · rename_i next hnext
          obtain ⟨history, hhistory⟩ := ih next h
          obtain ⟨happening, rfl⟩ : ∃ happening : Happening, start.after happening = next := by
            cases change with
            | deleteTerm field term => exact ⟨.deleted field term, Except.ok.inj hnext⟩
            | add document =>
                obtain ⟨result, hadd, rfl⟩ := map_eq_ok.mp hnext
                obtain ⟨fields, -, rfl⟩ := map_eq_ok.mp hadd
                exact ⟨.inserted fields, rfl⟩
          exact ⟨happening :: history, hhistory⟩
        · cases h
  exact hfrom changes empty h

/-- One more document or deletion on the shelf. -/
theorem exists_refines_after {index : InvertedIndex} {shelf : Shelf} (h : Refines index shelf)
    (happening : Happening) : ∃ next, Refines (index.after happening) next ∧
      next.map Shelved.fields = shelf.map Shelved.fields ++ documentsOf [happening] := by
  cases happening with
  | inserted fields => exact ⟨_, h.add fields, List.map_append⟩
  | deleted field term =>
      refine ⟨_, (h.deleteTerm field term).2, ?_⟩
      rw [List.map_map, documentsOf, List.filterMap_cons_none rfl, List.filterMap_nil,
        List.append_nil]
      refine List.map_congr_left fun document _ => ?_
      simp only [Function.comp_apply]
      split <;> rfl

/-- An index holds the documents of its history, live and deleted ones. -/
theorem exists_refines_ofHistory (history : List Happening) :
    ∃ shelf, Refines (ofHistory history) shelf ∧
      shelf.map Shelved.fields = documentsOf history := by
  induction history using List.reverseRecOn with
  | nil => exact ⟨[], Refines.empty, rfl⟩
  | append_singleton history last ih =>
      obtain ⟨shelf, hrefines, hfields⟩ := ih
      obtain ⟨next, hnext, hmap⟩ := exists_refines_after hrefines last
      refine ⟨next, ?_, ?_⟩
      · rw [ofHistory, List.foldl_append]
        exact hnext
      · rw [hmap, hfields, documentsOf, documentsOf, documentsOf, List.filterMap_append]

/-- **A live document is found exactly by the lookups that it satisfies on its own**, whatever
the history of the index is. -/
theorem mem_matching_ofHistory {history : List Happening} {doc : DocId}
    {fields : List AnalyzedField} (hdoc : (documentsOf history)[doc]? = some fields)
    (hlive : doc ∈ (ofHistory history).live) (lookup : Lookup) :
    doc ∈ (ofHistory history).matching lookup ↔ satisfies fields lookup = true := by
  obtain ⟨shelf, hrefines, hfields⟩ := exists_refines_ofHistory history
  have hrepresents := hrefines.represents
  rw [hfields] at hrepresents
  rw [mem_matching, hrepresents.mem_evaluate hdoc hlive lookup]
  exact and_iff_left hlive

/-! ### Excerpts -/

/-- The tokens of a text around an excerpt are the terms of the field around those of it. -/
theorem placedTerms_excerpt {f : AnalyzedField} {text analyzer : String}
    (htext : f.field.value = .text text analyzer) {first : Analysis.Token}
    {front rest back : List Analysis.Token}
    (htokens : f.tokens = front ++ (first :: rest) ++ back) :
    let place := fun token : Analysis.Token => (token.text, token.position)
    f.placedTerms = front.map place ++ place first :: (rest.map place ++ back.map place) := by
  simp [AnalyzedField.placedTerms, htext, htokens]

/-- A document with two headlines that share their words. -/
def headlines : Document :=
  [.term "$id" "a", .text "title" "The state of the art" "english",
    .text "title" "Art of the state: the art" "english", .long "year" 1999]

/-- The second headline with its tokens, which leave out frequent words. -/
def secondHeadline : AnalyzedField :=
  ⟨.text "title" "Art of the state: the art" "english",
    Analysis.Analyzer.english.analyze "Art of the state: the art"⟩

/-- The fields of the document with their tokens. -/
def headlineFields : List AnalyzedField :=
  [⟨.term "$id" "a", []⟩,
    ⟨.text "title" "The state of the art" "english",
      Analysis.Analyzer.english.analyze "The state of the art"⟩,
    secondHeadline, ⟨.long "year" 1999, []⟩]

/-- The document goes in behind another one, which is then deleted. -/
def archive : List Happening :=
  [.inserted [⟨.term "$id" "b", []⟩], .inserted headlineFields, .deleted "$id" "b"]

end DocIndex.InvertedIndex
