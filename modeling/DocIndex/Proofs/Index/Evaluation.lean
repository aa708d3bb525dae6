/-
Which documents answer a lookup.

Each kind of lookup has a lemma that says when a document is in its answer, with nothing
assumed of the index.  Answers are made of sets by union, intersection and difference, which
all keep the documents in increasing order; so an answer is known by its members
(`Increasing.ext`), and what is shown of members is shown of the list that is returned.
-/
import Mathlib.Data.List.Sort
import Mathlib.Tactic.Common
import DocIndex.Proofs.Index.Content

namespace DocIndex

/-! ### Sets of documents -/

namespace DocSet

/-- The documents stand in increasing order, each once. -/
def Increasing (docs : DocSet) : Prop := docs.Pairwise (· < ·)

variable {a b : DocSet} {doc : DocId}

theorem mem_union : doc ∈ union a b ↔ doc ∈ a ∨ doc ∈ b := by
  unfold union
  induction b generalizing a with
  | nil => simp
  | cons first rest ih =>
      rw [List.foldl_cons, ih, mem_insertSorted, List.mem_cons]
      tauto

theorem mem_inter : doc ∈ inter a b ↔ doc ∈ a ∧ doc ∈ b := by simp [inter]

theorem mem_diff : doc ∈ diff a b ↔ doc ∈ a ∧ doc ∉ b := by simp [diff]

theorem increasing_insertSorted (h : Increasing a) (doc : DocId) :
    Increasing (insertSorted doc a) := by
  have hordered := pairwise_insertSorted (h.imp Nat.compare_eq_lt.mpr) doc
  exact hordered.imp Nat.compare_eq_lt.mp

theorem increasing_union (h : Increasing a) : Increasing (union a b) := by
  unfold union
  induction b generalizing a with
  | nil => exact h
  | cons first rest ih => exact ih (increasing_insertSorted h first)

theorem increasing_ofList (docs : List DocId) : Increasing (ofList docs) :=
  increasing_union List.Pairwise.nil

theorem Increasing.filter (h : Increasing a) (test : DocId → Bool) :
    Increasing (a.filter test) :=
  List.Pairwise.filter test h

/-- Sets with the same documents are the same list. -/
theorem Increasing.ext (ha : Increasing a) (hb : Increasing b)
    (h : ∀ doc, doc ∈ a ↔ doc ∈ b) : a = b :=
  List.Pairwise.eq_of_mem_iff ha hb h

end DocSet

namespace InvertedIndex

variable {index : InvertedIndex} {doc : DocId}

/-! ### Terms, numbers and phrases -/

/-- The documents together with those of a term, if the term passes a test. -/
def uniteTerm (test : String → Bool) (docs : DocSet) (entry : String × PostingList) : DocSet :=
  if test entry.1 then DocSet.union docs entry.2.docs else docs

theorem withTerm_eq (field : String) (test : String → Bool) :
    index.withTerm field test = (index.termsOf field).foldl (uniteTerm test) [] := rfl

theorem mem_withTerm {field : String} {test : String → Bool} :
    doc ∈ index.withTerm field test ↔
      ∃ term list, (term, list) ∈ index.termsOf field ∧ test term = true ∧ doc ∈ list.docs := by
  suffices hfold : ∀ (terms : Table String PostingList) (docs : DocSet),
      doc ∈ terms.foldl (uniteTerm test) docs ↔
      doc ∈ docs ∨ ∃ term list, (term, list) ∈ terms ∧ test term = true ∧ doc ∈ list.docs by
    simpa [withTerm_eq] using hfold (index.termsOf field) []
  intro terms
  induction terms with
  | nil => simp
  | cons first rest ih =>
      intro docs
      obtain ⟨term, list⟩ := first
      rw [List.foldl_cons, ih]
      simp only [uniteTerm, List.mem_cons, Prod.mk.injEq]
      by_cases htest : test term = true
      · simp only [htest, if_true, DocSet.mem_union]
        constructor
        · rintro ((h | h) | ⟨t, l, hmem, h⟩)
          · exact Or.inl h
          · exact Or.inr ⟨term, list, Or.inl ⟨rfl, rfl⟩, htest, h⟩
          · exact Or.inr ⟨t, l, Or.inr hmem, h⟩
        · rintro (h | ⟨t, l, ⟨rfl, rfl⟩ | hmem, h⟩)
          · exact Or.inl (Or.inl h)
          · exact Or.inl (Or.inr h.2)
          · exact Or.inr ⟨t, l, hmem, h⟩
      · rw [if_neg htest]
        constructor
        · rintro (h | ⟨t, l, hmem, h⟩)
          · exact Or.inl h
          · exact Or.inr ⟨t, l, Or.inr hmem, h⟩
        · rintro (h | ⟨t, l, ⟨rfl, rfl⟩ | hmem, h⟩)
          · exact Or.inl h
          · exact absurd h.1 htest
          · exact Or.inr ⟨t, l, hmem, h⟩

theorem mem_withNumber {field : String} {test : Numeric → Bool} :
    doc ∈ index.withNumber field test ↔
      ∃ values, (doc, values) ∈ index.numbersOf field ∧ values.any test = true := by
  simp [withNumber]

theorem mem_withPhrase {field : String} {terms : List (String × Nat)} {slop : Nat} :
    doc ∈ index.withPhrase field terms slop ↔
      ∃ lists, index.phrasePostings? field terms = some lists ∧
        (∀ entry ∈ lists, doc ∈ entry.1.docs) ∧
        (phrasePositions? lists doc).any (matchesPhrase slop) = true := by
  have hcandidates : ∀ (rest : List (PostingList × Nat)) (docs : DocSet),
      doc ∈ rest.foldl (fun docs entry => DocSet.inter docs entry.1.docs) docs ↔
        doc ∈ docs ∧ ∀ entry ∈ rest, doc ∈ entry.1.docs := by
    intro rest
    induction rest with
    | nil => simp
    | cons entry rest ih =>
        intro docs
        rw [List.foldl_cons, ih, DocSet.mem_inter, List.forall_mem_cons, and_assoc]
  unfold withPhrase
  cases hlists : index.phrasePostings? field terms with
  | none => simp
  | some lists =>
      cases lists with
      | nil => simp [phrasePositions?, matchesPhrase]
      | cons first rest =>
          simp only [List.mem_filter, hcandidates, Option.some.injEq, exists_eq_left',
            List.forall_mem_cons, and_assoc]

/-! ### Several lookups -/

theorem mem_evaluateAll {docs : DocSet} {lookups : List Lookup} :
    doc ∈ index.evaluateAll docs lookups ↔
      doc ∈ docs ∧ ∀ lookup ∈ lookups, doc ∈ index.evaluate lookup := by
  induction lookups generalizing docs with
  | nil => simp [evaluateAll]
  | cons first rest ih =>
      rw [evaluateAll, ih, DocSet.mem_inter, List.forall_mem_cons, and_assoc]

theorem mem_evaluateAny {lookups : List Lookup} :
    doc ∈ index.evaluateAny lookups ↔ ∃ lookup ∈ lookups, doc ∈ index.evaluate lookup := by
  induction lookups with
  | nil => simp [evaluateAny]
  | cons first rest ih => rw [evaluateAny, DocSet.mem_union, ih, List.exists_mem_cons_iff]

theorem mem_evaluateNone {docs : DocSet} {lookups : List Lookup} :
    doc ∈ index.evaluateNone docs lookups ↔
      doc ∈ docs ∧ ∀ lookup ∈ lookups, doc ∉ index.evaluate lookup := by
  induction lookups generalizing docs with
  | nil => simp [evaluateNone]
  | cons first rest ih =>
      rw [evaluateNone, ih, DocSet.mem_diff, List.forall_mem_cons, and_assoc]

/-- A document is in none of what is excluded, and in an alternative if nothing is required. -/
theorem mem_evaluate_combine_nil {should mustNot : List Lookup} :
    doc ∈ index.evaluate (.combine [] should mustNot) ↔
      (∃ lookup ∈ should, doc ∈ index.evaluate lookup) ∧
        ∀ lookup ∈ mustNot, doc ∉ index.evaluate lookup := by
  show doc ∈ index.evaluateNone (index.evaluateAny should) mustNot ↔ _
  rw [mem_evaluateNone, mem_evaluateAny]

/-- A document is in none of what is excluded and in all that is required. -/
theorem mem_evaluate_combine {must : List Lookup} (hmust : must ≠ [])
    {should mustNot : List Lookup} :
    doc ∈ index.evaluate (.combine must should mustNot) ↔
      (∀ lookup ∈ must, doc ∈ index.evaluate lookup) ∧
        ∀ lookup ∈ mustNot, doc ∉ index.evaluate lookup := by
  obtain ⟨first, rest, rfl⟩ := List.exists_cons_of_ne_nil hmust
  show doc ∈ index.evaluateNone (index.evaluateAll (index.evaluate first) rest) mustNot ↔ _
  rw [mem_evaluateNone, mem_evaluateAll, List.forall_mem_cons]

theorem mem_evaluate_anyOf {alternatives : List Lookup} :
    doc ∈ index.evaluate (.anyOf alternatives) ↔
      ∃ lookup ∈ alternatives, doc ∈ index.evaluate lookup := by
  simp [Lookup.anyOf, mem_evaluate_combine_nil]

theorem mem_matching {lookup : Lookup} :
    doc ∈ index.matching lookup ↔ doc ∈ index.evaluate lookup ∧ doc ∈ index.live :=
  DocSet.mem_inter

/-! ### The order of answers -/

theorem increasing_withTerm (field : String) (test : String → Bool) :
    DocSet.Increasing (index.withTerm field test) := by
  suffices hfold : ∀ (terms : Table String PostingList) (docs : DocSet), docs.Increasing →
      DocSet.Increasing (terms.foldl (uniteTerm test) docs)
    from hfold _ [] List.Pairwise.nil
  intro terms
  induction terms with
  | nil => exact fun docs h => h
  | cons first rest ih =>
      intro docs h
      obtain ⟨term, list⟩ := first
      refine ih _ ?_
      unfold uniteTerm
      split
      · exact DocSet.increasing_union h
      · exact h

theorem increasing_withPhrase (field : String) (terms : List (String × Nat)) (slop : Nat) :
    DocSet.Increasing (index.withPhrase field terms slop) := by
  have hcandidates : ∀ (rest : List (PostingList × Nat)) (docs : DocSet), docs.Increasing →
      DocSet.Increasing (rest.foldl (fun docs entry => DocSet.inter docs entry.1.docs) docs) := by
    intro rest
    induction rest with
    | nil => exact fun docs h => h
    | cons entry rest ih => exact fun docs h => ih _ (h.filter _)
  unfold withPhrase
  split
  · exact List.Pairwise.nil
  · exact List.Pairwise.nil
  · exact (hcandidates _ _ (DocSet.increasing_ofList _)).filter _

theorem increasing_evaluateAll {docs : DocSet} (h : docs.Increasing) (lookups : List Lookup) :
    DocSet.Increasing (index.evaluateAll docs lookups) := by
  induction lookups generalizing docs with
  | nil => exact h
  | cons first rest ih => exact ih (h.filter _)

theorem increasing_evaluateNone {docs : DocSet} (h : docs.Increasing) (lookups : List Lookup) :
    DocSet.Increasing (index.evaluateNone docs lookups) := by
  induction lookups generalizing docs with
  | nil => exact h
  | cons first rest ih => exact ih (h.filter _)

mutual

/-- Answers are in increasing order if the live documents and those with numbers are. -/
theorem increasing_evaluate (hlive : index.live.Increasing)
    (hnumbers : ∀ field, Table.Sorted (index.numbersOf field)) :
    ∀ lookup : Lookup, DocSet.Increasing (index.evaluate lookup)
  | .everything => hlive
  | .term field value => by
      rw [evaluate_term]
      cases index.postings? field value with
      | none => exact List.Pairwise.nil
      | some list => exact DocSet.increasing_ofList _
  | .phrase field terms slop => increasing_withPhrase field terms slop
  | .combine [] should mustNot =>
      increasing_evaluateNone (increasing_evaluateAny hlive hnumbers should) mustNot
  | .combine (first :: rest) should mustNot =>
      increasing_evaluateNone
        (increasing_evaluateAll (increasing_evaluate hlive hnumbers first) rest) mustNot
  | .terms field interval => increasing_withTerm field _
  | .numbers field interval => by
      refine List.pairwise_map.mpr (List.Pairwise.filter _ ((hnumbers field).imp ?_))
      exact fun {a b} hlt => Nat.compare_eq_lt.mp hlt
  | .wildcard field pattern => increasing_withTerm field _
  | .fuzzy field term maxEdits => increasing_withTerm field _

theorem increasing_evaluateAny (hlive : index.live.Increasing)
    (hnumbers : ∀ field, Table.Sorted (index.numbersOf field)) :
    ∀ lookups : List Lookup, DocSet.Increasing (index.evaluateAny lookups)
  | [] => List.Pairwise.nil
  | first :: _ => DocSet.increasing_union (increasing_evaluate hlive hnumbers first)

end

end InvertedIndex

end DocIndex
