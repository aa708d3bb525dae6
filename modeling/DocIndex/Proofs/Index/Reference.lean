/-
The index against documents that are looked at one by one.

A shelf keeps every document that went in, with a mark whether it is live, and answers a lookup
by trying it on each live document alone (`satisfies`): on the terms of its fields, on where
they stand, and on its numbers.  Changes to the index and to the shelf have the same outcomes,
and afterwards both answer every lookup alike.

The index represents the contents of the shelf after every change, so a lookup is compared with
`satisfies` on one document at a time, by recursion over the lookup.  The comparison is for live
documents only, as a deleted one keeps its postings and yet is not among everything.
-/
import DocIndex.Index.Change
import DocIndex.Proofs.Except
import DocIndex.Proofs.Index.EditDistance
import DocIndex.Proofs.Index.Evaluation
import DocIndex.Proofs.Index.Postings

namespace DocIndex

namespace InvertedIndex

/-! ### One document on its own -/

/-- Where a term stands in a field of a document. -/
def positionsOf (fields : List AnalyzedField) (name term : String) : List Nat :=
  positionsFrom name term 0 fields

/-- Whether a field of a document has a term that passes a test. -/
def hasTerm (fields : List AnalyzedField) (name : String) (test : String → Bool) : Bool :=
  fields.any fun f => f.hasTermsOf name && f.placedTerms.any fun entry => test entry.1

/-- The numbers of a field of a document. -/
def numbersIn (fields : List AnalyzedField) (name : String) : List Numeric :=
  fields.filterMap (AnalyzedField.number? name)

mutual

/--
Whether a lookup holds for a document, as far as can be seen from the document alone.  A phrase
means what the search for its terms makes of their positions: it takes the first that will do,
and does not come back to try another.
-/
def satisfies (fields : List AnalyzedField) : Lookup → Bool
  | .everything => true
  | .term name value => hasTerm fields name fun term => term == value
  | .phrase name terms slop =>
    matchesPhrase slop (terms.map fun entry => ⟨positionsOf fields name entry.1, entry.2⟩)
  | .combine must should mustNot =>
    (if must.isEmpty then satisfiesAny fields should else satisfiesAll fields must) &&
      !satisfiesAny fields mustNot
  | .terms name interval => hasTerm fields name (interval.contains fun a b => some (compare a b))
  | .numbers name interval => (numbersIn fields name).any (interval.contains Numeric.order?)
  | .wildcard name pattern =>
    hasTerm fields name fun term => (Pattern.ofText pattern).fits term.toList
  | .fuzzy name term maxEdits =>
    hasTerm fields name fun other => editDistance other.toList term.toList ≤ maxEdits

/-- Whether all of several lookups hold for a document. -/
def satisfiesAll (fields : List AnalyzedField) : List Lookup → Bool
  | [] => true
  | lookup :: rest => satisfies fields lookup && satisfiesAll fields rest

/-- Whether some of several lookups holds for a document. -/
def satisfiesAny (fields : List AnalyzedField) : List Lookup → Bool
  | [] => false
  | lookup :: rest => satisfies fields lookup || satisfiesAny fields rest

end

/-- A term stands somewhere exactly if some instance of the field has it. -/
theorem positionsFrom_ne_nil {name term : String} {fields : List AnalyzedField} {start : Nat} :
    positionsFrom name term start fields ≠ [] ↔
      ∃ f ∈ fields, f.hasTermsOf name = true ∧ ∃ entry ∈ f.placedTerms, entry.1 = term := by
  induction fields generalizing start with
  | nil => simp [positionsFrom]
  | cons f rest ih =>
      rw [positionsFrom, List.exists_mem_cons_iff]
      by_cases hterms : f.hasTermsOf name = true
      · rw [if_pos hterms, Ne, List.append_eq_nil_iff, not_and_or, ← Ne, ← Ne, ih]
        simp [hterms]
      · rw [if_neg hterms, ih]
        simp [hterms]

theorem hasTerm_iff {fields : List AnalyzedField} {name : String} {test : String → Bool} :
    hasTerm fields name test = true ↔
      ∃ term, test term = true ∧ positionsOf fields name term ≠ [] := by
  simp only [hasTerm, positionsOf, positionsFrom_ne_nil, List.any_eq_true, Bool.and_eq_true]
  constructor
  · rintro ⟨f, hf, hterms, entry, hentry, htest⟩
    exact ⟨entry.1, htest, f, hf, hterms, entry, hentry, rfl⟩
  · rintro ⟨_, htest, f, hf, hterms, entry, hentry, rfl⟩
    exact ⟨f, hf, hterms, entry, hentry, htest⟩

/-! ### A lookup against one document -/

/-- The positions of a term in each document. -/
def positionsIn (docs : List (List AnalyzedField)) (name term : String) : List (List Nat) :=
  (docs.map contentOf).map fun content => content.positions name term

section Represented

variable {index : InvertedIndex} {docs : List (List AnalyzedField)} {doc : DocId}
  {fields : List AnalyzedField} {name term : String}

theorem getElem?_positionsIn (hdoc : docs[doc]? = some fields) (name term : String) :
    (positionsIn docs name term)[doc]? = some (positionsOf fields name term) := by
  simp [positionsIn, hdoc, contentOf, positionsOf]

theorem Represents.postings?_eq_some (h : index.Represents (docs.map contentOf))
    {list : PostingList} (hlist : index.postings? name term = some list) :
    list = PostingList.ofPositions (positionsIn docs name term) := by
  have hpostings := h.postings name term
  rwa [hlist, Option.getD_some] at hpostings

/-- A document is among the postings of a term exactly if the term stands in it. -/
theorem Represents.mem_docs (h : index.Represents (docs.map contentOf))
    (hdoc : docs[doc]? = some fields) {list : PostingList}
    (hlist : index.postings? name term = some list) :
    doc ∈ list.docs ↔ positionsOf fields name term ≠ [] := by
  rw [h.postings?_eq_some hlist, PostingList.mem_docs_ofPositions, getElem?_positionsIn hdoc]
  simp

theorem Represents.exists_postings (h : index.Represents (docs.map contentOf))
    (hdoc : docs[doc]? = some fields) (hne : positionsOf fields name term ≠ []) :
    ∃ list, index.postings? name term = some list := by
  cases hlist : index.postings? name term with
  | some list => exact ⟨list, rfl⟩
  | none =>
      have hpostings := h.postings name term
      rw [hlist, Option.getD_none] at hpostings
      have hmem : doc ∈ (PostingList.ofPositions (positionsIn docs name term)).docs :=
        PostingList.mem_docs_ofPositions.mpr ⟨_, getElem?_positionsIn hdoc name term, hne⟩
      rw [positionsIn, ← hpostings] at hmem
      exact absurd hmem List.not_mem_nil

theorem Represents.mem_term (h : index.Represents (docs.map contentOf))
    (hdoc : docs[doc]? = some fields) :
    doc ∈ index.evaluate (.term name term) ↔ positionsOf fields name term ≠ [] := by
  rw [mem_evaluate_term]
  constructor
  · rintro ⟨list, hlist, hmem⟩
    exact (h.mem_docs hdoc hlist).mp hmem
  · intro hne
    obtain ⟨list, hlist⟩ := h.exists_postings hdoc hne
    exact ⟨list, hlist, (h.mem_docs hdoc hlist).mpr hne⟩

theorem Represents.mem_termsOf (h : index.Represents (docs.map contentOf)) {list : PostingList} :
    (term, list) ∈ index.termsOf name ↔ index.postings? name term = some list := by
  rw [Table.mem_iff_find? (h.termsSorted name), postings?_eq]

theorem Represents.mem_withTerm (h : index.Represents (docs.map contentOf))
    (hdoc : docs[doc]? = some fields) {test : String → Bool} :
    doc ∈ index.withTerm name test ↔ hasTerm fields name test = true := by
  rw [InvertedIndex.mem_withTerm, hasTerm_iff]
  simp only [h.mem_termsOf]
  constructor
  · rintro ⟨term, list, hlist, htest, hmem⟩
    exact ⟨term, htest, (h.mem_docs hdoc hlist).mp hmem⟩
  · rintro ⟨term, htest, hne⟩
    obtain ⟨list, hlist⟩ := h.exists_postings hdoc hne
    exact ⟨term, list, hlist, htest, (h.mem_docs hdoc hlist).mpr hne⟩

theorem Represents.mem_withNumber (h : index.Represents (docs.map contentOf))
    (hdoc : docs[doc]? = some fields) {test : Numeric → Bool} :
    doc ∈ index.withNumber name test ↔ (numbersIn fields name).any test = true := by
  have hnumbers : (Table.find? (index.numbersOf name) doc).getD [] = numbersIn fields name := by
    rw [h.numbers name doc]
    simp [hdoc, contentOf, numbersIn]
  rw [InvertedIndex.mem_withNumber, ← hnumbers]
  simp only [Table.mem_iff_find? (h.numbersSorted name)]
  cases Table.find? (index.numbersOf name) doc <;> simp

/-! ### Phrases -/

theorem followsWithin_eq_false {slop position offset : Nat} {terms : List TermPositions}
    (h : ∃ entry ∈ terms, entry.positions = []) :
    followsWithin slop position offset terms = false := by
  induction terms generalizing position offset with
  | nil => simp at h
  | cons first rest ih =>
      rw [followsWithin]
      split
      · rename_i next hnext
        refine ih ?_
        obtain ⟨entry, hentry, hnone⟩ := h
        rcases List.mem_cons.mp hentry with rfl | hrest
        · rw [hnone] at hnext
          cases hnext
        · exact ⟨entry, hrest, hnone⟩
      · rfl

/-- Without one of its terms a phrase does not stand anywhere. -/
theorem matchesPhrase_eq_false {slop : Nat} {terms : List TermPositions}
    (h : ∃ entry ∈ terms, entry.positions = []) : matchesPhrase slop terms = false := by
  cases terms with
  | nil => rfl
  | cons first rest =>
      refine List.any_eq_false.mpr fun start hstart => ?_
      rw [followsWithin_eq_false]
      · exact Bool.false_ne_true
      obtain ⟨entry, hentry, hnone⟩ := h
      rcases List.mem_cons.mp hentry with rfl | hrest
      · rw [hnone] at hstart
        exact absurd hstart List.not_mem_nil
      · exact ⟨entry, hrest, hnone⟩

/-- A term of a phrase with its postings. -/
def IsPostingsOf (index : InvertedIndex) (name : String) (entry : String × Nat)
    (list : PostingList × Nat) : Prop :=
  index.postings? name entry.1 = some list.1 ∧ entry.2 = list.2

theorem phrasePostings?_eq_some {terms : List (String × Nat)} {lists : List (PostingList × Nat)} :
    index.phrasePostings? name terms = some lists ↔
      List.Forall₂ (IsPostingsOf index name) terms lists := by
  have hstep : (fun (entry : String × Nat) (list : PostingList × Nat) =>
      ((index.postings? name entry.1).map fun found => (found, entry.2)) = some list)
      = IsPostingsOf index name := by
    funext entry list
    obtain ⟨postings, offset⟩ := list
    simp [IsPostingsOf, Option.map_eq_some_iff]
  rw [← hstep]
  exact mapM_eq_some

theorem Represents.forall_mem_docs (h : index.Represents (docs.map contentOf))
    (hdoc : docs[doc]? = some fields) {terms : List (String × Nat)}
    {lists : List (PostingList × Nat)}
    (hlists : List.Forall₂ (IsPostingsOf index name) terms lists) :
    (∀ list ∈ lists, doc ∈ list.1.docs) ↔
      ∀ entry ∈ terms, positionsOf fields name entry.1 ≠ [] := by
  induction hlists with
  | nil => simp
  | cons hfirst _ ih =>
      rw [List.forall_mem_cons, List.forall_mem_cons, ih, h.mem_docs hdoc hfirst.1]

/-- The positions of a phrase's terms in a document that has them all. -/
theorem Represents.phrasePositions?_eq (h : index.Represents (docs.map contentOf))
    (hdoc : docs[doc]? = some fields) {terms : List (String × Nat)}
    {lists : List (PostingList × Nat)}
    (hlists : List.Forall₂ (IsPostingsOf index name) terms lists)
    (hall : ∀ entry ∈ terms, positionsOf fields name entry.1 ≠ []) :
    phrasePositions? lists doc
      = some (terms.map fun entry => ⟨positionsOf fields name entry.1, entry.2⟩) := by
  refine mapM_eq_some.mpr ?_
  induction hlists with
  | nil => exact .nil
  | @cons entry list _ _ hfirst _ ih =>
      obtain ⟨hne, hothers⟩ := List.forall_mem_cons.mp hall
      obtain ⟨postings, offset⟩ := list
      obtain ⟨hlist, hoffset⟩ := hfirst
      refine .cons ?_ (ih hothers)
      simp only at hlist hoffset ⊢
      rw [h.postings?_eq_some hlist, PostingList.get?_ofPositions, getElem?_positionsIn hdoc,
        Option.bind_some, PostingList.posting?, if_neg hne, hoffset]
      rfl

theorem Represents.mem_withPhrase (h : index.Represents (docs.map contentOf))
    (hdoc : docs[doc]? = some fields) {terms : List (String × Nat)} {slop : Nat} :
    doc ∈ index.withPhrase name terms slop ↔ matchesPhrase slop
      (terms.map fun entry => ⟨positionsOf fields name entry.1, entry.2⟩) = true := by
  rw [InvertedIndex.mem_withPhrase]
  constructor
  · rintro ⟨lists, hlists, hmem, hmatch⟩
    have hpostings := phrasePostings?_eq_some.mp hlists
    have hall := (h.forall_mem_docs hdoc hpostings).mp hmem
    rwa [h.phrasePositions?_eq hdoc hpostings hall, Option.any_some] at hmatch
  · intro hmatch
    have hall : ∀ entry ∈ terms, positionsOf fields name entry.1 ≠ [] := by
      intro entry hentry hnone
      have hfalse := @matchesPhrase_eq_false slop
        (terms.map fun entry => ⟨positionsOf fields name entry.1, entry.2⟩)
        ⟨_, List.mem_map_of_mem hentry, hnone⟩
      rw [hmatch] at hfalse
      cases hfalse
    obtain ⟨lists, hpostings⟩ : ∃ lists, List.Forall₂ (IsPostingsOf index name) terms lists := by
      refine exists_forall₂.mpr fun entry hentry => ?_
      obtain ⟨list, hlist⟩ := h.exists_postings hdoc (hall entry hentry)
      exact ⟨(list, entry.2), hlist, rfl⟩
    refine ⟨lists, phrasePostings?_eq_some.mpr hpostings,
      (h.forall_mem_docs hdoc hpostings).mpr hall, ?_⟩
    rwa [h.phrasePositions?_eq hdoc hpostings hall, Option.any_some]

/-! ### Every lookup -/

mutual

/-- **A live document answers a lookup exactly if it satisfies it on its own.** -/
theorem Represents.mem_evaluate (h : index.Represents (docs.map contentOf))
    (hdoc : docs[doc]? = some fields) (hlive : doc ∈ index.live) : ∀ lookup : Lookup,
      doc ∈ index.evaluate lookup ↔ satisfies fields lookup = true
  | .everything => iff_of_true hlive rfl
  | .term name value => by
      show _ ↔ hasTerm fields name (fun term => term == value) = true
      rw [h.mem_term hdoc, hasTerm_iff]
      simp
  | .phrase name terms slop => h.mem_withPhrase hdoc
  | .combine must should mustNot => by
      have hshould := h.mem_evaluateAny hdoc hlive should
      have hmustNot := h.mem_evaluateAny hdoc hlive mustNot
      have hmust := h.mem_evaluateAll hdoc hlive must
      have hnone : (∀ lookup ∈ mustNot, doc ∉ index.evaluate lookup) ↔
          satisfiesAny fields mustNot = false := by
        rw [← Bool.not_eq_true, ← hmustNot]
        simp
      show _ ↔ ((if must.isEmpty then satisfiesAny fields should else satisfiesAll fields must) &&
        !satisfiesAny fields mustNot) = true
      rw [Bool.and_eq_true, Bool.not_eq_true', ← hnone]
      cases must with
      | nil => rw [mem_evaluate_combine_nil, hshould]; rfl
      | cons first rest =>
          rw [mem_evaluate_combine (List.cons_ne_nil first rest), hmust]
          rfl
  | .terms name interval => h.mem_withTerm hdoc
  | .numbers name interval => h.mem_withNumber hdoc
  | .wildcard name pattern => h.mem_withTerm hdoc
  | .fuzzy name term maxEdits => by
      have htest : (fun other => isSimilar other term maxEdits)
          = fun other => decide (editDistance other.toList term.toList ≤ maxEdits) :=
        funext fun other => isSimilar_eq other term maxEdits
      show doc ∈ index.withTerm name (fun other => isSimilar other term maxEdits) ↔ _
      rw [htest]
      exact h.mem_withTerm hdoc

theorem Represents.mem_evaluateAll (h : index.Represents (docs.map contentOf))
    (hdoc : docs[doc]? = some fields) (hlive : doc ∈ index.live) : ∀ lookups : List Lookup,
      (∀ lookup ∈ lookups, doc ∈ index.evaluate lookup) ↔ satisfiesAll fields lookups = true
  | [] => by simp [satisfiesAll]
  | lookup :: rest => by
      rw [List.forall_mem_cons, h.mem_evaluate hdoc hlive lookup, h.mem_evaluateAll hdoc hlive rest,
        satisfiesAll, Bool.and_eq_true]

theorem Represents.mem_evaluateAny (h : index.Represents (docs.map contentOf))
    (hdoc : docs[doc]? = some fields) (hlive : doc ∈ index.live) : ∀ lookups : List Lookup,
      (∃ lookup ∈ lookups, doc ∈ index.evaluate lookup) ↔ satisfiesAny fields lookups = true
  | [] => by simp [satisfiesAny]
  | lookup :: rest => by
      rw [List.exists_mem_cons_iff, h.mem_evaluate hdoc hlive lookup,
        h.mem_evaluateAny hdoc hlive rest, satisfiesAny, Bool.or_eq_true]

end

end Represented

end InvertedIndex

/-! ### Changes and their outcomes -/

/-- What a change reports. -/
inductive Outcome where
  | added (doc : DocId)
  | refused (error : Error)
  | deleted (count : Nat)

/-- Changes one after the other, with what each of them reports. -/
def makeAll {σ : Type} (make : σ → Change → σ × Outcome) : σ → List Change → σ × List Outcome
  | state, [] => (state, [])
  | state, change :: rest =>
    let (next, outcome) := make state change
    let (last, outcomes) := makeAll make next rest
    (last, outcome :: outcomes)

/-- Makes a change to the index; a document that cannot be analysed changes nothing. -/
def InvertedIndex.make (analyzers : Analyzers) (index : InvertedIndex) :
    Change → InvertedIndex × Outcome
  | .add document =>
    match index.add analyzers document with
    | .ok (next, doc) => (next, .added doc)
    | .error e => (index, .refused e)
  | .deleteTerm field term =>
    let (next, count) := index.deleteTerm field term
    (next, .deleted count)

/-- A document that went in, and whether it is live. -/
structure Shelved where
  fields : List InvertedIndex.AnalyzedField
  live : Bool

/-- Every document that went in, in the order of their numbers. -/
abbrev Shelf := List Shelved

namespace Shelf

/-- The numbers of the documents that pass a test. -/
def idsWhere (shelf : Shelf) (test : Shelved → Bool) : List DocId :=
  (shelf.zipIdx.filter fun entry => test entry.1).map Prod.snd

/-- The live documents that satisfy a lookup. -/
def matching (shelf : Shelf) (lookup : Lookup) : List DocId :=
  shelf.idsWhere fun document => document.live && InvertedIndex.satisfies document.fields lookup

/-- Whether a document is live and has a term. -/
def isDoomed (field term : String) (document : Shelved) : Bool :=
  document.live && InvertedIndex.hasTerm document.fields field fun other => other == term

/-- Makes a change to the shelf; a document that cannot be analysed changes nothing. -/
def make (analyzers : Analyzers) (shelf : Shelf) : Change → Shelf × Outcome
  | .add document =>
    match InvertedIndex.analyze analyzers document with
    | .ok fields => (shelf ++ [⟨fields, true⟩], .added shelf.length)
    | .error e => (shelf, .refused e)
  | .deleteTerm field term =>
    (shelf.map fun document =>
        if isDoomed field term document then { document with live := false } else document,
      .deleted (shelf.countP (isDoomed field term)))

variable {shelf : Shelf} {test : Shelved → Bool}

theorem mem_idsWhere {doc : DocId} :
    doc ∈ shelf.idsWhere test ↔ ∃ document, shelf[doc]? = some document ∧ test document = true := by
  simp [idsWhere, List.mem_filter, List.mk_mem_zipIdx_iff_getElem?]

theorem increasing_idsWhere (shelf : Shelf) (test : Shelved → Bool) :
    DocSet.Increasing (shelf.idsWhere test) := by
  have hall : DocSet.Increasing (shelf.zipIdx.map Prod.snd) := by
    rw [List.zipIdx_map_snd]
    exact List.pairwise_lt_range'
  exact List.Pairwise.sublist (List.filter_sublist.map Prod.snd) hall

theorem length_idsWhere (shelf : Shelf) (test : Shelved → Bool) :
    (shelf.idsWhere test).length = shelf.countP test := by
  have hfst : shelf.countP test = (shelf.zipIdx.map Prod.fst).countP test := by
    rw [List.zipIdx_map_fst]
  rw [hfst, List.countP_map, List.countP_eq_length_filter, idsWhere, List.length_map]
  rfl

theorem idsWhere_concat (shelf : Shelf) (document : Shelved) (test : Shelved → Bool) :
    Shelf.idsWhere (shelf ++ [document]) test
      = shelf.idsWhere test ++ if test document then [shelf.length] else [] := by
  by_cases htest : test document = true <;> simp [idsWhere, List.zipIdx_append, htest]

end Shelf

/-! ### The same outcomes and the same answers -/

/-- The index holds what is on the shelf, and the same documents are live. -/
structure Refines (index : InvertedIndex) (shelf : Shelf) : Prop where
  represents : index.Represents ((shelf.map Shelved.fields).map InvertedIndex.contentOf)
  live : index.live = shelf.idsWhere Shelved.live

namespace Refines

variable {index : InvertedIndex} {shelf : Shelf}

theorem empty : Refines .empty [] := ⟨InvertedIndex.represents_empty, rfl⟩

theorem nextDoc (h : Refines index shelf) : index.nextDoc = shelf.length := by
  rw [h.represents.nextDoc, List.length_map, List.length_map]

theorem increasing_live (h : Refines index shelf) : index.live.Increasing := by
  rw [h.live]
  exact Shelf.increasing_idsWhere _ _

theorem mem_live (h : Refines index shelf) {doc : DocId} :
    doc ∈ index.live ↔ ∃ document, shelf[doc]? = some document ∧ document.live = true := by
  rw [h.live]
  exact Shelf.mem_idsWhere

/-- On a live document the index agrees with the document on its own. -/
theorem mem_evaluate (h : Refines index shelf) {doc : DocId} {document : Shelved}
    (hdoc : shelf[doc]? = some document) (hlive : document.live = true) (lookup : Lookup) :
    doc ∈ index.evaluate lookup ↔ InvertedIndex.satisfies document.fields lookup = true := by
  have hfields : (shelf.map Shelved.fields)[doc]? = some document.fields := by
    rw [List.getElem?_map, hdoc, Option.map_some]
  exact h.represents.mem_evaluate hfields (h.mem_live.mpr ⟨document, hdoc, hlive⟩) lookup

theorem add (h : Refines index shelf) (fields : List InvertedIndex.AnalyzedField) :
    Refines (index.insert fields).1 (shelf ++ [⟨fields, true⟩]) := by
  have hbelow : ∀ doc ∈ index.live, doc < index.nextDoc := by
    intro doc hdoc
    obtain ⟨document, hdoc, -⟩ := h.mem_live.mp hdoc
    rw [h.nextDoc]
    exact (List.getElem?_eq_some_iff.mp hdoc).1
  constructor
  · rw [List.map_append, List.map_append]
    exact h.represents.insert fields
  · rw [InvertedIndex.live_insert hbelow, h.live, h.nextDoc, Shelf.idsWhere_concat]
    rfl

/-- The live documents that a term dooms are those on the shelf that are live and have it. -/
theorem doomed (h : Refines index shelf) (field term : String) :
    index.live.filter (fun doc => (index.evaluate (.term field term)).contains doc)
      = shelf.idsWhere (Shelf.isDoomed field term) := by
  refine (h.increasing_live.filter _).ext (Shelf.increasing_idsWhere _ _) fun doc => ?_
  rw [List.mem_filter, List.contains_iff_mem, h.mem_live, Shelf.mem_idsWhere]
  simp only [Shelf.isDoomed, Bool.and_eq_true]
  constructor
  · rintro ⟨⟨document, hdoc, hlive⟩, hmem⟩
    exact ⟨document, hdoc, hlive, (h.mem_evaluate hdoc hlive _).mp hmem⟩
  · rintro ⟨document, hdoc, hlive, hterm⟩
    exact ⟨⟨document, hdoc, hlive⟩, (h.mem_evaluate hdoc hlive (.term field term)).mpr hterm⟩

theorem deleteTerm (h : Refines index shelf) (field term : String) :
    (index.deleteTerm field term).2 = shelf.countP (Shelf.isDoomed field term) ∧
      Refines (index.deleteTerm field term).1 (shelf.map fun document =>
        if Shelf.isDoomed field term document then { document with live := false }
        else document) := by
  refine ⟨?_, ?_, ?_⟩
  · rw [InvertedIndex.deleteTerm_count, h.doomed, Shelf.length_idsWhere]
  · have hfields : (shelf.map fun document =>
          if Shelf.isDoomed field term document then { document with live := false }
          else document).map Shelved.fields = shelf.map Shelved.fields := by
      rw [List.map_map]
      refine List.map_congr_left fun document _ => ?_
      simp only [Function.comp_apply]
      split <;> rfl
    rw [hfields]
    exact h.represents.deleteTerm field term
  · rw [InvertedIndex.deleteTerm_eq]
    refine (h.increasing_live.filter _).ext (Shelf.increasing_idsWhere _ _) fun doc => ?_
    rw [List.mem_filter, h.mem_live, Shelf.mem_idsWhere]
    simp only [List.getElem?_map, Option.map_eq_some_iff]
    have hspared : ∀ {document : Shelved}, shelf[doc]? = some document → document.live = true →
        ((!(index.evaluate (.term field term)).contains doc) = true ↔
          ¬Shelf.isDoomed field term document = true) := by
      intro document hdoc hlive
      have hmem := h.mem_evaluate hdoc hlive (.term field term)
      rw [Bool.not_eq_true', ← Bool.not_eq_true, List.contains_iff_mem, hmem, Shelf.isDoomed, hlive]
      rfl
    constructor
    · rintro ⟨⟨document, hdoc, hlive⟩, hother⟩
      exact ⟨document, ⟨document, hdoc, if_neg ((hspared hdoc hlive).mp hother)⟩, hlive⟩
    · rintro ⟨_, ⟨document, hdoc, rfl⟩, hlive⟩
      by_cases hdoomed : Shelf.isDoomed field term document = true
      · rw [if_pos hdoomed] at hlive
        cases hlive
      · rw [if_neg hdoomed] at hlive
        exact ⟨⟨document, hdoc, hlive⟩, (hspared hdoc hlive).mpr hdoomed⟩

/-- A change has the same outcome on both sides, and leaves them the same. -/
theorem make (h : Refines index shelf) (analyzers : Analyzers) (change : Change) :
    (index.make analyzers change).2 = (shelf.make analyzers change).2 ∧
      Refines (index.make analyzers change).1 (shelf.make analyzers change).1 := by
  cases change with
  | add document =>
      simp only [InvertedIndex.make, Shelf.make, InvertedIndex.add]
      cases InvertedIndex.analyze analyzers document with
      | error e => exact ⟨rfl, h⟩
      | ok fields => exact ⟨congrArg Outcome.added h.nextDoc, h.add fields⟩
  | deleteTerm field term =>
      obtain ⟨hcount, hrefines⟩ := h.deleteTerm field term
      exact ⟨congrArg Outcome.deleted hcount, hrefines⟩

theorem makeAll (analyzers : Analyzers) (changes : List Change) :
    ∀ {index : InvertedIndex} {shelf : Shelf}, Refines index shelf →
      (makeAll (InvertedIndex.make analyzers) index changes).2
        = (makeAll (Shelf.make analyzers) shelf changes).2 ∧
      Refines (DocIndex.makeAll (InvertedIndex.make analyzers) index changes).1
        (DocIndex.makeAll (Shelf.make analyzers) shelf changes).1 := by
  induction changes with
  | nil => exact fun h => ⟨rfl, h⟩
  | cons change rest ih =>
      intro index shelf h
      obtain ⟨houtcome, hnext⟩ := h.make analyzers change
      obtain ⟨houtcomes, hlast⟩ := ih hnext
      exact ⟨congrArg₂ List.cons houtcome houtcomes, hlast⟩

theorem matching (h : Refines index shelf) (lookup : Lookup) :
    index.matching lookup = shelf.matching lookup := by
  have hevaluate :=
    InvertedIndex.increasing_evaluate h.increasing_live h.represents.numbersSorted lookup
  refine DocSet.Increasing.ext (hevaluate.filter _) (Shelf.increasing_idsWhere _ _) fun doc => ?_
  refine InvertedIndex.mem_matching.trans (Iff.trans ?_ Shelf.mem_idsWhere.symm)
  simp only [h.mem_live, Bool.and_eq_true]
  constructor
  · rintro ⟨hmem, document, hdoc, hlive⟩
    exact ⟨document, hdoc, hlive, (h.mem_evaluate hdoc hlive lookup).mp hmem⟩
  · rintro ⟨document, hdoc, hlive, hsatisfies⟩
    exact ⟨(h.mem_evaluate hdoc hlive lookup).mpr hsatisfies, document, hdoc, hlive⟩

end Refines

/--
**The index answers as the documents on their own do.**  Any changes, made to the empty index,
have the outcomes that they have on an empty shelf: the same documents get the same numbers,
the same are refused, and deleting a term reports how many live documents have it.  Afterwards
every lookup finds exactly the live documents that satisfy it when each is looked at alone.
-/
theorem matching_makeAll (analyzers : Analyzers) (changes : List Change) :
    (makeAll (InvertedIndex.make analyzers) .empty changes).2
      = (makeAll (Shelf.make analyzers) [] changes).2 ∧
    ∀ lookup : Lookup,
      (makeAll (InvertedIndex.make analyzers) .empty changes).1.matching lookup
        = (makeAll (Shelf.make analyzers) [] changes).1.matching lookup := by
  obtain ⟨houtcomes, hrefines⟩ := Refines.empty.makeAll analyzers changes
  exact ⟨houtcomes, hrefines.matching⟩

end DocIndex
