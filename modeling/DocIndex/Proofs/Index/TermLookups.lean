/-
Which terms a wildcard lookup and a fuzzy lookup select.

Both go through the terms of a field and unite the postings of those that pass a test.  A wildcard
lookup tests by a regular expression, whose full stop stands for no line feed; so it passes over
terms that fit the pattern only if a wildcard stands for one.  A fuzzy lookup tests by the number
of edits, and compares the lengths first, which costs it no term.

A posting tells that a term stands in a document, and so what is found can be told from the
documents that went into the index, whatever else happened to it.
-/
import DocIndex.Proofs.Index.Globs
import DocIndex.Proofs.Index.Histories

namespace DocIndex.InvertedIndex

open RegexPart (IsMatch readAll?)

/-- A document is among the postings of a term. -/
def Posted (index : InvertedIndex) (field term : String) (doc : DocId) : Prop :=
  ∃ list, (term, list) ∈ index.termsOf field ∧ doc ∈ list.docs

variable {index : InvertedIndex} {field : String} {doc : DocId}

theorem mem_withTerm_iff_posted {test : String → Bool} :
    doc ∈ index.withTerm field test ↔ ∃ term, index.Posted field term doc ∧ test term = true := by
  rw [mem_withTerm]
  constructor
  · rintro ⟨term, list, hlist, htest, hdoc⟩
    exact ⟨term, ⟨list, hlist, hdoc⟩, htest⟩
  · rintro ⟨term, ⟨list, hlist, hdoc⟩, htest⟩
    exact ⟨term, list, hlist, htest, hdoc⟩

/-- The postings of a term are the documents that it stands in, live and deleted ones. -/
theorem posted_ofHistory {history : List Happening} {term : String} :
    (ofHistory history).Posted field term doc ↔
      ∃ fields, (documentsOf history)[doc]? = some fields ∧ positionsOf fields field term ≠ [] := by
  obtain ⟨shelf, hrefines, hfields⟩ := exists_refines_ofHistory history
  have hrepresents := hrefines.represents
  rw [hfields] at hrepresents
  constructor
  · rintro ⟨list, hlist, hdoc⟩
    have hpostings := hrepresents.postings?_eq_some (hrepresents.mem_termsOf.mp hlist)
    rw [hpostings, PostingList.mem_docs_ofPositions] at hdoc
    obtain ⟨positions, hpositions, hne⟩ := hdoc
    cases hfields : (documentsOf history)[doc]? with
    | none => simp [positionsIn, hfields] at hpositions
    | some fields =>
        rw [getElem?_positionsIn hfields] at hpositions
        exact ⟨fields, rfl, Option.some.inj hpositions ▸ hne⟩
  · rintro ⟨fields, hfields, hne⟩
    obtain ⟨list, hlist⟩ := hrepresents.exists_postings hfields hne
    exact ⟨list, hrepresents.mem_termsOf.mpr hlist, (hrepresents.mem_docs hfields hlist).mpr hne⟩

/-- A posted term that passes a test is one that stands in a document and passes it. -/
theorem exists_posted_ofHistory {history : List Happening} {test : String → Prop} :
    (∃ term, (ofHistory history).Posted field term doc ∧ test term) ↔
      ∃ fields, (documentsOf history)[doc]? = some fields ∧
        ∃ term, positionsOf fields field term ≠ [] ∧ test term := by
  simp only [posted_ofHistory]
  constructor
  · rintro ⟨term, ⟨fields, hfields, hne⟩, htest⟩
    exact ⟨fields, hfields, term, hne, htest⟩
  · rintro ⟨fields, hfields, term, hne, htest⟩
    exact ⟨term, ⟨fields, hfields, hne⟩, htest⟩

/-! ### Wildcards -/

theorem mem_matching_wildcard {pattern : String} :
    doc ∈ index.matching (.wildcard field pattern) ↔
      doc ∈ index.live ∧
        ∃ term, index.Posted field term doc ∧ Globs onLine pattern.toList term.toList := by
  show doc ∈ DocSet.inter (index.withTerm field _) index.live ↔ _
  rw [DocSet.mem_inter, mem_withTerm_iff_posted, Pattern.ofText_eq]
  simp only [Pattern.fits_iff_globs]
  exact and_comm

/--
**A wildcard lookup selects the terms that fit the pattern with no wildcard for a line feed**,
which are those that fit it in the glob sense and have no more line feeds than the pattern.  So
the regular expression does that is written for the pattern, whatever characters the pattern has;
and the documents found are the live ones that such a term stands in.
-/
theorem matching_wildcard (pattern : String) :
    (∀ text, Globs onLine pattern.toList text ↔
      Globs anyChar pattern.toList text ∧ text.count '\n' = pattern.toList.count '\n') ∧
    (∃ regex, readAll? (Pattern.ofText pattern).toRegex.toList = some regex ∧
      ∀ text, IsMatch regex text ↔ Globs onLine pattern.toList text) ∧
    (∀ (index : InvertedIndex) (field : String) (doc : DocId),
      doc ∈ index.matching (.wildcard field pattern) ↔
        doc ∈ index.live ∧
          ∃ term, index.Posted field term doc ∧ Globs onLine pattern.toList term.toList) ∧
    ∀ (history : List Happening) (field : String) (doc : DocId),
      doc ∈ (ofHistory history).matching (.wildcard field pattern) ↔
        doc ∈ (ofHistory history).live ∧
          ∃ fields, (documentsOf history)[doc]? = some fields ∧
            ∃ term, positionsOf fields field term ≠ [] ∧
              Globs onLine pattern.toList term.toList := by
  refine ⟨fun _ => Globs.onLine_iff, ?_, fun _ _ _ => mem_matching_wildcard, ?_⟩
  · obtain ⟨regex, hread, hmatch⟩ := Pattern.exists_regex (Pattern.ofText pattern)
    refine ⟨regex, hread, fun text => ?_⟩
    rw [hmatch, Pattern.ofText_eq, Pattern.fits_iff_globs]
  · intro history field doc
    rw [mem_matching_wildcard, exists_posted_ofHistory]

/-- A document with a term of two lines. -/
def twoLines : List AnalyzedField := [⟨.term "$id" "a\nb", []⟩]

/-- The term fits the pattern in the glob sense, and the lookup does not find it. -/
theorem line_feed_not_found :
    0 ∈ (ofHistory [.inserted twoLines]).live ∧
      (ofHistory [.inserted twoLines]).Posted "$id" "a\nb" 0 ∧
      Globs anyChar "a*b".toList "a\nb".toList ∧
      0 ∉ (ofHistory [.inserted twoLines]).matching (.wildcard "$id" "a*b") := by
  have hposted : (ofHistory [.inserted twoLines]).Posted "$id" "a\nb" 0 :=
    posted_ofHistory.mpr ⟨twoLines, rfl, by decide +kernel⟩
  have hglobs : Globs anyChar ['a', '*', 'b'] ['a', '\n', 'b'] :=
    .self (by decide) (by decide) (.star ['\n'] (fun _ _ => trivial)
      (.self (by decide) (by decide) .nil))
  exact ⟨by decide +kernel, hposted, hglobs, by decide +kernel⟩

/-! ### Edits -/

theorem isSimilar_iff {term other : String} {maxEdits : Nat} :
    isSimilar other term maxEdits = true ↔
      ∃ n ≤ maxEdits, CharEdits n other.toList term.toList := by
  have hleast := isLeast_charEdits other.toList term.toList
  rw [isSimilar_eq, decide_eq_true_iff]
  constructor
  · exact fun hle => ⟨_, hle, hleast.1⟩
  · rintro ⟨n, hle, hedits⟩
    exact Nat.le_trans (hleast.2 hedits) hle

theorem mem_matching_fuzzy {term : String} {maxEdits : Nat} :
    doc ∈ index.matching (.fuzzy field term maxEdits) ↔
      doc ∈ index.live ∧
        ∃ other, index.Posted field other doc ∧
          ∃ n ≤ maxEdits, CharEdits n other.toList term.toList := by
  show doc ∈ DocSet.inter (index.withTerm field _) index.live ↔ _
  rw [DocSet.mem_inter, mem_withTerm_iff_posted]
  simp only [isSimilar_iff]
  exact and_comm

/--
**A fuzzy lookup finds the live documents with a term at most so many edits away.**  The distance
that it computes is the least number of edits, and is at least the difference of the lengths, so
that the comparison of the lengths rejects no such term.
-/
theorem matching_fuzzy :
    (∀ a b : String,
      IsLeast {n | CharEdits n a.toList b.toList} (editDistance a.toList b.toList)) ∧
    (∀ a b : String,
      max a.length b.length - min a.length b.length ≤ editDistance a.toList b.toList) ∧
    (∀ (index : InvertedIndex) (field term : String) (maxEdits : Nat) (doc : DocId),
      doc ∈ index.matching (.fuzzy field term maxEdits) ↔
        doc ∈ index.live ∧
          ∃ other, index.Posted field other doc ∧
            ∃ n ≤ maxEdits, CharEdits n other.toList term.toList) ∧
    ∀ (history : List Happening) (field term : String) (maxEdits : Nat) (doc : DocId),
      doc ∈ (ofHistory history).matching (.fuzzy field term maxEdits) ↔
        doc ∈ (ofHistory history).live ∧
          ∃ fields, (documentsOf history)[doc]? = some fields ∧
            ∃ other, positionsOf fields field other ≠ [] ∧
              ∃ n ≤ maxEdits, CharEdits n other.toList term.toList := by
  refine ⟨fun a b => isLeast_charEdits a.toList b.toList, fun a b => ?_,
    fun _ _ _ _ _ => mem_matching_fuzzy, ?_⟩
  · have hlengths := length_le_editDistance a.toList b.toList
    simp only [String.length_toList] at hlengths
    omega
  · intro history field term maxEdits doc
    rw [mem_matching_fuzzy, exists_posted_ofHistory]

end DocIndex.InvertedIndex
