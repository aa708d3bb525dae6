/-
What inserting and deleting change.

A document that goes in becomes one of the documents with each of its searched terms, keeps
its stored bytes in their order, and is the last live one; nothing else about any document
changes.  Deleting only takes documents out of the live ones.  Every field of a document is
put in by the same step, so each fact about a document is the fold of one about a field.
-/
import DocIndex.Index.Search
import DocIndex.Proofs.Table

namespace DocIndex

/-! ### Sets of documents -/

section Sorted

variable {α : Type} [Ord α]

theorem insertSorted_of_lt [Std.OrientedOrd α] {x : α} {list : List α}
    (h : ∀ y ∈ list, compare y x = .lt) : insertSorted x list = list ++ [x] := by
  induction list with
  | nil => rfl
  | cons y rest ih =>
      have hgt : compare x y = .gt := Std.OrientedCmp.gt_of_lt (h y List.mem_cons_self)
      have hrest := ih fun z hz => h z (List.mem_cons_of_mem _ hz)
      simp [insertSorted, hgt, hrest]

variable [Std.LawfulEqOrd α]

theorem mem_insertSorted {x y : α} {list : List α} :
    y ∈ insertSorted x list ↔ y = x ∨ y ∈ list := by
  induction list with
  | nil => simp [insertSorted]
  | cons z rest ih =>
      cases hc : compare x z with
      | lt => simp [insertSorted, hc]
      | eq =>
          have hsame : x = z := Std.LawfulEqOrd.eq_of_compare hc
          simp [insertSorted, hsame]
      | gt =>
          simp only [insertSorted, hc, List.mem_cons, ih]
          exact or_left_comm

theorem mem_sortedDistinct {y : α} {xs : List α} : y ∈ sortedDistinct xs ↔ y ∈ xs := by
  suffices h : ∀ (xs sorted : List α),
      y ∈ xs.foldl (fun sorted x => insertSorted x sorted) sorted ↔ y ∈ sorted ∨ y ∈ xs by
    rw [sortedDistinct, h]
    simp
  intro xs
  induction xs with
  | nil => intro sorted; simp
  | cons x rest ih =>
      intro sorted
      rw [List.foldl_cons, ih, mem_insertSorted, List.mem_cons]
      constructor
      · rintro ((h | h) | h)
        · exact Or.inr (Or.inl h)
        · exact Or.inl h
        · exact Or.inr (Or.inr h)
      · rintro (h | h | h)
        · exact Or.inl (Or.inr h)
        · exact Or.inl (Or.inl h)
        · exact Or.inr h

theorem pairwise_insertSorted [Std.TransOrd α] {list : List α}
    (h : list.Pairwise fun a b => compare a b = .lt) (x : α) :
    (insertSorted x list).Pairwise fun a b => compare a b = .lt := by
  induction list with
  | nil => exact List.pairwise_singleton _ _
  | cons first rest ih =>
      obtain ⟨hfirst, hrest⟩ := List.pairwise_cons.mp h
      cases hc : compare x first with
      | lt =>
          simp only [insertSorted, hc]
          refine List.pairwise_cons.mpr ⟨fun other hother => ?_, h⟩
          rcases List.mem_cons.mp hother with rfl | hother
          · exact hc
          · exact Std.TransCmp.lt_trans hc (hfirst other hother)
      | eq =>
          simp only [insertSorted, hc]
          exact h
      | gt =>
          simp only [insertSorted, hc]
          refine List.pairwise_cons.mpr ⟨fun other hother => ?_, ih hrest⟩
          rcases mem_insertSorted.mp hother with rfl | hother
          · exact Std.OrientedCmp.lt_of_gt hc
          · exact hfirst other hother

theorem pairwise_sortedDistinct [Std.TransOrd α] (xs : List α) :
    (sortedDistinct xs).Pairwise fun a b => compare a b = .lt := by
  suffices h : ∀ (xs sorted : List α), (sorted.Pairwise fun a b => compare a b = .lt) →
      (xs.foldl (fun sorted x => insertSorted x sorted) sorted).Pairwise
        fun a b => compare a b = .lt from
    h xs [] .nil
  intro xs
  induction xs with
  | nil => exact fun sorted h => h
  | cons x rest ih => exact fun sorted h => ih _ (pairwise_insertSorted h x)

omit [Std.LawfulEqOrd α] in
/-- A list in increasing order is left as it is. -/
theorem sortedDistinct_of_pairwise [Std.OrientedOrd α] {list : List α}
    (h : list.Pairwise fun a b => compare a b = .lt) : sortedDistinct list = list := by
  suffices hall : ∀ (rest front : List α),
      (front ++ rest).Pairwise (fun a b => compare a b = .lt) →
        rest.foldl (fun sorted x => insertSorted x sorted) front = front ++ rest from
    hall list [] h
  intro rest
  induction rest with
  | nil =>
      intro front _
      rw [List.foldl_nil, List.append_nil]
  | cons x rest ih =>
      intro front hsorted
      have hfront : ∀ y ∈ front, compare y x = .lt := fun y hy =>
        (List.pairwise_append.mp hsorted).2.2 y hy x List.mem_cons_self
      rw [List.append_cons] at hsorted ⊢
      rw [List.foldl_cons, insertSorted_of_lt hfront, ih (front ++ [x]) hsorted]

end Sorted

/-! ### Postings -/

namespace PostingList

theorem mem_docs {list : PostingList} {doc : DocId} :
    doc ∈ list.docs ↔ doc ∈ list.map Posting.doc := mem_sortedDistinct

theorem mem_addPosting {list : PostingList} {doc other : DocId} {position : Nat} :
    other ∈ (addPosting doc position list).map Posting.doc ↔
      other = doc ∨ other ∈ list.map Posting.doc := by
  induction list with
  | nil => simp [addPosting]
  | cons p rest ih =>
      by_cases hlt : p.doc < doc
      · simp only [addPosting, if_pos hlt, List.map_cons, List.mem_cons, ih]
        exact or_left_comm
      · simp [addPosting, if_neg hlt]

/-- Recording an occurrence adds its document. -/
theorem mem_docs_record {list : PostingList} {doc other : DocId} {position : Nat} :
    other ∈ (list.record doc position).docs ↔ other = doc ∨ other ∈ list.docs := by
  rw [mem_docs, mem_docs, record]
  split
  · rename_i last hlast
    by_cases hsame : last.doc = doc
    · -- The last posting is replaced by one of the same document.
      rw [if_pos hsame]
      obtain ⟨front, rfl⟩ := List.getLast?_eq_some_iff.mp hlast
      rw [List.dropLast_concat, List.map_append, List.map_append]
      simp only [List.map_cons, List.map_nil, List.mem_append, List.mem_singleton, hsame]
      constructor
      · rintro (h | h)
        · exact Or.inr (Or.inl h)
        · exact Or.inl h
      · rintro (h | h | h)
        · exact Or.inr h
        · exact Or.inl h
        · exact Or.inr h
    · rw [if_neg hsame]
      exact mem_addPosting
  · exact mem_addPosting

end PostingList

namespace InvertedIndex

/-! ### The documents with a term -/

theorem evaluate_term (index : InvertedIndex) (field term : String) :
    index.evaluate (.term field term)
      = ((index.postings? field term).map PostingList.docs).getD [] := rfl

theorem mem_evaluate_term {index : InvertedIndex} {field term : String} {doc : DocId} :
    doc ∈ index.evaluate (.term field term) ↔
      ∃ list, index.postings? field term = some list ∧ doc ∈ list.docs := by
  rw [evaluate_term]
  cases index.postings? field term <;> simp

theorem postings?_addTerm (index : InvertedIndex) (field term : String) (doc : DocId)
    (position : Nat) (f t : String) :
    (index.addTerm field term doc position).postings? f t
      = if f = field ∧ t = term then
          some (((index.postings? field term).getD []).record doc position)
        else index.postings? f t := by
  by_cases hfield : f = field
  · subst hfield
    simp only [postings?, addTerm, Table.find?_alter_self, Option.bind_some, true_and]
    by_cases hterm : t = term
    · subst hterm
      rw [if_pos rfl, Table.find?_alter_self]
      cases Table.find? index.terms f <;> rfl
    · rw [if_neg hterm, Table.find?_alter_ne _ hterm]
      cases Table.find? index.terms f <;> rfl
  · rw [if_neg fun h => hfield h.1]
    simp only [postings?, addTerm, Table.find?_alter_ne _ hfield]

theorem mem_evaluate_addTerm {index : InvertedIndex} {field term f t : String}
    {doc other : DocId} {position : Nat} :
    other ∈ (index.addTerm field term doc position).evaluate (.term f t) ↔
      other ∈ index.evaluate (.term f t) ∨ f = field ∧ t = term ∧ other = doc := by
  rw [mem_evaluate_term, mem_evaluate_term, postings?_addTerm]
  by_cases hsame : f = field ∧ t = term
  · obtain ⟨rfl, rfl⟩ := hsame
    simp only [and_self, if_true, true_and, Option.some.injEq, exists_eq_left',
      PostingList.mem_docs_record]
    cases index.postings? f t <;> simp [PostingList.docs, DocSet.ofList, sortedDistinct, or_comm]
  · rw [if_neg hsame]
    constructor
    · exact Or.inl
    · rintro (h | ⟨hf, ht, -⟩)
      · exact h
      · exact absurd ⟨hf, ht⟩ hsame

/-- The index with one more token of a text, and the position of the token. -/
def addToken (field : String) (doc : DocId) (base : Nat) (state : InvertedIndex × Nat)
    (t : Analysis.Token) : InvertedIndex × Nat :=
  (state.1.addTerm field t.text doc (base + t.position), base + t.position)

theorem addTokens_eq (index : InvertedIndex) (field : String) (doc : DocId) (base : Nat)
    (tokens : List Analysis.Token) :
    index.addTokens field doc base tokens = tokens.foldl (addToken field doc base) (index, base) :=
  rfl

theorem mem_evaluate_addTokens {field f t : String} {doc other : DocId} {base : Nat}
    (tokens : List Analysis.Token) : ∀ index : InvertedIndex,
      other ∈ (index.addTokens field doc base tokens).1.evaluate (.term f t) ↔
        other ∈ index.evaluate (.term f t) ∨
          f = field ∧ t ∈ tokens.map Analysis.Token.text ∧ other = doc := by
  suffices h : ∀ (tokens : List Analysis.Token) (state : InvertedIndex × Nat),
      other ∈ (tokens.foldl (addToken field doc base) state).1.evaluate (.term f t) ↔
        other ∈ state.1.evaluate (.term f t) ∨
          f = field ∧ t ∈ tokens.map Analysis.Token.text ∧ other = doc from
    fun index => h tokens (index, base)
  intro tokens
  induction tokens with
  | nil => intro state; simp
  | cons token rest ih =>
      intro state
      rw [List.foldl_cons, ih, addToken, mem_evaluate_addTerm, List.map_cons, List.mem_cons]
      constructor
      · rintro ((h | ⟨hf, ht, ho⟩) | ⟨hf, ht, ho⟩)
        · exact Or.inl h
        · exact Or.inr ⟨hf, Or.inl ht, ho⟩
        · exact Or.inr ⟨hf, Or.inr ht, ho⟩
      · rintro (h | ⟨hf, ht | ht, ho⟩)
        · exact Or.inl (Or.inl h)
        · exact Or.inl (Or.inr ⟨hf, ht, ho⟩)
        · exact Or.inr ⟨hf, ht, ho⟩

/-! ### What is left alone -/

/-- Indexes with the same live documents, stored bytes and next number. -/
structure SameDocuments (a b : InvertedIndex) : Prop where
  live : a.live = b.live
  stored : a.stored = b.stored
  nextDoc : a.nextDoc = b.nextDoc

theorem SameDocuments.trans {a b c : InvertedIndex} (h : SameDocuments a b)
    (h' : SameDocuments b c) : SameDocuments a c :=
  ⟨h.live.trans h'.live, h.stored.trans h'.stored, h.nextDoc.trans h'.nextDoc⟩

theorem sameDocuments_addTokens (field : String) (doc : DocId) (base : Nat)
    (tokens : List Analysis.Token) : ∀ index : InvertedIndex,
      SameDocuments (index.addTokens field doc base tokens).1 index := by
  suffices h : ∀ (tokens : List Analysis.Token) (state : InvertedIndex × Nat),
      SameDocuments (tokens.foldl (addToken field doc base) state).1 state.1 from
    fun index => h tokens (index, base)
  intro tokens
  induction tokens with
  | nil => intro state; exact ⟨rfl, rfl, rfl⟩
  | cons token rest ih => intro state; exact (ih _).trans ⟨rfl, rfl, rfl⟩

/-! ### One field -/

/-- The terms that a field is found by. -/
def AnalyzedField.terms (f : AnalyzedField) : List String :=
  match f.field.value with
  | .term term => [term]
  | .text _ _ => f.tokens.map Analysis.Token.text
  | _ => []

/-- Making a field searchable leaves the documents alone. -/
theorem sameDocuments_indexField (doc : DocId) (state : Insertion) (f : AnalyzedField) :
    SameDocuments (indexField doc state f).index state.index := by
  unfold indexField
  cases f.field.value with
  | term term => exact ⟨rfl, rfl, rfl⟩
  | text text analyzer =>
      have htokens := sameDocuments_addTokens f.field.name doc
        ((Table.find? state.starts f.field.name).getD 0) f.tokens state.index
      exact ⟨htokens.live, htokens.stored, htokens.nextDoc⟩
  | long n => exact ⟨rfl, rfl, rfl⟩
  | double x => exact ⟨rfl, rfl, rfl⟩
  | stored bytes => exact ⟨rfl, rfl, rfl⟩

theorem mem_evaluate_indexField {doc other : DocId} {state : Insertion} {f : AnalyzedField}
    {name t : String} :
    other ∈ (indexField doc state f).index.evaluate (.term name t) ↔
      other ∈ state.index.evaluate (.term name t) ∨
        name = f.field.name ∧ t ∈ f.terms ∧ other = doc := by
  unfold indexField AnalyzedField.terms
  cases f.field.value with
  | term term =>
      simp only [List.mem_singleton]
      exact mem_evaluate_addTerm
  | text text analyzer => exact mem_evaluate_addTokens f.tokens state.index
  | long n => exact (or_iff_left (by simp)).symm
  | double x => exact (or_iff_left (by simp)).symm
  | stored bytes => exact (or_iff_left (by simp)).symm

/-- The bytes that a field keeps, with their name. -/
def keptOf (field : Field) : List (String × Bytes) :=
  match field.value with
  | .stored bytes => if field.stored then [(field.name, bytes)] else []
  | _ => []

/-- The bytes that a document keeps. -/
def storedOf (index : InvertedIndex) (doc : DocId) : List (String × Bytes) :=
  (Table.find? index.stored doc).getD []

theorem storedOf_addStored (index : InvertedIndex) (name : String) (doc : DocId) (bytes : Bytes)
    (other : DocId) : (index.addStored name doc bytes).storedOf other
      = index.storedOf other ++ if other = doc then [(name, bytes)] else [] := by
  by_cases hsame : other = doc
  · subst hsame
    simp [storedOf, addStored]
  · simp [storedOf, addStored, Table.find?_alter_ne _ hsame, hsame]

/-- Keeping the bytes of a field comes before making it searchable, and touches no term. -/
theorem insertField_eq (doc : DocId) (state : Insertion) (f : AnalyzedField) :
    ∃ kept : Insertion, insertField doc state f
        = (if f.field.indexed then indexField doc kept f else kept) ∧
      kept.index.live = state.index.live ∧ kept.index.nextDoc = state.index.nextDoc ∧
      kept.index.terms = state.index.terms ∧ kept.index.numbers = state.index.numbers ∧
      kept.starts = state.starts ∧
      ∀ other, kept.index.storedOf other
        = state.index.storedOf other ++ if other = doc then keptOf f.field else [] := by
  refine ⟨_, rfl, ?_⟩
  unfold keptOf
  cases hvalue : f.field.value with
  | stored bytes =>
      by_cases hstored : f.field.stored = true
      · simp only [hstored, if_true]
        exact ⟨rfl, rfl, rfl, rfl, trivial, storedOf_addStored _ _ _ _⟩
      · simp [hstored]
  | term term => simp
  | text text analyzer => simp
  | long n => simp
  | double x => simp

theorem evaluate_term_congr {a b : InvertedIndex} (h : a.terms = b.terms) (field term : String) :
    a.evaluate (.term field term) = b.evaluate (.term field term) := by
  rw [evaluate_term, evaluate_term, postings?, postings?, h]

theorem mem_evaluate_insertField {doc other : DocId} {state : Insertion} {f : AnalyzedField}
    {name t : String} :
    other ∈ (insertField doc state f).index.evaluate (.term name t) ↔
      other ∈ state.index.evaluate (.term name t) ∨
        other = doc ∧ f.field.indexed = true ∧ f.field.name = name ∧ t ∈ f.terms := by
  obtain ⟨kept, hinsert, -, -, hterms, -⟩ := insertField_eq doc state f
  rw [hinsert]
  by_cases hindexed : f.field.indexed = true
  · rw [if_pos hindexed, mem_evaluate_indexField, evaluate_term_congr hterms]
    refine or_congr_right ⟨?_, ?_⟩
    · rintro ⟨hname, ht, ho⟩
      exact ⟨ho, hindexed, hname.symm, ht⟩
    · rintro ⟨ho, -, hname, ht⟩
      exact ⟨hname.symm, ht, ho⟩
  · rw [if_neg hindexed, evaluate_term_congr hterms]
    exact (or_iff_left fun h => hindexed h.2.1).symm

theorem insertField_frame (doc : DocId) (state : Insertion) (f : AnalyzedField) :
    (insertField doc state f).index.live = state.index.live ∧
      (insertField doc state f).index.nextDoc = state.index.nextDoc ∧
      ∀ other, (insertField doc state f).index.storedOf other
        = state.index.storedOf other ++ if other = doc then keptOf f.field else [] := by
  obtain ⟨kept, hinsert, hlive, hnext, -, -, -, hstored⟩ := insertField_eq doc state f
  rw [hinsert]
  by_cases hindexed : f.field.indexed = true
  · rw [if_pos hindexed]
    have hsame := sameDocuments_indexField doc kept f
    refine ⟨hsame.live.trans hlive, hsame.nextDoc.trans hnext, fun other => ?_⟩
    rw [← hstored, storedOf, storedOf, hsame.stored]
  · rw [if_neg hindexed]
    exact ⟨hlive, hnext, hstored⟩

/-! ### A document -/

theorem foldl_insertField_frame (doc : DocId) (fields : List AnalyzedField) :
    ∀ state : Insertion,
      (fields.foldl (insertField doc) state).index.live = state.index.live ∧
      (fields.foldl (insertField doc) state).index.nextDoc = state.index.nextDoc ∧
      ∀ other, (fields.foldl (insertField doc) state).index.storedOf other
        = state.index.storedOf other ++
          if other = doc then fields.flatMap fun f => keptOf f.field else [] := by
  induction fields with
  | nil => intro state; simp
  | cons f rest ih =>
      intro state
      obtain ⟨hlive, hnext, hstored⟩ := insertField_frame doc state f
      obtain ⟨hlive', hnext', hstored'⟩ := ih (insertField doc state f)
      refine ⟨hlive'.trans hlive, hnext'.trans hnext, fun other => ?_⟩
      rw [List.foldl_cons, hstored', hstored, List.append_assoc]
      by_cases hsame : other = doc <;> simp [hsame]

theorem mem_evaluate_foldl {doc other : DocId} {name t : String} (fields : List AnalyzedField) :
    ∀ state : Insertion,
      other ∈ (fields.foldl (insertField doc) state).index.evaluate (.term name t) ↔
        other ∈ state.index.evaluate (.term name t) ∨ other = doc ∧
          ∃ f ∈ fields, f.field.indexed = true ∧ f.field.name = name ∧ t ∈ f.terms := by
  induction fields with
  | nil => intro state; simp
  | cons f rest ih =>
      intro state
      rw [List.foldl_cons, ih, mem_evaluate_insertField, or_assoc]
      refine or_congr_right ?_
      simp only [← and_or_left, List.mem_cons, exists_eq_or_imp]

/-- The new document is the last live one, under the next number. -/
theorem live_insert {index : InvertedIndex} (h : ∀ doc ∈ index.live, doc < index.nextDoc)
    (fields : List AnalyzedField) :
    (index.insert fields).1.live = index.live ++ [index.nextDoc] := by
  have hframe := foldl_insertField_frame index.nextDoc fields
    ⟨{ index with nextDoc := index.nextDoc + 1 }, []⟩
  show insertSorted index.nextDoc _ = _
  rw [hframe.1]
  exact insertSorted_of_lt fun doc hdoc => Nat.compare_eq_lt.mpr (h doc hdoc)

theorem nextDoc_insert (index : InvertedIndex) (fields : List AnalyzedField) :
    (index.insert fields).1.nextDoc = index.nextDoc + 1 :=
  (foldl_insertField_frame index.nextDoc fields
    ⟨{ index with nextDoc := index.nextDoc + 1 }, []⟩).2.1

/-- The new document keeps the bytes of its stored fields. -/
theorem storedOf_insert (index : InvertedIndex) (fields : List AnalyzedField) (doc : DocId) :
    (index.insert fields).1.storedOf doc = index.storedOf doc ++
      if doc = index.nextDoc then fields.flatMap fun f => keptOf f.field else [] :=
  (foldl_insertField_frame index.nextDoc fields
    ⟨{ index with nextDoc := index.nextDoc + 1 }, []⟩).2.2 doc

/-- The new document joins those with each of its searched terms. -/
theorem mem_evaluate_insert {index : InvertedIndex} {fields : List AnalyzedField} {doc : DocId}
    {name t : String} :
    doc ∈ (index.insert fields).1.evaluate (.term name t) ↔
      doc ∈ index.evaluate (.term name t) ∨ doc = index.nextDoc ∧
        ∃ f ∈ fields, f.field.indexed = true ∧ f.field.name = name ∧ t ∈ f.terms :=
  mem_evaluate_foldl fields ⟨{ index with nextDoc := index.nextDoc + 1 }, []⟩

/-! ### Deleting -/

/-- Deleting takes the documents with a term out of the live ones, and nothing else. -/
theorem deleteTerm_eq (index : InvertedIndex) (field term : String) :
    (index.deleteTerm field term).1 = { index with
      live := index.live.filter fun doc =>
        !(index.evaluate (.term field term)).contains doc } := by
  rw [evaluate_term, deleteTerm]
  cases index.postings? field term with
  | none =>
      have hall : (index.live.filter fun doc => !([] : DocSet).contains doc) = index.live :=
        List.filter_eq_self.mpr fun _ _ => rfl
      simp only [Option.map_none, Option.getD_none, hall]
  | some list =>
      simp only [Option.map_some, Option.getD_some]
      congr 1
      refine List.filter_congr fun doc hdoc => ?_
      simp [DocSet.inter, hdoc]

/-- Deleting reports how many live documents have the term. -/
theorem deleteTerm_count (index : InvertedIndex) (field term : String) :
    (index.deleteTerm field term).2 = (index.live.filter fun doc =>
      (index.evaluate (.term field term)).contains doc).length := by
  rw [evaluate_term, deleteTerm]
  cases index.postings? field term with
  | none =>
      have hnone : (index.live.filter fun doc => ([] : DocSet).contains doc) = [] :=
        List.filter_eq_nil_iff.mpr fun _ _ => by simp
      simp only [Option.map_none, Option.getD_none, hnone, List.length_nil]
  | some list => rfl

end InvertedIndex

end DocIndex
