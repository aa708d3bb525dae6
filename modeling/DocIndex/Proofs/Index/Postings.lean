/-
What the index keeps of the documents that went into it.

To the index a document is where its terms stand in each field and which numbers each field
has (`Content`), and an index represents a list of contents if every posting list and every
list of numbers is the one that these contents make.  Recording an occurrence, a token after
another or a number changes the content of the last document and of no other, and so does all
that is done while a document goes in.

The content of a document is said without the index and without the table of starts that an
insertion carries along: the positions of a term in a field are read off the instances of that
field one after the other, each of which begins behind the one before it.
-/
import Mathlib.Tactic.Common
import DocIndex.Proofs.Index.Content

namespace DocIndex

/-! ### Posting lists -/

namespace PostingList

/-- The posting of a document that has a term at some positions, if there are any. -/
def posting? (doc : DocId) (positions : List Nat) : Option Posting :=
  if positions = [] then none else some ⟨doc, positions.length, positions⟩

/-- The postings of a term that has the given positions in the documents from 0 on. -/
def ofPositions (docs : List (List Nat)) : PostingList :=
  docs.zipIdx.filterMap fun entry => posting? entry.2 entry.1

theorem posting?_eq_some {doc : DocId} {positions : List Nat} {p : Posting} :
    posting? doc positions = some p ↔
      positions ≠ [] ∧ p = ⟨doc, positions.length, positions⟩ := by
  unfold posting?
  split <;> simp_all [eq_comm]

theorem mem_ofPositions {docs : List (List Nat)} {p : Posting} :
    p ∈ ofPositions docs ↔
      ∃ positions, docs[p.doc]? = some positions ∧ posting? p.doc positions = some p := by
  simp only [ofPositions, List.mem_filterMap, Prod.exists, List.mk_mem_zipIdx_iff_getElem?]
  constructor
  · rintro ⟨positions, doc, hdoc, hp⟩
    obtain ⟨-, rfl⟩ := posting?_eq_some.mp hp
    exact ⟨positions, hdoc, hp⟩
  · rintro ⟨positions, hdoc, hp⟩
    exact ⟨positions, p.doc, hdoc, hp⟩

theorem ofPositions_concat (docs : List (List Nat)) (positions : List Nat) :
    ofPositions (docs ++ [positions])
      = ofPositions docs ++ (posting? docs.length positions).toList := by
  simp only [ofPositions, List.zipIdx_append, List.filterMap_append, Nat.zero_add]
  cases h : posting? docs.length positions <;> simp [h]

theorem doc_lt_of_mem_ofPositions {docs : List (List Nat)} {p : Posting}
    (h : p ∈ ofPositions docs) : p.doc < docs.length := by
  obtain ⟨positions, hdoc, -⟩ := mem_ofPositions.mp h
  exact (List.getElem?_eq_some_iff.mp hdoc).1

theorem mem_docs_ofPositions {docs : List (List Nat)} {doc : DocId} :
    doc ∈ (ofPositions docs).docs ↔ ∃ positions, docs[doc]? = some positions ∧ positions ≠ [] := by
  rw [mem_docs, List.mem_map]
  constructor
  · rintro ⟨p, hp, rfl⟩
    obtain ⟨positions, hdoc, hp⟩ := mem_ofPositions.mp hp
    exact ⟨positions, hdoc, (posting?_eq_some.mp hp).1⟩
  · rintro ⟨positions, hdoc, hne⟩
    refine ⟨⟨doc, positions.length, positions⟩, mem_ofPositions.mpr ⟨positions, hdoc, ?_⟩, rfl⟩
    exact posting?_eq_some.mpr ⟨hne, rfl⟩

theorem get?_ofPositions (docs : List (List Nat)) (doc : DocId) :
    (ofPositions docs).get? doc = docs[doc]?.bind (posting? doc) := by
  have hfound : ∀ {p : Posting}, p ∈ ofPositions docs → p.doc = doc →
      docs[doc]?.bind (posting? doc) = some p := by
    rintro p hp rfl
    obtain ⟨positions, hdoc, hposting⟩ := mem_ofPositions.mp hp
    rw [hdoc, Option.bind_some, hposting]
  unfold get?
  cases hfind : (ofPositions docs).reverse.find? fun p => p.doc = doc with
  | some p =>
      have hmem := List.mem_reverse.mp (List.mem_of_find?_eq_some hfind)
      exact (hfound hmem (by simpa using List.find?_some hfind)).symm
  | none =>
      have hnone : ∀ p ∈ ofPositions docs, p.doc ≠ doc := by simpa using hfind
      refine (Option.eq_none_iff_forall_ne_some.mpr fun p hp => ?_).symm
      obtain ⟨positions, hdoc, hposting⟩ := Option.bind_eq_some_iff.mp hp
      obtain ⟨hne, rfl⟩ := posting?_eq_some.mp hposting
      exact hnone ⟨doc, positions.length, positions⟩
        (mem_ofPositions.mpr ⟨positions, hdoc, posting?_eq_some.mpr ⟨hne, rfl⟩⟩) rfl

theorem addPosting_of_lt {list : PostingList} {doc : DocId} (position : Nat)
    (h : ∀ p ∈ list, p.doc < doc) :
    addPosting doc position list = list ++ [⟨doc, 1, [position]⟩] := by
  induction list with
  | nil => rfl
  | cons first rest ih =>
      obtain ⟨hfirst, hrest⟩ := List.forall_mem_cons.mp h
      rw [addPosting, if_pos hfirst, ih hrest, List.cons_append]

theorem record_of_lt {list : PostingList} {doc : DocId} (position : Nat)
    (h : ∀ p ∈ list, p.doc < doc) : list.record doc position = list ++ [⟨doc, 1, [position]⟩] := by
  unfold record
  cases hlast : list.getLast? with
  | none => exact addPosting_of_lt position h
  | some last =>
      have hne : last.doc ≠ doc := Nat.ne_of_lt (h last (List.mem_of_getLast? hlast))
      simp only [hne, if_false]
      exact addPosting_of_lt position h

/-- An occurrence in the last document is the last of its positions. -/
theorem record_ofPositions (docs : List (List Nat)) (positions : List Nat) (position : Nat) :
    (ofPositions (docs ++ [positions])).record docs.length position
      = ofPositions (docs ++ [positions ++ [position]]) := by
  have hnew : posting? docs.length (positions ++ [position])
      = some ⟨docs.length, positions.length + 1, positions ++ [position]⟩ :=
    posting?_eq_some.mpr ⟨by simp, by simp⟩
  rw [ofPositions_concat, ofPositions_concat, hnew]
  by_cases hnone : positions = []
  · have hbelow : ∀ p ∈ ofPositions docs, p.doc < docs.length :=
      fun p hp => doc_lt_of_mem_ofPositions hp
    have hposting : posting? docs.length positions = none := if_pos hnone
    rw [hposting, Option.toList_none, List.append_nil, record_of_lt position hbelow, hnone]
    rfl
  · have hposting : posting? docs.length positions
        = some ⟨docs.length, positions.length, positions⟩ := if_neg hnone
    simp [hposting, record]

end PostingList

namespace InvertedIndex

/-! ### The content of documents -/

/-- What a document is to the index. -/
@[ext]
structure Content where
  /-- Where a term of a field stands. -/
  positions : String → String → List Nat
  /-- The numbers of a field. -/
  numbers : String → List Numeric

namespace Content

/-- Nothing. -/
def empty : Content := ⟨fun _ _ => [], fun _ => []⟩

/-- Further terms of a field with their positions. -/
def addTerms (content : Content) (field : String) (terms : List (String × Nat)) : Content where
  positions name term := content.positions name term ++
    if name = field then (terms.filter fun entry => entry.1 == term).map Prod.snd else []
  numbers := content.numbers

/-- A further number of a field. -/
def addNumber (content : Content) (field : String) (n : Numeric) : Content where
  positions := content.positions
  numbers name := content.numbers name ++ if name = field then [n] else []

theorem addTerms_nil (content : Content) (field : String) :
    content.addTerms field [] = content := by
  simp [addTerms]

theorem addTerms_cons (content : Content) (field : String) (first : String × Nat)
    (rest : List (String × Nat)) : content.addTerms field (first :: rest)
      = (content.addTerms field [first]).addTerms field rest := by
  unfold addTerms
  congr 1
  funext name term
  by_cases hname : name = field <;> by_cases hterm : first.1 == term <;> simp [hname, hterm]

end Content

/-- The index holds the terms and numbers of the documents from 0 on, and of no others. -/
structure Represents (index : InvertedIndex) (docs : List Content) : Prop where
  nextDoc : index.nextDoc = docs.length
  termsSorted : ∀ field, Table.Sorted (index.termsOf field)
  postings : ∀ field term, (index.postings? field term).getD []
    = PostingList.ofPositions (docs.map fun content => content.positions field term)
  numbersSorted : ∀ field, Table.Sorted (index.numbersOf field)
  numbers : ∀ field doc, (Table.find? (index.numbersOf field) doc).getD []
    = (docs[doc]?.map fun content => content.numbers field).getD []

theorem postings?_eq (index : InvertedIndex) (field term : String) :
    index.postings? field term = Table.find? (index.termsOf field) term := by
  unfold postings? termsOf
  cases Table.find? index.terms field <;> rfl

/-- Nothing but terms, numbers and the next number matters. -/
theorem Represents.congr {index other : InvertedIndex} {docs : List Content}
    (h : index.Represents docs) (hterms : other.terms = index.terms)
    (hnumbers : other.numbers = index.numbers) (hnext : other.nextDoc = index.nextDoc) :
    other.Represents docs := by
  obtain ⟨nextDoc, termsSorted, postings, numbersSorted, numbers⟩ := h
  refine ⟨hnext.trans nextDoc, ?_, ?_, ?_, ?_⟩
  · simpa only [termsOf, hterms] using termsSorted
  · simpa only [postings?, hterms] using postings
  · simpa only [numbersOf, hnumbers] using numbersSorted
  · simpa only [numbersOf, hnumbers] using numbers

theorem represents_empty : empty.Represents [] where
  nextDoc := rfl
  termsSorted _ := Table.sorted_nil
  postings _ _ := rfl
  numbersSorted _ := Table.sorted_nil
  numbers _ _ := rfl

theorem getElem?_concat {α : Type} (list : List α) (last : α) (i : Nat) :
    (list ++ [last])[i]? = if i = list.length then some last else list[i]? := by
  by_cases hi : i = list.length
  · rw [if_pos hi, hi, List.getElem?_concat_length]
  · rw [if_neg hi]
    rcases Nat.lt_or_gt_of_ne hi with hlt | hgt
    · exact List.getElem?_append_left hlt
    · rw [List.getElem?_eq_none (by simp; omega), List.getElem?_eq_none (by omega)]

/-- A document under the next number of which nothing is known yet. -/
theorem Represents.next {index : InvertedIndex} {docs : List Content} (h : index.Represents docs) :
    Represents { index with nextDoc := index.nextDoc + 1 } (docs ++ [Content.empty]) where
  nextDoc := by simp [h.nextDoc]
  termsSorted := h.termsSorted
  postings field term := by
    have hnone := PostingList.ofPositions_concat (docs.map fun content =>
      content.positions field term) []
    rw [PostingList.posting?, if_pos rfl, Option.toList_none, List.append_nil] at hnone
    rw [List.map_append, List.map_singleton]
    exact (h.postings field term).trans hnone.symm
  numbersSorted := h.numbersSorted
  numbers field doc := by
    have hold := h.numbers field doc
    rw [getElem?_concat]
    by_cases hdoc : doc = docs.length
    · rw [hdoc, List.getElem?_eq_none (Nat.le_refl _)] at hold
      rw [if_pos hdoc, hdoc]
      exact hold
    · rw [if_neg hdoc]
      exact hold

/-! ### Recording terms and numbers -/

section Recording

variable {index : InvertedIndex} {docs : List Content} {content : Content} {field : String}

theorem termsOf_addTerm (index : InvertedIndex) (field term : String) (doc : DocId)
    (position : Nat) (name : String) :
    (index.addTerm field term doc position).termsOf name
      = if name = field then
          Table.alter (index.termsOf field) term fun list =>
            (list.getD []).record doc position
        else index.termsOf name := by
  unfold addTerm termsOf
  by_cases hname : name = field
  · subst hname
    rw [if_pos rfl, Table.find?_alter_self, Option.getD_some]
  · rw [if_neg hname, Table.find?_alter_ne _ hname]

theorem numbersOf_addNumber (index : InvertedIndex) (field : String) (doc : DocId) (n : Numeric)
    (name : String) : (index.addNumber field doc n).numbersOf name
      = if name = field then
          Table.alter (index.numbersOf field) doc fun values => values.getD [] ++ [n]
        else index.numbersOf name := by
  unfold addNumber numbersOf
  by_cases hname : name = field
  · subst hname
    rw [if_pos rfl, Table.find?_alter_self, Option.getD_some]
  · rw [if_neg hname, Table.find?_alter_ne _ hname]

/-- An occurrence of a term adds it to the content of the last document. -/
theorem Represents.addTerm (h : index.Represents (docs ++ [content])) (term : String)
    (position : Nat) : (index.addTerm field term docs.length position).Represents
      (docs ++ [content.addTerms field [(term, position)]]) where
  nextDoc := h.nextDoc.trans (by simp)
  termsSorted name := by
    rw [termsOf_addTerm]
    split
    · exact Table.sorted_alter (h.termsSorted field) _ _
    · exact h.termsSorted name
  postings name t := by
    have hold := h.postings name t
    rw [List.map_append, List.map_singleton] at hold ⊢
    rw [postings?_addTerm]
    by_cases hsame : name = field ∧ t = term
    · obtain ⟨rfl, rfl⟩ := hsame
      have hrecord := PostingList.record_ofPositions
        (docs.map fun content => content.positions name t) (content.positions name t) position
      rw [if_pos ⟨rfl, rfl⟩, Option.getD_some, hold]
      simpa [Content.addTerms] using hrecord
    · rw [if_neg hsame, hold]
      have hcontent : (content.addTerms field [(term, position)]).positions name t
          = content.positions name t := by
        by_cases hname : name = field
        · have hterm : ¬ term = t := fun ht => hsame ⟨hname, ht.symm⟩
          simp [Content.addTerms, hterm]
        · simp [Content.addTerms, hname]
      rw [hcontent]
  numbersSorted := h.numbersSorted
  numbers name doc := by
    have hold := h.numbers name doc
    rw [getElem?_concat] at hold ⊢
    exact hold.trans (by split <;> rfl)

/-- A number is added to the content of the last document. -/
theorem Represents.addNumber (h : index.Represents (docs ++ [content])) (n : Numeric) :
    (index.addNumber field docs.length n).Represents (docs ++ [content.addNumber field n]) where
  nextDoc := h.nextDoc.trans (by simp)
  termsSorted := h.termsSorted
  postings name t := by
    have hold := h.postings name t
    rw [List.map_append, List.map_singleton] at hold ⊢
    exact hold
  numbersSorted name := by
    rw [numbersOf_addNumber]
    split
    · exact Table.sorted_alter (h.numbersSorted field) _ _
    · exact h.numbersSorted name
  numbers name doc := by
    have hold := h.numbers name doc
    rw [getElem?_concat] at hold ⊢
    rw [numbersOf_addNumber]
    by_cases hname : name = field
    · subst hname
      rw [if_pos rfl]
      by_cases hdoc : doc = docs.length
      · subst hdoc
        simp only [if_true, Option.map_some, Option.getD_some] at hold ⊢
        simp [Content.addNumber, hold]
      · rw [Table.find?_alter_ne _ hdoc, hold, if_neg hdoc, if_neg hdoc]
    · rw [if_neg hname, hold]
      split <;> simp [Content.addNumber, hname]

/-- The tokens of a text are terms of the last document, in their order. -/
theorem Represents.addTokens (base : Nat) (tokens : List Analysis.Token) :
    ∀ {index : InvertedIndex} {content : Content}, index.Represents (docs ++ [content]) →
      (index.addTokens field docs.length base tokens).1.Represents
        (docs ++ [content.addTerms field (tokens.map fun t => (t.text, base + t.position))]) := by
  suffices hfold : ∀ (tokens : List Analysis.Token) (state : InvertedIndex × Nat)
      (content : Content), state.1.Represents (docs ++ [content]) →
      (tokens.foldl (addToken field docs.length base) state).1.Represents
        (docs ++ [content.addTerms field (tokens.map fun t => (t.text, base + t.position))]) from
    fun {index content} h => hfold tokens (index, base) content h
  intro tokens
  induction tokens with
  | nil =>
      intro state content h
      rw [List.map_nil, Content.addTerms_nil]
      exact h
  | cons token rest ih =>
      intro state content h
      rw [List.foldl_cons, List.map_cons, Content.addTerms_cons]
      exact ih _ _ (h.addTerm token.text (base + token.position))

theorem addTokens_snd (index : InvertedIndex) (field : String) (doc : DocId) (base : Nat)
    (tokens : List Analysis.Token) : (index.addTokens field doc base tokens).2
      = base + (tokens.getLast?.map Analysis.Token.position).getD 0 := by
  suffices hfold : ∀ (tokens : List Analysis.Token) (state : InvertedIndex × Nat),
      (tokens.foldl (addToken field doc base) state).2
        = (tokens.getLast?.map fun t => base + t.position).getD state.2 by
    have htokens := hfold tokens (index, base)
    rw [addTokens_eq]
    cases hlast : tokens.getLast? <;> simpa [hlast] using htokens
  intro tokens
  induction tokens with
  | nil => intro state; rfl
  | cons token rest ih =>
      intro state
      rw [List.foldl_cons, ih, List.getLast?_cons]
      cases rest.getLast? <;> rfl

end Recording

/-! ### What a document is to the index -/

namespace AnalyzedField

/-- The terms that a field is found by, with their positions in it. -/
def placedTerms (f : AnalyzedField) : List (String × Nat) :=
  match f.field.value with
  | .term term => [(term, 0)]
  | .text _ _ => f.tokens.map fun t => (t.text, t.position)
  | _ => []

/-- The position of the last term in a field. -/
def lastPosition (f : AnalyzedField) : Nat := (f.placedTerms.getLast?.map Prod.snd).getD 0

/-- Whether a field is searched for terms under a name. -/
def hasTermsOf (name : String) (f : AnalyzedField) : Bool :=
  f.field.indexed && name == f.field.name && f.field.value.kind.isLexical

/-- The number that a field is searched for under a name. -/
def number? (name : String) (f : AnalyzedField) : Option Numeric :=
  if f.field.indexed && name == f.field.name then
    match f.field.value with
    | .long n => some (.long n)
    | .double x => some (.double x)
    | _ => none
  else none

end AnalyzedField

/-- The position at which the next instance of a field begins, after further fields. -/
def startAfter (name : String) (start : Nat) : List AnalyzedField → Nat
  | [] => start
  | f :: rest =>
    if f.hasTermsOf name then startAfter name (start + f.lastPosition + 1 + positionGap) rest
    else startAfter name start rest

/-- Where a term stands in the instances of a field, the first of which begins at `start`. -/
def positionsFrom (name term : String) (start : Nat) : List AnalyzedField → List Nat
  | [] => []
  | f :: rest =>
    if f.hasTermsOf name then
      ((f.placedTerms.filter fun entry => entry.1 == term).map fun entry => start + entry.2) ++
        positionsFrom name term (start + f.lastPosition + 1 + positionGap) rest
    else positionsFrom name term start rest

/-- What the fields of a document are to the index. -/
def contentOf (fields : List AnalyzedField) : Content where
  positions name term := positionsFrom name term 0 fields
  numbers name := fields.filterMap (AnalyzedField.number? name)

theorem startAfter_append (name : String) (before after : List AnalyzedField) (start : Nat) :
    startAfter name start (before ++ after)
      = startAfter name (startAfter name start before) after := by
  induction before generalizing start with
  | nil => rfl
  | cons f rest ih =>
      rw [List.cons_append, startAfter, startAfter]
      split <;> exact ih _

theorem positionsFrom_append (name term : String) (before after : List AnalyzedField)
    (start : Nat) : positionsFrom name term start (before ++ after)
      = positionsFrom name term start before ++
          positionsFrom name term (startAfter name start before) after := by
  induction before generalizing start with
  | nil => rfl
  | cons f rest ih =>
      rw [List.cons_append, positionsFrom, positionsFrom, startAfter]
      split
      · rw [ih, List.append_assoc]
      · exact ih _

theorem startAfter_concat (name : String) (fields : List AnalyzedField) (f : AnalyzedField) :
    startAfter name 0 (fields ++ [f]) = if f.hasTermsOf name then
      startAfter name 0 fields + f.lastPosition + 1 + positionGap
    else startAfter name 0 fields := by
  rw [startAfter_append]
  rfl

theorem positionsFrom_concat (name term : String) (fields : List AnalyzedField)
    (f : AnalyzedField) : positionsFrom name term 0 (fields ++ [f])
      = positionsFrom name term 0 fields ++ if f.hasTermsOf name then
          (f.placedTerms.filter fun entry => entry.1 == term).map fun entry =>
            startAfter name 0 fields + entry.2
        else [] := by
  rw [positionsFrom_append]
  simp only [positionsFrom, List.append_nil]

theorem numbers_concat (name : String) (fields : List AnalyzedField) (f : AnalyzedField) :
    (contentOf (fields ++ [f])).numbers name
      = (contentOf fields).numbers name ++ (f.number? name).toList := by
  simp only [contentOf, List.filterMap_append]
  cases h : f.number? name <;> simp [h]

/-- The content of a document with a further field that is searched for terms. -/
theorem contentOf_terms {f : AnalyzedField} (hindexed : f.field.indexed = true)
    (hlexical : f.field.value.kind.isLexical = true) (fields : List AnalyzedField) :
    contentOf (fields ++ [f]) = (contentOf fields).addTerms f.field.name
      (f.placedTerms.map fun entry => (entry.1, startAfter f.field.name 0 fields + entry.2)) := by
  ext1
  · funext name term
    have hterms : f.hasTermsOf name = (name == f.field.name) := by
      simp [AnalyzedField.hasTermsOf, hindexed, hlexical]
    show positionsFrom name term 0 (fields ++ [f]) = _
    rw [positionsFrom_concat, hterms]
    by_cases hname : name = f.field.name
    · subst hname
      simp [Content.addTerms, contentOf, List.filter_map, Function.comp_def]
    · have hother : (name == f.field.name) = false := by simpa using hname
      simp [Content.addTerms, contentOf, hname, hother]
  · funext name
    have hnone : f.number? name = none := by
      unfold AnalyzedField.number?
      cases hvalue : f.field.value <;> simp_all [FieldValue.kind, FieldKind.isLexical]
    rw [numbers_concat, hnone, Option.toList_none, List.append_nil]
    rfl

/-- The content of a document with a further field that is not searched for terms. -/
theorem contentOf_other {f : AnalyzedField} (h : ∀ name, f.hasTermsOf name = false)
    (fields : List AnalyzedField) : contentOf (fields ++ [f]) =
      ⟨(contentOf fields).positions,
        fun name => (contentOf fields).numbers name ++ (f.number? name).toList⟩ := by
  ext1
  · funext name term
    show positionsFrom name term 0 (fields ++ [f]) = _
    rw [positionsFrom_concat, h]
    exact List.append_nil _
  · funext name
    exact numbers_concat name fields f

/-- A document that goes in has the content of the fields that are done. -/
structure Filling (docs : List Content) (fields : List AnalyzedField) (state : Insertion) :
    Prop where
  represents : state.index.Represents (docs ++ [contentOf fields])
  starts : ∀ name, (Table.find? state.starts name).getD 0 = startAfter name 0 fields

section Filling

variable {docs : List Content} {fields : List AnalyzedField} {state : Insertion}
  {f : AnalyzedField}

/-- A field that is searched for terms comes at the start that is known for its name. -/
theorem Filling.terms (h : Filling docs fields state) (hindexed : f.field.indexed = true)
    (hlexical : f.field.value.kind.isLexical = true) {index : InvertedIndex}
    (hindex : index.Represents (docs ++ [(contentOf fields).addTerms f.field.name
      (f.placedTerms.map fun entry => (entry.1, startAfter f.field.name 0 fields + entry.2))]))
    (value : SortValue) :
    Filling docs (fields ++ [f]) ⟨index.addSortValue f.field.name docs.length value,
      Table.insert state.starts f.field.name
        (startAfter f.field.name 0 fields + f.lastPosition + 1 + positionGap)⟩ := by
  refine ⟨?_, fun name => ?_⟩
  · rw [contentOf_terms hindexed hlexical]
    exact hindex.congr rfl rfl rfl
  · have hterms : f.hasTermsOf name = (name == f.field.name) := by
      simp [AnalyzedField.hasTermsOf, hindexed, hlexical]
    rw [startAfter_concat, hterms]
    by_cases hname : name = f.field.name
    · subst hname
      simp
    · have hother : (name == f.field.name) = false := by simpa using hname
      rw [Table.find?_insert_ne _ hname, hother]
      exact h.starts name

theorem Filling.not_terms (h : Filling docs fields state)
    (hterms : ∀ name, f.hasTermsOf name = false) :
    ∀ name, (Table.find? state.starts name).getD 0 = startAfter name 0 (fields ++ [f]) := by
  intro name
  rw [startAfter_concat, hterms]
  exact h.starts name

/-- A field that is searched for a number. -/
theorem Filling.number (h : Filling docs fields state)
    (hterms : ∀ name, f.hasTermsOf name = false) {n : Numeric}
    (hnumber : ∀ name, f.number? name = if name = f.field.name then some n else none)
    (value : SortValue) :
    Filling docs (fields ++ [f]) { state with
      index := (state.index.addNumber f.field.name docs.length n).addSortValue f.field.name
        docs.length value } := by
  refine ⟨?_, h.not_terms hterms⟩
  have hcontent : contentOf (fields ++ [f]) = (contentOf fields).addNumber f.field.name n := by
    rw [contentOf_other hterms]
    refine congrArg (Content.mk _) (funext fun name => ?_)
    rw [hnumber]
    split <;> rfl
  rw [hcontent]
  exact (h.represents.addNumber n).congr rfl rfl rfl

/-- A field that is not searched at all. -/
theorem Filling.silent (h : Filling docs fields state)
    (hterms : ∀ name, f.hasTermsOf name = false) (hnumber : ∀ name, f.number? name = none) :
    Filling docs (fields ++ [f]) state := by
  refine ⟨?_, h.not_terms hterms⟩
  have hcontent : contentOf (fields ++ [f]) = contentOf fields := by
    rw [contentOf_other hterms]
    simp only [hnumber, Option.toList_none, List.append_nil]
  rw [hcontent]
  exact h.represents

theorem Filling.indexField (h : Filling docs fields state) (hindexed : f.field.indexed = true) :
    Filling docs (fields ++ [f]) (indexField docs.length state f) := by
  have hbase := h.starts f.field.name
  unfold InvertedIndex.indexField
  cases hvalue : f.field.value with
  | term term =>
      have hlexical : f.field.value.kind.isLexical = true := by rw [hvalue]; rfl
      have hplaced : f.placedTerms = [(term, 0)] := by simp [AnalyzedField.placedTerms, hvalue]
      have hlast : f.lastPosition = 0 := by simp [AnalyzedField.lastPosition, hplaced]
      have hindex := @Represents.addTerm _ _ _ f.field.name h.represents term
        (startAfter f.field.name 0 fields)
      have hfilled := h.terms hindexed hlexical (by rw [hplaced]; exact hindex) (.text term)
      simp only [hlast, Nat.add_zero] at hfilled
      simpa only [hbase] using hfilled
  | text text analyzer =>
      have hlexical : f.field.value.kind.isLexical = true := by rw [hvalue]; rfl
      have hplaced : f.placedTerms = f.tokens.map fun t => (t.text, t.position) := by
        simp [AnalyzedField.placedTerms, hvalue]
      have hlast : f.lastPosition = (f.tokens.getLast?.map Analysis.Token.position).getD 0 := by
        simp [AnalyzedField.lastPosition, hplaced, List.getLast?_map, Function.comp_def]
      have hindex := @Represents.addTokens _ f.field.name (startAfter f.field.name 0 fields)
        f.tokens _ _ h.represents
      have hfilled := h.terms hindexed hlexical
        (by rw [hplaced, List.map_map]; exact hindex) (.text (Text.lowercase text))
      have hend := addTokens_snd state.index f.field.name docs.length
        (startAfter f.field.name 0 fields) f.tokens
      rw [hlast, ← hend] at hfilled
      simpa only [hbase] using hfilled
  | long n =>
      have hterms : ∀ name, f.hasTermsOf name = false := by
        simp [AnalyzedField.hasTermsOf, hvalue, FieldValue.kind, FieldKind.isLexical]
      refine h.number hterms (fun name => ?_) _
      simp [AnalyzedField.number?, hindexed, hvalue]
  | double x =>
      have hterms : ∀ name, f.hasTermsOf name = false := by
        simp [AnalyzedField.hasTermsOf, hvalue, FieldValue.kind, FieldKind.isLexical]
      refine h.number hterms (fun name => ?_) _
      simp [AnalyzedField.number?, hindexed, hvalue]
  | stored bytes =>
      refine h.silent ?_ ?_
      · simp [AnalyzedField.hasTermsOf, hvalue, FieldValue.kind, FieldKind.isLexical]
      · simp [AnalyzedField.number?, hvalue]

theorem Filling.insertField (h : Filling docs fields state) (f : AnalyzedField) :
    Filling docs (fields ++ [f]) (insertField docs.length state f) := by
  obtain ⟨kept, hinsert, -, hnext, hterms, hnumbers, hstarts, -⟩ :=
    insertField_eq docs.length state f
  have hkept : Filling docs fields kept :=
    ⟨h.represents.congr hterms hnumbers hnext, by rw [hstarts]; exact h.starts⟩
  rw [hinsert]
  by_cases hindexed : f.field.indexed = true
  · rw [if_pos hindexed]
    exact hkept.indexField hindexed
  · rw [if_neg hindexed]
    refine hkept.silent ?_ ?_
    · simp [AnalyzedField.hasTermsOf, hindexed]
    · simp [AnalyzedField.number?, hindexed]

end Filling

/-- Putting a document in adds its content. -/
theorem Represents.insert {index : InvertedIndex} {docs : List Content}
    (h : index.Represents docs) (fields : List AnalyzedField) :
    (index.insert fields).1.Represents (docs ++ [contentOf fields]) := by
  have hfold : ∀ (rest done : List AnalyzedField) (state : Insertion), Filling docs done state →
      Filling docs (done ++ rest) (rest.foldl (insertField docs.length) state) := by
    intro rest
    induction rest with
    | nil =>
        intro done state hfilling
        rw [List.append_nil]
        exact hfilling
    | cons f rest ih =>
        intro done state hfilling
        have hmove : done ++ f :: rest = done ++ [f] ++ rest := by simp
        rw [hmove, List.foldl_cons]
        exact ih _ _ (hfilling.insertField f)
  have hstart : Filling docs [] ⟨{ index with nextDoc := index.nextDoc + 1 }, []⟩ :=
    ⟨h.next, fun _ => rfl⟩
  have hfilled := (hfold fields [] _ hstart).represents
  rw [← h.nextDoc] at hfilled
  exact hfilled.congr rfl rfl rfl

/-- Deleting takes nothing out of the postings. -/
theorem Represents.deleteTerm {index : InvertedIndex} {docs : List Content}
    (h : index.Represents docs) (field term : String) :
    (index.deleteTerm field term).1.Represents docs := by
  rw [deleteTerm_eq]
  exact h.congr rfl rfl rfl

end InvertedIndex

end DocIndex
