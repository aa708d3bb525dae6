/-
An index as a plain list of its live documents.

`Lists` ties the live documents, one by one and in their order, to entries of an identity and
the bytes that were kept as the source.  What makes it inductive is that it says of every live
document which terms of the identity field it has: exactly its own identity.  Then deleting a
term takes out the entries with that identity and no others, however many documents share it
and whatever was deleted before, because deleted documents keep their postings but are no
longer live.  The bounds by the next number keep a new document from inheriting anything.
-/
import Mathlib.Data.List.Forall2
import DocIndex.Index.Change
import DocIndex.Proofs.Document.Fields
import DocIndex.Proofs.Storage.Segment

namespace DocIndex

/-- The identity of a document and what is kept as its source. -/
abbrev Entry := String × Bytes

theorem forall₂_filter {α β : Type} {R : α → β → Prop} {p : α → Bool} {q : β → Bool}
    {xs : List α} {ys : List β} (h : List.Forall₂ R xs ys) (hsame : ∀ x y, R x y → p x = q y) :
    List.Forall₂ R (xs.filter p) (ys.filter q) := by
  induction h with
  | nil => exact .nil
  | @cons x y _ _ hxy _ ih =>
      by_cases hkeep : q y = true
      · rw [List.filter_cons_of_pos (hsame x y hxy ▸ hkeep), List.filter_cons_of_pos hkeep]
        exact .cons hxy ih
      · rw [List.filter_cons_of_neg (hsame x y hxy ▸ hkeep), List.filter_cons_of_neg hkeep]
        exact ih

namespace InvertedIndex

/-- The live documents are the entries, in order. -/
structure Lists (config : Config) (index : InvertedIndex) (entries : List Entry) : Prop where
  below : ∀ doc ∈ index.live, doc < index.nextDoc
  /-- Numbers that were not given yet have no terms and keep nothing. -/
  termless : ∀ field term, ∀ doc ∈ index.evaluate (.term field term), doc < index.nextDoc
  sourceless : ∀ doc, index.nextDoc ≤ doc → index.storedOf doc = []
  entries : List.Forall₂ (fun doc entry =>
    index.storedOf doc = [(config.sourceField, entry.2)] ∧
      ∀ term, doc ∈ index.evaluate (.term config.identityField term) ↔ term = entry.1)
    index.live entries

namespace Lists

variable {config : Config} {index : InvertedIndex} {entries : List Entry}

theorem empty : InvertedIndex.empty.Lists config [] :=
  ⟨by simp [InvertedIndex.empty], by simp [evaluate_term, postings?, InvertedIndex.empty],
    fun _ _ => rfl, .nil⟩

theorem size_eq (h : index.Lists config entries) : index.size = entries.length :=
  h.entries.length_eq

/-- The first bytes that a document keeps under a name are looked up among all that it keeps. -/
theorem stored?_eq (index : InvertedIndex) (doc : DocId) (name : String) :
    index.stored? doc name
      = ((index.storedOf doc).find? fun entry => entry.1 == name).map Prod.snd := by
  rw [stored?, storedOf]
  cases Table.find? index.stored doc <;> rfl

/-- Every live document keeps the source of its entry. -/
theorem sources (h : index.Lists config entries) :
    List.Forall₂ (fun doc entry => index.stored? doc config.sourceField = some entry.2)
      index.live entries := by
  refine h.entries.imp fun doc entry hentry => ?_
  rw [stored?_eq, hentry.1]
  simp

end Lists

end InvertedIndex

/-! ### Documents as they are analysed -/

namespace InvertedIndex

variable {analyzers : Analyzers}

theorem field_of_analyzeField {field : Field} {analyzed : AnalyzedField}
    (h : analyzeField analyzers field = .ok analyzed) : analyzed.field = field := by
  unfold analyzeField at h
  split at h
  · split at h
    · split at h
      · exact Except.ok.inj h ▸ rfl
      · simp at h
    · exact Except.ok.inj h ▸ rfl
  · exact Except.ok.inj h ▸ rfl

/-- Analysing a document keeps its fields. -/
theorem map_field_of_analyze {document : Document} {fields : List AnalyzedField}
    (h : analyze analyzers document = .ok fields) :
    fields.map AnalyzedField.field = document := by
  have hall := mapM_eq_ok.mp h
  induction hall with
  | nil => rfl
  | cons hfirst hrest ih =>
      rw [List.map_cons, field_of_analyzeField hfirst, ih (mapM_eq_ok.mpr hrest)]

/-- A document that can be analysed can be analysed as it is kept. -/
theorem analyze_narrowed {document : Document}
    (h : ∃ fields, analyze analyzers document = .ok fields) :
    ∃ fields, analyze analyzers (document.map Field.narrowed) = .ok fields := by
  refine analyze_ok.mpr fun field hfield => ?_
  obtain ⟨original, horiginal, rfl⟩ := List.mem_map.mp hfield
  obtain ⟨analyzed, hanalyzed⟩ := analyze_ok.mp h original horiginal
  obtain ⟨name, value, stored, indexed⟩ := original
  cases value with
  | long n => exact ⟨_, rfl⟩
  | text text analyzer => exact ⟨analyzed, hanalyzed⟩
  | term value => exact ⟨_, rfl⟩
  | double x => exact ⟨_, rfl⟩
  | stored bytes => exact ⟨_, rfl⟩

/-! ### A document goes in -/

/-- The fields of a document give a new document the term of its identity and no other. -/
theorem terms_of_carries {config : Config} {document : Document} {fields : List AnalyzedField}
    {id : String} {source : Bytes} (hcarries : document.Carries config id source)
    (h : analyze analyzers document = .ok fields) (term : String) :
    (∃ f ∈ fields, f.field.indexed = true ∧ f.field.name = config.identityField ∧
      term ∈ f.terms) ↔ term = id := by
  have hmap := map_field_of_analyze h
  have hsearched : ∀ field ∈ document, field.indexed = true → field.name = config.identityField →
      field = .term config.identityField id := by
    intro field hfield hindexed hname
    have hmem : field ∈ document.filter (DocumentBuilder.searchedAs config.identityField) :=
      List.mem_filter.mpr ⟨hfield, by simp [DocumentBuilder.searchedAs, hindexed, hname]⟩
    rw [hcarries.identity] at hmem
    exact List.mem_singleton.mp hmem
  constructor
  · rintro ⟨f, hf, hindexed, hname, hterm⟩
    have hfield := hsearched f.field (hmap ▸ List.mem_map_of_mem hf) hindexed hname
    rw [AnalyzedField.terms, hfield] at hterm
    exact List.mem_singleton.mp hterm
  · rintro rfl
    have hmem : Field.term config.identityField term ∈
        document.filter (DocumentBuilder.searchedAs config.identityField) := by
      rw [hcarries.identity]
      exact List.mem_cons_self
    obtain ⟨f, hf, hfield⟩ := List.mem_map.mp (hmap ▸ (List.mem_filter.mp hmem).1)
    refine ⟨f, hf, by rw [hfield]; rfl, by rw [hfield]; rfl, ?_⟩
    rw [AnalyzedField.terms, hfield]
    exact List.mem_cons_self

namespace Lists

variable {config : Config} {index : InvertedIndex} {entries : List Entry}

/-- **A document that goes in is the last entry.** -/
theorem insert (h : index.Lists config entries) {document : Document}
    {fields : List AnalyzedField} {id : String} {source : Bytes}
    (hcarries : document.Carries config id source)
    (hfields : analyze analyzers document = .ok fields) :
    (index.insert fields).1.Lists config (entries ++ [(id, source)]) := by
  have hlive := live_insert h.below fields
  have hnext := nextDoc_insert index fields
  have hkept : (fields.flatMap fun f => keptOf f.field) = [(config.sourceField, source)] := by
    rw [← List.flatMap_map, map_field_of_analyze hfields, hcarries.kept]
  refine ⟨?_, ?_, ?_, ?_⟩
  · intro doc hdoc
    rw [hlive] at hdoc
    rw [hnext]
    rcases List.mem_append.mp hdoc with hold | hnew
    · exact Nat.lt_succ_of_lt (h.below doc hold)
    · rw [List.mem_singleton.mp hnew]
      exact Nat.lt_succ_self _
  · intro field term doc hdoc
    rw [hnext]
    rcases mem_evaluate_insert.mp hdoc with hold | ⟨rfl, -⟩
    · exact Nat.lt_succ_of_lt (h.termless field term doc hold)
    · exact Nat.lt_succ_self _
  · intro doc hdoc
    rw [hnext] at hdoc
    rw [storedOf_insert, h.sourceless doc (Nat.le_of_succ_le hdoc), if_neg (Nat.ne_of_gt hdoc),
      List.append_nil]
  · rw [hlive]
    refine List.rel_append ?_ (.cons ⟨?_, fun term => ?_⟩ .nil)
    · -- What a listed document has is not touched, since its number is not the new one.
      refine ((List.forall₂_and_left _ _).mpr ⟨h.below, h.entries⟩).imp ?_
      intro doc entry ⟨hlt, hentry⟩
      have hne : doc ≠ index.nextDoc := Nat.ne_of_lt hlt
      refine ⟨?_, fun term => ?_⟩
      · rw [storedOf_insert, if_neg hne, List.append_nil, hentry.1]
      · rw [mem_evaluate_insert, ← hentry.2 term]
        exact or_iff_left fun hnew => hne hnew.1
    · rw [storedOf_insert, if_pos rfl, h.sourceless _ (Nat.le_refl _), hkept, List.nil_append]
    · rw [mem_evaluate_insert, terms_of_carries hcarries hfields]
      constructor
      · rintro (hold | ⟨-, hterm⟩)
        · exact absurd (h.termless _ _ _ hold) (Nat.lt_irrefl _)
        · exact hterm
      · exact fun hterm => Or.inr ⟨rfl, hterm⟩

/-- **Deleting an identity takes out the entries with it.** -/
theorem delete (h : index.Lists config entries) (id : String) :
    (index.deleteTerm config.identityField id).1.Lists config
      (entries.filter fun entry => entry.1 != id) := by
  rw [deleteTerm_eq]
  refine ⟨fun doc hdoc => h.below doc (List.mem_filter.mp hdoc).1, h.termless, h.sourceless, ?_⟩
  refine forall₂_filter h.entries fun doc entry hentry => congrArg not (Bool.eq_iff_iff.mpr ?_)
  have hterm : doc ∈ index.evaluate (.term config.identityField id) ↔ id = entry.1 := hentry.2 id
  rw [List.contains_iff_mem, hterm, beq_iff_eq, eq_comm]

end Lists

end InvertedIndex

/-! ### Changes to the list -/

/-- What a change makes of the entries. -/
inductive Revises (analyzers : Analyzers) (config : Config) :
    Change → List Entry → List Entry → Prop where
  | add {document : Document} {id : String} {source : Bytes} {entries : List Entry} :
      (∃ fields, InvertedIndex.analyze analyzers document = .ok fields) →
      document.Carries config id source →
      Revises analyzers config (.add document) entries (entries ++ [(id, source)])
  | delete {id : String} {entries : List Entry} :
      Revises analyzers config (.deleteTerm config.identityField id) entries
        (entries.filter fun entry => entry.1 != id)

/-- What changes make of the entries, one after the other. -/
inductive RevisesAll (analyzers : Analyzers) (config : Config) :
    List Change → List Entry → List Entry → Prop where
  | nil {entries : List Entry} : RevisesAll analyzers config [] entries entries
  | cons {change : Change} {rest : List Change} {first middle last : List Entry} :
      Revises analyzers config change first middle →
      RevisesAll analyzers config rest middle last →
      RevisesAll analyzers config (change :: rest) first last

section Replaying

variable {analyzers : Analyzers} {config : Config}

theorem RevisesAll.append {earlier later : List Change} {first middle last : List Entry}
    (h : RevisesAll analyzers config earlier first middle)
    (h' : RevisesAll analyzers config later middle last) :
    RevisesAll analyzers config (earlier ++ later) first last := by
  induction h with
  | nil => exact h'
  | cons hchange _ ih => exact .cons hchange (ih h')

/-- A field as it is kept keeps the same bytes. -/
theorem InvertedIndex.keptOf_narrowed (field : Field) : keptOf field.narrowed = keptOf field := by
  obtain ⟨name, value, stored, indexed⟩ := field
  cases value <;> rfl

theorem Document.Carries.narrowed {document : Document} {id : String} {source : Bytes}
    (h : document.Carries config id source) :
    Document.Carries config (document.map Field.narrowed) id source where
  identity := by
    have hsame : DocumentBuilder.searchedAs config.identityField ∘ Field.narrowed
        = DocumentBuilder.searchedAs config.identityField := rfl
    rw [List.filter_map, hsame, h.identity]
    rfl
  kept := by
    rw [List.flatMap_map]
    simp only [InvertedIndex.keptOf_narrowed]
    exact h.kept

/-- Changes as they are kept do the same. -/
theorem RevisesAll.narrowed {changes : List Change} {first last : List Entry}
    (h : RevisesAll analyzers config changes first last) :
    RevisesAll analyzers config (changes.map Change.narrowed) first last := by
  induction h with
  | nil => exact .nil
  | cons hchange _ ih =>
      refine .cons ?_ ih
      cases hchange with
      | add hanalyzed hcarries =>
          exact .add (InvertedIndex.analyze_narrowed hanalyzed) hcarries.narrowed
      | delete => exact .delete

/-- **Replaying changes makes an index that lists what they make of the entries.** -/
theorem InvertedIndex.Lists.replay {changes : List Change} {first last : List Entry}
    (h : RevisesAll analyzers config changes first last) :
    ∀ {index : InvertedIndex}, index.Lists config first →
      ∃ next, index.replay analyzers changes = .ok next ∧ next.Lists config last := by
  induction h with
  | nil => exact fun {index} hlists => ⟨index, rfl, hlists⟩
  | cons hchange _ ih =>
      intro index hlists
      cases hchange with
      | add hanalyzed hcarries =>
          obtain ⟨fields, hfields⟩ := hanalyzed
          obtain ⟨next, hreplay, hnext⟩ := ih (hlists.insert hcarries hfields)
          refine ⟨next, ?_, hnext⟩
          rw [InvertedIndex.replay, InvertedIndex.apply, InvertedIndex.add, hfields]
          exact hreplay
      | delete => exact ih (hlists.delete _)

end Replaying

end DocIndex
