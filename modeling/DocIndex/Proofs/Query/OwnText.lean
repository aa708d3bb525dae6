/-
Asking for the text of a field.

A text is analysed when it is indexed, as its strategy says, and again when it is asked for, as
the catalog says for the name of its field.  If both give the same terms then the document is
found by its own text.  They do if every text that was indexed under the name was analysed
alike, and exact terms and texts do not share a name.

They need not otherwise: a name has one analyzer in a query, whatever was indexed under it.
The term that stands for a null is then looked for by the word in it.
-/
import DocIndex.Proofs.Document.Parts
import DocIndex.Proofs.Index.Listing
import DocIndex.Proofs.Index.Phrases
import DocIndex.Proofs.Query.Planning
import DocIndex.Proofs.Writing.Holdings

namespace DocIndex

open InvertedIndex (AnalyzedField)

namespace Field

/-- The text that a field with terms was made of. -/
def text? (field : Field) : Option String :=
  match field.value with
  | .term text | .text text _ => some text
  | _ => none

theorem isLexical_of_text? {field : Field} {text : String} (h : field.text? = some text) :
    field.value.kind.isLexical = true := by
  unfold text? at h
  split at h
  · rename_i heq
    rw [heq]
    rfl
  · rename_i heq
    rw [heq]
    rfl
  · cases h

/-- Texts have an analyzer, and nothing else has. -/
theorem isSome_analyzer? (field : Field) :
    field.analyzer?.isSome = true ↔ field.kind = .text := by
  obtain ⟨name, value, stored, indexed⟩ := field
  cases value <;> simp [analyzer?, kind, FieldValue.kind]

end Field

/-! ### Terms of a text -/

/-- The terms that a named analyzer makes of a text, with their distances from the first one. -/
def Analyzers.terms? (analyzers : Analyzers) (name text : String) :
    Option (List (String × Nat)) :=
  (Table.find? analyzers name).map fun analyzer => Analysis.relativeTerms (analyzer.analyze text)

/-- A text that was analysed has the terms that its analyzer makes of it. -/
theorem Analyzers.terms?_own {analyzers : Analyzers} {f : AnalyzedField}
    (hanalyzed : InvertedIndex.analyzeField analyzers f.field = .ok f)
    (hindexed : f.field.indexed = true) {name text : String}
    (hanalyzer : f.field.analyzer? = some name) (htext : f.field.text? = some text) :
    analyzers.terms? name text = some f.relativeTerms := by
  obtain ⟨⟨path, value, stored, indexed⟩, tokens⟩ := f
  cases value with
  | text source analyzer =>
      obtain rfl := Option.some.inj hanalyzer
      obtain rfl := Option.some.inj htext
      simp only at hindexed
      simp only [InvertedIndex.analyzeField, hindexed, if_true] at hanalyzed
      cases hfind : Table.find? analyzers analyzer with
      | none => simp [hfind] at hanalyzed
      | some found =>
          rw [hfind] at hanalyzed
          have htokens : found.analyze source = tokens := by simpa using Except.ok.inj hanalyzed
          simp only [terms?, hfind, Option.map_some, htokens, Analysis.relativeTerms,
            AnalyzedField.relativeTerms, AnalyzedField.firstPosition, AnalyzedField.placedTerms,
            List.map_map]
          cases tokens <;> rfl
  | _ => cases hanalyzer

/-- An exact term is the only term of its field. -/
theorem relativeTerms_of_term {f : AnalyzedField} (hanalyzer : f.field.analyzer? = none)
    {text : String} (htext : f.field.text? = some text) : f.relativeTerms = [(text, 0)] := by
  obtain ⟨⟨path, value, stored, indexed⟩, tokens⟩ := f
  cases value with
  | term term =>
      obtain rfl := Option.some.inj htext
      rfl
  | text source analyzer => cases hanalyzer
  | _ => cases htext

namespace Query.PlanContext

variable {context : PlanContext} {field text : String} {scope : Scope}

/-- The terms by which a text is looked up, with their distances from the first one. -/
def askedTerms (context : PlanContext) (field text : String) (scope : Scope) :
    Except Error (List (String × Nat)) :=
  (context.textTerms field text scope).map fun terms => terms.getD [(text, 0)]

theorem analysed_eq {terms : List (String × Nat)}
    (h : context.askedTerms field text scope = .ok terms) (slop : Nat) :
    context.analysed field text slop scope = .ok (InvertedIndex.lookupOf field terms slop) := by
  unfold askedTerms at h
  unfold analysed
  cases hterms : context.textTerms field text scope with
  | error e => simp [hterms, Except.map] at h
  | ok found =>
      rw [hterms] at h
      obtain rfl := Except.ok.inj h
      rcases found with _ | _ | ⟨first, _ | ⟨second, rest⟩⟩ <;> rfl

/-- A phrase is looked up by the terms that it is asked for by. -/
theorem clause_phrase {terms : List (String × Nat)}
    (h : context.askedTerms field text scope = .ok terms) :
    context.clause ⟨some field, .equals, .phrase text, []⟩ scope
      = .ok (.includes (InvertedIndex.lookupOf field terms context.phraseSlop)) :=
  bind_eq_ok.mpr ⟨_, analysed_eq h context.phraseSlop, rfl⟩

/-- The analyzer that the catalog names decides what a text is asked for by. -/
theorem askedTerms_of_analyzer? {name : String} {terms : List (String × Nat)}
    (hanalyzer : context.catalog.analyzer? field scope = some name)
    (hterms : context.analyzers.terms? name text = some terms) :
    context.askedTerms field text scope = .ok terms := by
  obtain ⟨analyzer, hfind, rfl⟩ := Option.map_eq_some_iff.mp hterms
  simp only [askedTerms, textTerms, hanalyzer, hfind]
  rfl

/-- Without an analyzer a text is asked for as it is. -/
theorem askedTerms_of_none (hanalyzer : context.catalog.analyzer? field scope = none) :
    context.askedTerms field text scope = .ok [(text, 0)] := by
  simp only [askedTerms, textTerms, hanalyzer]
  rfl

end Query.PlanContext

/-! ### The analyzer of a name -/

/-- The analyzers of the texts that documents have under a name. -/
def DocumentBuilder.analyzersOf (builder : DocumentBuilder) (documents : List Json)
    (name : String) : List String :=
  documents.flatMap fun json =>
    match builder.build json with
    | .ok built => built.document.filterMap fun field =>
        if field.name = name then field.analyzer? else none
    | .error _ => []

theorem DocumentBuilder.mem_analyzersOf {builder : DocumentBuilder} {documents : List Json}
    {json : Json} (hjson : json ∈ documents) {built : BuiltDocument}
    (hbuild : builder.build json = .ok built) {field : Field} (hfield : field ∈ built.document)
    {analyzer : String} (hanalyzer : field.analyzer? = some analyzer) :
    analyzer ∈ builder.analyzersOf documents field.name := by
  refine List.mem_flatMap.mpr ⟨json, hjson, ?_⟩
  rw [hbuild]
  exact List.mem_filterMap.mpr ⟨field, hfield, by rw [if_pos rfl, hanalyzer]⟩

theorem DocumentBuilder.exists_of_mem_analyzersOf {builder : DocumentBuilder}
    {documents : List Json} {name analyzer : String}
    (h : analyzer ∈ builder.analyzersOf documents name) :
    ∃ json ∈ documents, ∃ built, builder.build json = .ok built ∧
      ∃ field ∈ built.document, field.name = name ∧ field.analyzer? = some analyzer := by
  obtain ⟨json, hjson, hmem⟩ := List.mem_flatMap.mp h
  split at hmem
  · rename_i built hbuild
    obtain ⟨field, hfield, hif⟩ := List.mem_filterMap.mp hmem
    split at hif
    · rename_i hname
      exact ⟨json, hjson, built, hbuild, field, hfield, hname, hif⟩
    · cases hif
  · cases hmem

namespace DocumentStore.Holds

variable {builder : DocumentBuilder} {store : DocumentStore} {entries : List Held}

/-- What is known of a field is known of a field of some document. -/
theorem exists_field (hholds : store.Holds builder entries) {name : String} {info : FieldInfo}
    (hinfo : info ∈ store.catalog.observations name none) :
    ∃ held ∈ entries, ∃ field ∈ held.built.document, field.name = name ∧
      info.kind = field.kind ∧ info.analyzer = field.analyzer? := by
  obtain ⟨rfl, held, hheld, hmem⟩ := hholds.mem_observations.mp hinfo
  obtain ⟨projections, hbuilt⟩ := DocumentBuilder.builtBy (hholds.made held hheld).build
  obtain ⟨projection, hprojection, field, hfield, rfl⟩ := (hbuilt.mem_infos info).mp hmem
  refine ⟨held, hheld, field, ?_, rfl, rfl, rfl⟩
  rw [hbuilt.document]
  exact List.mem_append_left _ (List.mem_flatMap.mpr ⟨projection, hprojection, hfield⟩)

/-- A searched field of a document is known of. -/
theorem exists_info (hholds : store.Holds builder entries) {held : Held} (hheld : held ∈ entries)
    {field : Field} (hfield : field ∈ held.built.document) (hindexed : field.indexed = true) :
    ∃ info ∈ store.catalog.observations field.name none, info.kind = field.kind := by
  obtain ⟨projections, hbuilt⟩ := DocumentBuilder.builtBy (hholds.made held hheld).build
  obtain ⟨projection, hprojection, hown⟩ := (hbuilt.mem_document hindexed).mp hfield
  exact ⟨projection.infoOf field, hholds.mem_observations.mpr ⟨rfl, held, hheld,
    (hbuilt.mem_infos _).mpr ⟨projection, hprojection, field, hown, rfl⟩⟩, rfl⟩

/-- The analyzer of a name is that of some text that was indexed under it. -/
theorem exists_text (hholds : store.Holds builder entries) {name analyzer : String}
    (hanalyzer : store.catalog.analyzer? name none = some analyzer) :
    ∃ held ∈ entries, ∃ field ∈ held.built.document, field.name = name ∧
      field.analyzer? = some analyzer := by
  obtain ⟨info, hfind, rfl⟩ := Option.map_eq_some_iff.mp hanalyzer
  have hkind : info.kind = .text := by simpa using List.find?_some hfind
  obtain ⟨held, hheld, field, hfield, hname, hsame, hown⟩ :=
    hholds.exists_field (List.mem_of_find?_eq_some hfind)
  obtain ⟨own, heq⟩ := Option.isSome_iff_exists.mp
    (field.isSome_analyzer?.mpr (hsame.symm.trans hkind))
  exact ⟨held, hheld, field, hfield, hname, by rw [hown, heq, Option.getD_some]⟩

/-- A name without an analyzer is that of no text. -/
theorem analyzer?_eq_none (hholds : store.Holds builder entries) {held : Held}
    (hheld : held ∈ entries) {field : Field} (hfield : field ∈ held.built.document)
    (hindexed : field.indexed = true)
    (hanalyzer : store.catalog.analyzer? field.name none = none) : field.analyzer? = none := by
  have hnone : ∀ info ∈ store.catalog.observations field.name none, info.kind ≠ .text := by
    simpa [FieldCatalog.analyzer?] using hanalyzer
  obtain ⟨info, hinfo, hkind⟩ := hholds.exists_info hheld hfield hindexed
  refine Option.not_isSome_iff_eq_none.mp fun hsome => ?_
  exact hnone info hinfo (hkind.trans (field.isSome_analyzer?.mp hsome))

end DocumentStore.Holds

/-! ### Asking for the text of a field -/

theorem InvertedIndex.analyzeField_of_mem {analyzers : Analyzers} {document : Document}
    {fields : List AnalyzedField} (h : analyze analyzers document = .ok fields) :
    ∀ f ∈ fields, analyzeField analyzers f.field = .ok f := by
  have hall := mapM_eq_ok.mp h
  induction hall with
  | nil => simp
  | cons hfirst hrest ih =>
      refine List.forall_mem_cons.mpr ⟨?_, ih (mapM_eq_ok.mpr hrest)⟩
      rwa [field_of_analyzeField hfirst]

/-- A field of a document that has tokens is one of those that the document was analysed to. -/
theorem InvertedIndex.mem_of_analyzeField {analyzers : Analyzers} {document : Document}
    {fields : List AnalyzedField} (h : analyze analyzers document = .ok fields)
    {f : AnalyzedField} (hfield : f.field ∈ document)
    (hanalyzed : analyzeField analyzers f.field = .ok f) : f ∈ fields := by
  rw [← map_field_of_analyze h] at hfield
  obtain ⟨other, hother, heq⟩ := List.mem_map.mp hfield
  have hown := analyzeField_of_mem h other hother
  rw [heq, hanalyzed] at hown
  obtain rfl := Except.ok.inj hown
  exact hother

namespace Query.PlanContext

/-- A field is asked for by its own terms, if the analyzers of its name agree on them. -/
theorem askedTerms_own {context : PlanContext} {builder : DocumentBuilder} {store : DocumentStore}
    {entries : List Held} (hholds : store.Holds builder entries) {held : Held}
    (hheld : held ∈ entries) {f : AnalyzedField} (hfield : f.field ∈ held.built.document)
    (hindexed : f.field.indexed = true) {text : String} (htext : f.field.text? = some text)
    (hcatalog : context.catalog = store.catalog) (hanalyzers : context.analyzers = builder.analyzers)
    (hagree : ∀ analyzer ∈ builder.analyzersOf (entries.map Held.json) f.field.name,
      builder.analyzers.terms? analyzer text = some f.relativeTerms) :
    context.askedTerms f.field.name text none = .ok f.relativeTerms := by
  cases hanalyzer : context.catalog.analyzer? f.field.name none with
  | some analyzer =>
      obtain ⟨other, hother, field, hin, hname, hown⟩ :=
        hholds.exists_text (hcatalog ▸ hanalyzer)
      have hnamed := DocumentBuilder.mem_analyzersOf (List.mem_map_of_mem hother)
        (hholds.made other hother).build hin hown
      exact askedTerms_of_analyzer? hanalyzer (hanalyzers ▸ hagree analyzer (hname ▸ hnamed))
  | none =>
      have hexact := hholds.analyzer?_eq_none hheld hfield hindexed (hcatalog ▸ hanalyzer)
      rw [relativeTerms_of_term hexact htext]
      exact askedTerms_of_none hanalyzer

/-- A searched field with terms, of a live document, and the text that it was made of. -/
structure Shows (builder : DocumentBuilder) (documents : List Json) (index : InvertedIndex)
    (doc : DocId) (f : AnalyzedField) (text : String) : Prop where
  live : doc ∈ index.live
  document : ∃ json built, documents[doc]? = some json ∧ builder.build json = .ok built ∧
    f.field ∈ built.document
  analyzed : InvertedIndex.analyzeField builder.analyzers f.field = .ok f
  indexed : f.field.indexed = true
  text : f.field.text? = some text
  terms : f.placedTerms ≠ []

/-- Texts that are indexed with the analyzer of a field agree on its terms. -/
theorem Shows.agree {builder : DocumentBuilder} {documents : List Json} {index : InvertedIndex}
    {doc : DocId} {f : AnalyzedField} {text : String}
    (h : Shows builder documents index doc f text)
    (hsame : ∀ analyzer ∈ builder.analyzersOf documents f.field.name,
      f.field.analyzer? = some analyzer) :
    ∀ analyzer ∈ builder.analyzersOf documents f.field.name,
      builder.analyzers.terms? analyzer text = some f.relativeTerms := by
  intro analyzer hanalyzer
  exact Analyzers.terms?_own h.analyzed h.indexed (hsame analyzer hanalyzer) h.text

/-- A letter, which is deleted, and a note of two texts; the texts of notes are stemmed. -/
def mail : List WriteRequest :=
  [.create (.object [("$contentType", .text "letter"), ("$id", .text "a"),
      ("body", .text "The old reply")]),
    .create (.object [("$contentType", .text "note"), ("$id", .text "b"),
      ("body", .array [.text "Walking home", .text "Hello, world"])]),
    .delete "a"]

/-- The builder that the example is built with. -/
def mailBuilder : DocumentBuilder :=
  let config := { Config.default with sourceCompression := .none }
  ⟨config, (FieldConfiguration.ofConfig config).set ⟨"note", "body"⟩ (.text "english"),
    Analyzers.builtIn⟩

/-- The edits that they are converted to. -/
def mailEdits : List Edit := ((mailBuilder.convert 0 mail).toOption).getD []

/-- The store of the mail is searched, with the analyzer of letters. -/
def mailContext : PlanContext :=
  ⟨(mailBuilder.storeOf mailEdits).catalog, Analyzers.builtIn, ⟨0, 0, 0⟩, 0, 0⟩

/-- The second text of the note, which is the same with stems and without. -/
def greeting : AnalyzedField :=
  ⟨.text "body" "Hello, world" "english", Analysis.Analyzer.english.analyze "Hello, world"⟩

/-- A document with a text and one with a null. -/
def blanks : List WriteRequest :=
  [.create (.object [("$contentType", .text "document"), ("$id", .text "A"), ("x", .text "hello")]),
    .create (.object [("$contentType", .text "document"), ("$id", .text "B"), ("x", .null)])]

/-- The builder of default strategies. -/
def blankBuilder : DocumentBuilder :=
  ⟨.default, .ofConfig .default, Analyzers.builtIn⟩

/-- The edits that they are converted to. -/
def blankEdits : List Edit := ((blankBuilder.convert 0 blanks).toOption).getD []

/-- The store of the two documents is searched. -/
def blankContext : PlanContext :=
  ⟨(blankBuilder.storeOf blankEdits).catalog, Analyzers.builtIn, ⟨0, 0, 0⟩, 0, 0⟩

/-- The field of the null. -/
def blank : AnalyzedField := ⟨.term "x" Strategy.nullTerm, []⟩

end Query.PlanContext

end DocIndex
