/-
Asking for a single word of a text.

A word is put into lower case when it is asked for by a wildcard, as a similar term or as the end of
a range, if what is known of the field says that it holds text.  The standard analyzer puts a token
into lower case only if it is a word with upper case in it.  So the two agree on words that have
upper case or do not change, and on numbers that do not change.  Any other token stands in the index
as it is written, and its lower case form is found only if it is a term of the document from
elsewhere.
-/
import DocIndex.Proofs.Index.TermLookups
import DocIndex.Proofs.Query.OwnText
import DocIndex.Proofs.Schema.Resolving
import DocIndex.Proofs.Text.Folding

namespace DocIndex

open InvertedIndex (AnalyzedField)
open Analysis (Analyzer)

/-! ### What is known of a text -/

/-- A text of a document is known to be one in every scope with the type of the document. -/
theorem DocumentStore.Holds.isText {builder : DocumentBuilder} {store : DocumentStore}
    {entries : List Held} (hholds : store.Holds builder entries) {held : Held}
    (hheld : held ∈ entries) {field : Field} (hfield : field ∈ held.built.document)
    (hindexed : field.indexed = true) (hanalyzer : field.analyzer?.isSome = true)
    {scope : Query.Scope} (hscope : FieldCatalog.InScope scope held.built.contentType) :
    store.catalog.isText field.name scope = true := by
  obtain ⟨projections, hbuilt⟩ := DocumentBuilder.builtBy (hholds.made held hheld).build
  obtain ⟨projection, hprojection, hown⟩ := (hbuilt.mem_document hindexed).mp hfield
  have hknown : store.catalog.Knows held.built.contentType (projection.infoOf field) :=
    (hholds.knows _ _).mpr ⟨held, hheld, rfl,
      (hbuilt.mem_infos _).mpr ⟨projection, hprojection, field, hown, rfl⟩⟩
  have hobserved : projection.infoOf field ∈ store.catalog.observations field.name scope :=
    (FieldCatalog.mem_observations_iff hholds.sorted).mpr ⟨rfl, _, hscope, hknown⟩
  rw [FieldCatalog.isText, FieldCatalog.analyzer?, Option.isSome_map, List.find?_isSome]
  exact ⟨_, hobserved, decide_eq_true (field.isSome_analyzer?.mp hanalyzer)⟩

namespace Query.PlanContext

variable {context : PlanContext} {field text : String} {scope : Scope}

/-! ### Lookups of a word -/

theorem clause_wildcard (htext : context.catalog.isText field scope = true) :
    context.clause ⟨some field, .equals, .wildcard text, []⟩ scope
      = .ok (.includes (.wildcard field (Text.lowercase text))) := by
  simp [clause, exact, Value.instant?, foldedFor, htext]

theorem clause_similar (htext : context.catalog.isText field scope = true) :
    context.clause ⟨some field, .similar, .word text, []⟩ scope
      = .ok (.includes (.fuzzy field (Text.lowercase text) context.maxEdits)) := by
  simp [clause, similar, foldedFor, htext]

theorem clause_range (htext : context.catalog.isText field scope = true) {op : Operator}
    {side : Side} (hside : Side.ofOperator? op = some side) :
    context.clause ⟨some field, op, .word text, []⟩ scope
      = .ok (.includes (.terms field (side.interval (Text.lowercase text)))) := by
  cases op <;> cases hside <;> simp [clause, range, Value.instant?, foldedFor, htext]

/-- The bound of a side that includes it lies on the side. -/
theorem Side.contains_bound {side : Side} (hinclusive : side.inclusive = true) (bound : String) :
    (side.interval bound).contains (fun a b => some (compare a b)) bound = true := by
  obtain ⟨above, inclusive⟩ := side
  obtain rfl : inclusive = true := hinclusive
  cases above <;> simp [Side.interval, Interval.above, Interval.below, Interval.contains]

/-- A lookup of the terms that pass a test holds for a field with such a term. -/
theorem hasTerm_of_token {fields : List AnalyzedField} {f : AnalyzedField} (hf : f ∈ fields)
    (hindexed : f.field.indexed = true) {source analyzer : String}
    (hvalue : f.field.value = .text source analyzer) {t : Analysis.Token} (ht : t ∈ f.tokens)
    {test : String → Bool} (htest : test t.text = true) :
    InvertedIndex.hasTerm fields f.field.name test = true := by
  refine List.any_eq_true.mpr ⟨f, hf, ?_⟩
  rw [Bool.and_eq_true, AnalyzedField.hasTermsOf, AnalyzedField.placedTerms, hindexed, hvalue]
  refine ⟨by simp [FieldValue.kind, FieldKind.isLexical], List.any_eq_true.mpr ?_⟩
  exact ⟨(t.text, t.position), List.mem_map_of_mem ht, htest⟩

/-- A wildcard without wildcard characters looks for one term. -/
theorem mem_matching_plain {index : InvertedIndex} {doc : DocId} {term : String}
    (hlive : doc ∈ index.live) (hstar : '*' ∉ term.toList) (hmark : '?' ∉ term.toList) :
    doc ∈ index.matching (.wildcard field term) ↔ index.Posted field term doc := by
  rw [InvertedIndex.mem_matching_wildcard, and_iff_right hlive]
  simp only [Globs.plain_iff hstar hmark, String.toList_inj, exists_eq_right]

/-- A token of a document finds it, as a whole pattern, without edits and as an included bound. -/
theorem matching_token {builder : DocumentBuilder} {store : DocumentStore} {entries : List Held}
    (hholds : store.Holds builder entries) {doc : DocId} {held : Held}
    (hheld : entries[doc]? = some held) (hlive : held.live = true) {f : AnalyzedField}
    (hf : f ∈ held.fields) (hindexed : f.field.indexed = true) {source analyzer : String}
    (hvalue : f.field.value = .text source analyzer) {t : Analysis.Token} (ht : t ∈ f.tokens)
    (hstar : '*' ∉ t.text.toList) (hmark : '?' ∉ t.text.toList) (maxEdits : Nat) :
    doc ∈ store.writer.index.matching (.wildcard f.field.name t.text) ∧
      doc ∈ store.writer.index.matching (.fuzzy f.field.name t.text maxEdits) ∧
      ∀ side : Side, side.inclusive = true →
        doc ∈ store.writer.index.matching (.terms f.field.name (side.interval t.text)) := by
  simp only [hholds.mem_matching_iff hheld hlive, InvertedIndex.satisfies]
  refine ⟨hasTerm_of_token hf hindexed hvalue ht ?_, hasTerm_of_token hf hindexed hvalue ht ?_,
    fun side hinclusive => hasTerm_of_token hf hindexed hvalue ht ?_⟩
  · rw [Pattern.ofText_eq, Pattern.fits_iff_globs, Globs.plain_iff hstar hmark]
  · have hnone := (isLeast_charEdits t.text.toList t.text.toList).2 (.none t.text.toList)
    exact decide_eq_true (Nat.le_trans hnone (Nat.zero_le _))
  · exact Side.contains_bound hinclusive t.text

/-! ### Words of a document -/

/-- The document that shows a field is held live, with the field among its own. -/
theorem Shows.exists_held {builder : DocumentBuilder} {store : DocumentStore}
    {entries : List Held} (hholds : store.Holds builder entries) {documents : List Json}
    (hjson : entries.map Held.json = documents) {doc : DocId} {f : AnalyzedField}
    (h : Shows builder documents store.writer.index doc f text) :
    ∃ held, entries[doc]? = some held ∧ held.live = true ∧ documents[doc]? = some held.json ∧
      f.field ∈ held.built.document ∧ f ∈ held.fields := by
  obtain ⟨held, hheld, hlive⟩ := hholds.mem_live.mp h.live
  have hmade := hholds.made held (List.mem_of_getElem? hheld)
  have hdocument : documents[doc]? = some held.json := by
    rw [← hjson, List.getElem?_map, hheld]
    rfl
  have hfield : f.field ∈ held.built.document := by
    obtain ⟨json, built, hother, hbuild, hfield⟩ := h.document
    obtain rfl := Option.some.inj (hdocument.symm.trans hother)
    obtain rfl := Except.ok.inj (hmade.build.symm.trans hbuild)
    exact hfield
  exact ⟨held, hheld, hlive, hdocument, hfield,
    InvertedIndex.mem_of_analyzeField hmade.analyze hfield h.analyzed⟩

/-- The tokens of a text are those that its analyzer makes. -/
theorem Shows.tokens {builder : DocumentBuilder} {documents : List Json} {index : InvertedIndex}
    {doc : DocId} {f : AnalyzedField} (h : Shows builder documents index doc f text)
    {name : String} (hanalyzer : f.field.analyzer? = some name) {analyzer : Analyzer}
    (hfind : Table.find? builder.analyzers name = some analyzer) :
    f.field.value = .text text name ∧ f.tokens = analyzer.analyze text := by
  obtain ⟨-, -, hanalyzed, hindexed, htext, -⟩ := h
  obtain ⟨⟨path, value, stored, indexed⟩, tokens⟩ := f
  cases value with
  | text source other =>
      obtain rfl := Option.some.inj hanalyzer
      obtain rfl := Option.some.inj htext
      simp only at hindexed
      simp only [InvertedIndex.analyzeField, hindexed, if_true, hfind] at hanalyzed
      have htokens : analyzer.analyze source = tokens := by simpa using Except.ok.inj hanalyzed
      exact ⟨rfl, htokens.symm⟩
  | _ => cases hanalyzer

/--
**A document is found by a word of its text if the word has upper case or does not change.**  Take
a new store of which any requests were made, a field of a live document that the standard analyzer
has cut into tokens, and a token without wildcard characters.  Asked for as it is written, in any
scope with the type of the document, it is looked for in lower case: by a wildcard, as a similar
term and as a bound of a range.  If it has upper case or no title case letter, or is a number
without capital Roman numerals, then this is its term and finds the document in all three ways.
Otherwise its term is another one, that is how it is written, and a wildcard finds the document
only if it has the lower case form as a term as well.
-/
theorem matching_own_word (builder : DocumentBuilder) (next : IdentifierSupply)
    (requests : List WriteRequest) (edits : List Edit)
    (hedits : builder.convert next requests = .ok edits) (context : PlanContext)
    (hcatalog : context.catalog = (builder.storeOf edits).catalog) (scope : Scope)
    (doc : DocId) (f : AnalyzedField) (text : String)
    (hshows : Shows builder (builder.prepared next requests)
      (builder.storeOf edits).writer.index doc f text)
    (hscope : ∀ json built, (builder.prepared next requests)[doc]? = some json →
      builder.build json = .ok built → FieldCatalog.InScope scope built.contentType)
    (hanalyzer : f.field.analyzer? = some Analyzers.standardName)
    (hstandard : Table.find? builder.analyzers Analyzers.standardName = some Analyzer.standard)
    (t : Analysis.Token) (ht : t ∈ Analyzer.standard.tokenizer.tokens text)
    (hstar : '*' ∉ t.text.toList) (hmark : '?' ∉ t.text.toList) :
    let index := (builder.storeOf edits).writer.index
    let field := f.field.name
    let term := Text.lowercase t.text
    context.clause ⟨some field, .equals, .wildcard t.text, []⟩ scope
        = .ok (.includes (.wildcard field term)) ∧
      context.clause ⟨some field, .similar, .word t.text, []⟩ scope
        = .ok (.includes (.fuzzy field term context.maxEdits)) ∧
      (∀ op side, Side.ofOperator? op = some side →
        context.clause ⟨some field, op, .word t.text, []⟩ scope
          = .ok (.includes (.terms field (side.interval term)))) ∧
      (doc ∈ index.matching (.wildcard field term) ↔ index.Posted field term doc) ∧
      (t.Folds → { t with text := term } ∈ f.tokens ∧
        doc ∈ index.matching (.wildcard field term) ∧
        doc ∈ index.matching (.fuzzy field term context.maxEdits) ∧
        ∀ side : Side, side.inclusive = true →
          doc ∈ index.matching (.terms field (side.interval term))) ∧
      (¬t.Folds → t ∈ f.tokens ∧ t.text ≠ term) := by
  intro index field term
  obtain ⟨entries, hholds, hjson⟩ := DocumentStore.Holds.storeOf hedits
  obtain ⟨held, hheld, hlive, hdocument, hfield, hf⟩ := Shows.exists_held hholds hjson hshows
  have hmade := hholds.made held (List.mem_of_getElem? hheld)
  have htext : context.catalog.isText field scope = true :=
    hcatalog ▸ hholds.isText (List.mem_of_getElem? hheld) hfield hshows.indexed
      (by rw [hanalyzer]; rfl) (hscope _ _ hdocument hmade.build)
  obtain ⟨hvalue, htokens⟩ := hshows.tokens hanalyzer hstandard
  have hown : { t with text := t.foldedTerm } ∈ f.tokens :=
    htokens ▸ Analyzer.mem_analyze_standard ht
  have hfolded := Analysis.Token.foldedTerm_eq_lowercase (Analysis.Tokenizer.isNumeric_of_number ht)
  have hstar' : '*' ∉ term.toList := fun hin =>
    hstar (Text.mem_of_mem_lowercase hin (by decide) (by decide))
  have hmark' : '?' ∉ term.toList := fun hin =>
    hmark (Text.mem_of_mem_lowercase hin (by decide) (by decide))
  refine ⟨clause_wildcard htext, clause_similar htext, fun _ _ hside => clause_range htext hside,
    mem_matching_plain hshows.live hstar' hmark', ?_, ?_⟩
  · intro hfolds
    rw [hfolded.mpr hfolds] at hown
    exact ⟨hown, matching_token hholds hheld hlive hf hshows.indexed hvalue hown hstar' hmark'
      context.maxEdits⟩
  · intro hfolds
    have hwritten := Analysis.Token.foldedTerm_eq_text hfolds
    rw [hwritten] at hown
    exact ⟨hown, fun heq => hfolds (hfolded.mp (hwritten.trans heq))⟩

/-- A document with a capital letter and a title case letter. -/
def digraphs : List WriteRequest :=
  [.create (.object [("$contentType", .text "document"), ("$id", .text "A"),
    ("x", .text "Lovely \u01C5ungla")])]

/-- The edits that it is converted to. -/
def digraphEdits : List Edit := ((blankBuilder.convert 0 digraphs).toOption).getD []

/-- The store of the document is searched. -/
def digraphContext : PlanContext :=
  ⟨(blankBuilder.storeOf digraphEdits).catalog, Analyzers.builtIn, ⟨0, 0, 0⟩, 0, 0⟩

/-- The field of the text. -/
def digraph : AnalyzedField :=
  ⟨.text "x" "Lovely \u01C5ungla" "standard", Analyzer.standard.analyze "Lovely \u01C5ungla"⟩

theorem digraph_shows : Shows blankBuilder (blankBuilder.prepared 0 digraphs)
    (blankBuilder.storeOf digraphEdits).writer.index 0 digraph "Lovely \u01C5ungla" where
  live := by decide +kernel
  document := ⟨_, _, rfl, rfl, by decide +kernel⟩
  analyzed := rfl
  indexed := rfl
  text := rfl
  terms := by decide +kernel

/-- The word with a capital letter is found. -/
theorem matching_own_word_lovely :
    blankBuilder.convert 0 digraphs = .ok digraphEdits ∧
      Text.lowercase "Lovely" = "lovely" ∧
      digraphContext.clause ⟨some "x", .equals, .wildcard "Lovely", []⟩ none
        = .ok (.includes (.wildcard "x" (Text.lowercase "Lovely"))) ∧
      0 ∈ (blankBuilder.storeOf digraphEdits).writer.index.matching
        (.wildcard "x" (Text.lowercase "Lovely")) := by
  have hfolds : (⟨"Lovely", 0, 0, .word⟩ : Analysis.Token).Folds := .inl ⟨'L', by decide, by decide⟩
  obtain ⟨hclause, -, -, -, hfound, -⟩ := matching_own_word blankBuilder 0 digraphs digraphEdits rfl
    digraphContext rfl none 0 digraph "Lovely \u01C5ungla" digraph_shows
    (fun _ _ _ _ => by simp [FieldCatalog.InScope]) rfl rfl ⟨"Lovely", 0, 0, .word⟩
    (by decide +kernel) (by decide) (by decide)
  exact ⟨rfl, by decide +kernel, hclause, (hfound hfolds).2.1⟩

/-- The word with a title case letter is looked for in lower case, and indexed as it is written. -/
theorem word_not_found :
    ⟨"\u01C5ungla", 1, 7, .word⟩ ∈ digraph.tokens ∧
      digraphContext.clause ⟨some "x", .equals, .wildcard "\u01C5ungla", []⟩ none
        = .ok (.includes (.wildcard "x" "\u01C6ungla")) ∧
      0 ∉ (blankBuilder.storeOf digraphEdits).writer.index.matching
        (.wildcard "x" "\u01C6ungla") := by
  have htext : digraphContext.catalog.isText "x" none = true := by decide +kernel
  have hlower : Text.lowercase "\u01C5ungla" = "\u01C6ungla" := by decide +kernel
  exact ⟨by decide +kernel, hlower ▸ clause_wildcard htext, by decide +kernel⟩

end Query.PlanContext

end DocIndex
