/-
Asking for a number that was indexed as text.

By the strategies of terms and texts a number is indexed as its JSON text, and a query that finds no
numbers noted of the name looks up what it writes for its own number.  So the document is found
where the two texts agree, which they do for integers and for the fractions that JSON text shows
without an exponent.  A double that is an integer is not found by itself: JSON text shows that it is
a double, and query text does not.
-/
import DocIndex.Proofs.Number.Layouts
import DocIndex.Proofs.Query.Textual
import DocIndex.Proofs.Text.Numerals

namespace DocIndex

open InvertedIndex (AnalyzedField)
open Query (Value)

/-! ### Numbers that are written alike -/

/-- A number is written in queries as it is in JSON text. -/
inductive WrittenAlike : Json → Value → Prop
  | integer (n : Int) : WrittenAlike (.int n) (.integer n)
  /-- An integer that is asked for as a double. -/
  | whole (n : Int) (hn : n.natAbs < 2 ^ 53) : WrittenAlike (.int n) (.number (Double.ofInt n))
  | fraction (x : Double) (hfinite : x.isFinite = true) (hfraction : x.toInt? = none)
      (hplain : 'e' ∉ (Json.double x).write.toList) : WrittenAlike (.double x) (.number x)

theorem write_double {x : Double} (hfinite : x.isFinite = true) :
    (Json.double x).write = x.write Json.numberLayout := by
  rw [Json.write, Json.writeDouble, if_pos hfinite]

theorem write_number {x : Double} (hfinite : x.isFinite = true) :
    (Value.number x).write = x.write Value.numberLayout := by
  rw [Value.write, Value.writeNumber, Double.isNaN_of_isFinite hfinite,
    Double.isInfinite_of_isFinite hfinite]
  rfl

theorem isFinite_ofInt {n : Int} (hn : n.natAbs < 2 ^ 53) : (Double.ofInt n).isFinite = true := by
  rw [Double.ofInt_eq, Double.isFinite, Double.magnitude_ofMagnitude (Double.roundedMagnitude_le _)]
  exact decide_eq_true (Double.roundedMagnitude_of_lt hn).1

/-- What is written alike is looked up by the text that it is indexed as. -/
theorem WrittenAlike.scalarText? {value : Json} {literal : Value} (h : WrittenAlike value literal) :
    Strategy.scalarText? value = some literal.write := by
  cases h with
  | integer n => rfl
  | whole n hn =>
      rw [write_number (isFinite_ofInt hn), Double.write_query_ofInt hn]
      rfl
  | fraction x hfinite hfraction hplain =>
      rw [write_double hfinite] at hplain
      rw [Strategy.scalarText?, write_double hfinite, write_number hfinite]
      · exact congrArg some ((Double.write_json_eq_write_query_iff hfinite).mpr ⟨hfraction, hplain⟩)
      all_goals simp

theorem isNumeral_toString (n : Int) : Analysis.IsNumeral (toString n).toList := by
  obtain ⟨c, hc, hdigit⟩ := exists_digit n.natAbs
  have hall : ∀ d ∈ (toString n).toList, Analysis.isNumeralChar d = true := by
    intro d hd
    by_contra hother
    simp only [Analysis.isNumeralChar, Bool.or_eq_true, beq_iff_eq, not_or, Bool.not_eq_true]
      at hother
    exact not_mem_toString hother.1.1 hother.2 hd
  refine ⟨⟨c, ?_, hdigit⟩, hall⟩
  rw [toList_toString]
  split
  · exact List.mem_cons_of_mem _ hc
  · exact hc

theorem isNumeral_write_query (x : Double) :
    Analysis.IsNumeral (x.write Value.numberLayout).toList := by
  refine ⟨x.exists_digit_write_query, fun d hd => ?_⟩
  by_contra hother
  simp only [Analysis.isNumeralChar, Bool.or_eq_true, beq_iff_eq, not_or, Bool.not_eq_true]
    at hother
  exact Double.not_mem_write_query hother.2 hother.1.1 (fun _ _ => hother.1.2) hd

theorem WrittenAlike.isNumeral {value : Json} {literal : Value} (h : WrittenAlike value literal) :
    Analysis.IsNumeral literal.write.toList := by
  cases h with
  | integer n => exact isNumeral_toString n
  | whole n hn =>
      rw [write_number (isFinite_ofInt hn)]
      exact isNumeral_write_query _
  | fraction x hfinite hfraction hplain =>
      rw [write_number hfinite]
      exact isNumeral_write_query _

/-- A double never has the text of an integer literal, and its own only if it is written alike. -/
theorem scalarText?_double_iff {x : Double} (hfinite : x.isFinite = true) {literal : Value}
    (hliteral : literal = .number x ∨ ∃ n, literal = .integer n) :
    Strategy.scalarText? (.double x) = some literal.write ↔ WrittenAlike (.double x) literal := by
  refine ⟨fun h => ?_, WrittenAlike.scalarText?⟩
  have htext : x.write Json.numberLayout = literal.write := by
    rw [← write_double hfinite]
    exact Option.some.inj h
  rcases hliteral with rfl | ⟨n, rfl⟩
  · rw [write_number hfinite] at htext
    obtain ⟨hfraction, hplain⟩ := (Double.write_json_eq_write_query_iff hfinite).mp htext
    exact .fraction x hfinite hfraction (by rwa [write_double hfinite])
  · have hmark := x.mem_write_json
    rw [htext, Value.write] at hmark
    exact absurd hmark (not_or.mpr
      ⟨not_mem_toString (by decide) (by decide), not_mem_toString (by decide) (by decide)⟩)

/-! ### The question -/

/-- If the strategy has an analyzer, a text fits it and its filters spare numerals. -/
def Strategy.Spares (analyzers : Analyzers) (text : String) (strategy : Strategy) : Prop :=
  ∀ name analyzer, strategy.analyzer? = some name → Table.find? analyzers name = some analyzer →
    analyzer.tokenizer.Fits text ∧ Analysis.Filter.sparesNumerals analyzer.filters = true

/-- A number in a query. -/
def Query.Value.isNumber : Value → Bool
  | .integer _ | .number _ => true
  | _ => false

namespace Query.PlanContext

variable {builder : DocumentBuilder} {store : DocumentStore} {entries : List Held} {held : Held}
  {path : String} {strategy : Strategy} {context : PlanContext}

/-- Where no numbers are noted, a number is looked up by its text. -/
theorem exact_number {literal : Value} (hliteral : literal.isNumber = true)
    (hresolve : ∀ kind, context.catalog.resolve path none ≠ .numeric kind) :
    context.exact path literal none = context.analysed path literal.write 0 none := by
  have hlookup : ∀ asKind, context.numberLookup path literal asKind none
      = context.analysed path literal.write 0 none := by
    intro asKind
    unfold numberLookup
    split
    · rename_i kind hkind
      exact absurd hkind (hresolve kind)
    · rfl
  cases literal with
  | integer n => exact hlookup (integerAs n)
  | number x => exact hlookup fun _ => .double x
  | _ => cases hliteral

section Textual

variable (hholds : store.Holds builder entries) (htextual : strategy.isTextual = true)
  (honly : builder.NotesOnly (entries.map Held.json) path strategy)
  (hcatalog : context.catalog = store.catalog) (hanalyzers : context.analyzers = builder.analyzers)

include hholds htextual honly hcatalog hanalyzers

/-- A field of the strategy is asked for by its own terms. -/
theorem askedTerms_fieldOf (hheld : held ∈ entries) {f : AnalyzedField} (hf : f ∈ held.fields)
    {text : String} (hfield : f.field = strategy.fieldOf path text) :
    context.askedTerms path text none = .ok f.relativeTerms := by
  have hmade := hholds.made held hheld
  have hanalyzed := InvertedIndex.analyzeField_of_mem hmade.analyze f hf
  have hindexed : f.field.indexed = true := by rw [hfield, Strategy.indexed_fieldOf]
  have htext : f.field.text? = some text := by rw [hfield, Strategy.text?_fieldOf]
  have hname : f.field.name = path := by rw [hfield, Strategy.name_fieldOf]
  rw [← hname]
  refine askedTerms_own hholds hheld (hmade.mem_document.mpr ⟨f, hf, rfl⟩) hindexed htext hcatalog
    hanalyzers fun analyzer hanalyzer => ?_
  obtain ⟨json, hjson, built, hbuild, field, hin, hown, hsame⟩ :=
    DocumentBuilder.exists_of_mem_analyzersOf hanalyzer
  obtain ⟨other, hother, rfl⟩ := List.mem_map.mp hjson
  obtain rfl := Except.ok.inj ((hholds.made other hother).build.symm.trans hbuild)
  obtain ⟨hstrategy, -⟩ :=
    hholds.eq_fieldOf_of_text htextual honly hother hin (hown.trans hname) hsame
  exact Analyzers.terms?_own hanalyzed hindexed
    (by rw [hfield, Strategy.analyzer?_fieldOf, hstrategy]) htext

/-- A text is asked for by some terms, and by itself if there is no analyzer. -/
theorem exists_askedTerms (text : String) :
    ∃ terms, context.askedTerms path text none = .ok terms ∧
      (strategy.analyzer? = none → terms = [(text, 0)]) := by
  cases hanalyzer : context.catalog.analyzer? path none with
  | none => exact ⟨_, askedTerms_of_none hanalyzer, fun _ => rfl⟩
  | some analyzer =>
      obtain ⟨other, hother, field, hin, hname, hsame⟩ := hholds.exists_text (hcatalog ▸ hanalyzer)
      obtain ⟨hstrategy, own, rfl⟩ :=
        hholds.eq_fieldOf_of_text htextual honly hother hin hname hsame
      obtain ⟨f, hf, hfield⟩ := (hholds.made other hother).mem_document.mp hin
      -- The analyzer is known, because a text was analysed by it.
      have htext : f.field.text? = some own := by rw [hfield, Strategy.text?_fieldOf]
      have hown := Analyzers.terms?_own
        (InvertedIndex.analyzeField_of_mem (hholds.made other hother).analyze f hf)
        (by rw [hfield, Strategy.indexed_fieldOf]) (hfield ▸ hsame) htext
      obtain ⟨known, hknown, -⟩ := Option.map_eq_some_iff.mp hown
      have hterms : context.analyzers.terms? analyzer text
          = some (Analysis.relativeTerms (known.analyze text)) := by
        rw [hanalyzers, Analyzers.terms?, hknown, Option.map_some]
      exact ⟨_, askedTerms_of_analyzer? hanalyzer hterms, fun h => by rw [hstrategy] at h; cases h⟩

/-- A document with the text under the name is found, if a term is left of the text. -/
theorem satisfies_of_text (hheld : held ∈ entries) {text : String}
    (hnumeral : Analysis.IsNumeral text.toList) (hspares : strategy.Spares builder.analyzers text)
    {value : Json} (hvalue : value ∈ held.json.valuesAt path)
    (htext : Strategy.scalarText? value = some text) {terms : List (String × Nat)}
    (hterms : context.askedTerms path text none = .ok terms) :
    InvertedIndex.satisfies held.fields (InvertedIndex.lookupOf path terms 0) = true := by
  have hmade := hholds.made held hheld
  obtain ⟨f, hf, hfield⟩ := hmade.mem_document.mp
    (hholds.fieldOf_mem_document htextual honly hheld hvalue htext)
  have hasked := askedTerms_fieldOf hholds htextual honly hcatalog hanalyzers hheld hf hfield
  obtain rfl := Except.ok.inj (hterms.symm.trans hasked)
  have hown : f.field.text? = some text := by rw [hfield, Strategy.text?_fieldOf]
  have hindexed : f.field.indexed = true := by rw [hfield, Strategy.indexed_fieldOf]
  have hname : f.field.name = path := by rw [hfield, Strategy.name_fieldOf]
  have hhas : f.hasTermsOf path = true := by
    simp [AnalyzedField.hasTermsOf, hindexed, hname, Field.isLexical_of_text? hown]
  have hanalyzed := InvertedIndex.analyzeField_of_mem hmade.analyze
  refine InvertedIndex.satisfies_relativeTerms
    (fun other hother => InvertedIndex.inOrder_of_analyzeField (hanalyzed other hother))
    hf hhas ?_ 0
  have hanalyzer : f.field.analyzer? = strategy.analyzer? := by
    rw [hfield, Strategy.analyzer?_fieldOf]
  have hleft : f.relativeTerms ≠ [] := by
    cases hstrategy : strategy.analyzer? with
    | none =>
        rw [relativeTerms_of_term (hanalyzer.trans hstrategy) hown]
        exact List.cons_ne_nil _ _
    | some name =>
        obtain ⟨analyzer, hknown, hterms⟩ := Option.map_eq_some_iff.mp
          (Analyzers.terms?_own (hanalyzed f hf) hindexed (hanalyzer.trans hstrategy) hown)
        obtain ⟨hfits, hfilters⟩ := hspares name analyzer hstrategy hknown
        rw [← hterms]
        simpa [Analysis.relativeTerms] using Analysis.analyze_ne_nil hnumeral hfits hfilters
  intro hnone
  exact hleft (by rw [AnalyzedField.relativeTerms, hnone, List.map_nil])

omit hcatalog hanalyzers in
/-- Without an analyzer, exactly the documents with the text under the name are found. -/
theorem satisfies_term_iff (hstrategy : strategy.analyzer? = none) (hheld : held ∈ entries)
    (text : String) :
    InvertedIndex.satisfies held.fields (.term path text) = true ↔
      ∃ value ∈ held.json.valuesAt path, Strategy.scalarText? value = some text := by
  have hmade := hholds.made held hheld
  have hterm : ∀ own, strategy.fieldOf path own = .term path own := by
    intro own
    cases strategy <;> first | rfl | cases hstrategy
  have hplaced : ∀ {f : AnalyzedField} {own : String}, f.field = .term path own →
      f.placedTerms = [(own, 0)] := by
    intro f own hfield
    simp [AnalyzedField.placedTerms, hfield, Field.term]
  rw [InvertedIndex.satisfies, InvertedIndex.hasTerm, List.any_eq_true]
  simp only [Bool.and_eq_true, List.any_eq_true, beq_iff_eq]
  constructor
  · rintro ⟨f, hf, hhas, entry, hentry, rfl⟩
    simp only [AnalyzedField.hasTermsOf, Bool.and_eq_true, beq_iff_eq] at hhas
    obtain ⟨projections, hbuilt, projection, hprojection, hown⟩ :=
      hmade.exists_projection hf hhas.1.1
    obtain ⟨value, hvalue, own, htext, hfield⟩ :=
      hholds.eq_fieldOf htextual honly hheld hbuilt hprojection hown hhas.1.2.symm
    rw [hplaced (hfield.trans (hterm own)), List.mem_singleton] at hentry
    exact ⟨value, hvalue, by rw [hentry, htext]⟩
  · rintro ⟨value, hvalue, htext⟩
    obtain ⟨f, hf, hfield⟩ := hmade.mem_document.mp
      (hholds.fieldOf_mem_document htextual honly hheld hvalue htext)
    rw [hterm] at hfield
    refine ⟨f, hf, ?_, (text, 0), ?_, rfl⟩
    · simp [AnalyzedField.hasTermsOf, hfield, Field.term, FieldValue.kind, FieldKind.isLexical]
    · rw [hplaced hfield]
      exact List.mem_singleton_self _

end Textual

/--
**A number that was indexed as text is found where a query writes it alike.**  Take a new store of
which any requests were made, and a path under which everything was made by one strategy of terms or
texts.  The query for a number there, given as an integer or a double, is planned.  It finds each
live document with a value at the path that is written alike, if the strategy has no analyzer, or
one that spares numerals as those do that are always there.  Without an analyzer it finds exactly
the documents with a value of that text; so a double that is the only value at the path is found by
itself or by an integer just if it is written alike, which a double that is an integer is not.
-/
theorem matching_number_text (builder : DocumentBuilder) (next : IdentifierSupply)
    (requests : List WriteRequest) (edits : List Edit)
    (hedits : builder.convert next requests = .ok edits) (context : PlanContext)
    (hcatalog : context.catalog = (builder.storeOf edits).catalog)
    (hanalyzers : context.analyzers = builder.analyzers) (conventions : Conventions)
    (path : String) (strategy : Strategy) (htextual : strategy.isTextual = true)
    (honly : builder.NotesOnly (builder.prepared next requests) path strategy)
    (literal : Value) (hliteral : literal.isNumber = true) :
    ∃ lookup, context.plan ((Tree.compare path .equals literal).simplify conventions)
        = .ok (lookup, none) ∧
      ∀ doc ∈ (builder.storeOf edits).writer.index.live,
        ∃ json, (builder.prepared next requests)[doc]? = some json ∧
          (∀ value ∈ json.valuesAt path, WrittenAlike value literal →
            strategy.Spares builder.analyzers literal.write →
            doc ∈ (builder.storeOf edits).writer.index.matching lookup) ∧
          (strategy = .identity →
            (doc ∈ (builder.storeOf edits).writer.index.matching lookup ↔
              ∃ value ∈ json.valuesAt path, Strategy.scalarText? value = some literal.write)) ∧
          (strategy = .identity → ∀ x, x.isFinite = true → json.valuesAt path = [.double x] →
            (literal = .number x ∨ ∃ n, literal = .integer n) →
            (doc ∈ (builder.storeOf edits).writer.index.matching lookup ↔
              WrittenAlike (.double x) literal)) := by
  obtain ⟨entries, hholds, hjson⟩ := DocumentStore.Holds.storeOf hedits
  rw [← hjson] at honly ⊢
  obtain ⟨terms, hasked, hterms⟩ :=
    exists_askedTerms hholds htextual honly hcatalog hanalyzers literal.write
  have hexact : context.exact path literal none
      = .ok (InvertedIndex.lookupOf path terms 0) := by
    rw [exact_number hliteral (hcatalog ▸ hholds.resolve_ne_numeric htextual honly)]
    exact analysed_eq hasked 0
  have hclause : context.clause ⟨some path, .equals, literal, []⟩ none
      = .ok (.includes (InvertedIndex.lookupOf path terms 0)) := bind_eq_ok.mpr ⟨_, hexact, rfl⟩
  refine ⟨_, plan_clause hclause conventions, fun doc hlive => ?_⟩
  obtain ⟨held, hentry, hisLive⟩ := hholds.mem_live.mp hlive
  have hheld := List.mem_of_getElem? hentry
  have hfound := hholds.mem_matching_iff hentry hisLive (InvertedIndex.lookupOf path terms 0)
  have hterm : strategy = .identity →
      (doc ∈ (builder.storeOf edits).writer.index.matching (InvertedIndex.lookupOf path terms 0) ↔
        ∃ value ∈ held.json.valuesAt path, Strategy.scalarText? value = some literal.write) := by
    rintro rfl
    rw [hfound, hterms rfl]
    exact satisfies_term_iff hholds htextual honly rfl hheld literal.write
  refine ⟨held.json, by rw [List.getElem?_map, hentry]; rfl, ?_, hterm, ?_⟩
  · intro value hvalue halike hspares
    exact hfound.mpr (satisfies_of_text hholds htextual honly hcatalog hanalyzers hheld
      halike.isNumeral hspares hvalue halike.scalarText? hasked)
  · intro hidentity x hfinite hvalues hsame
    rw [hterm hidentity, hvalues, ← scalarText?_double_iff hfinite hsame]
    simp

/-- Documents with numbers for identities, and with weights that are indexed as text. -/
def parcels : List WriteRequest :=
  [.create (.object [("$id", .double ⟨0x3FE0000000000000⟩), ("weight", .double ⟨0x4004000000000000⟩)]),
    .create (.object [("$id", .int 7), ("weight", .int 12)]),
    .create (.object [("$id", .double ⟨0x3FF0000000000000⟩), ("weight", .int (-3))])]

/-- The builder that the example is built with. -/
def parcelBuilder : DocumentBuilder :=
  let config := { Config.default with sourceCompression := .none }
  ⟨config, (FieldConfiguration.ofConfig config).set ⟨"document", "weight"⟩ (.text "standard"),
    Analyzers.builtIn⟩

/-- The edits that they are converted to. -/
def parcelEdits : List Edit := ((parcelBuilder.convert 0 parcels).toOption).getD []

/-- The store of the parcels is searched. -/
def parcelContext : PlanContext :=
  ⟨(parcelBuilder.storeOf parcelEdits).catalog, Analyzers.builtIn, ⟨0, 0, 0⟩, 0, 0⟩

theorem notesOnly_parcels :
    parcelBuilder.NotesOnly (parcelBuilder.prepared 0 parcels) "$id" .identity ∧
      parcelBuilder.NotesOnly (parcelBuilder.prepared 0 parcels) "weight" (.text "standard") := by
  have hedits : parcelBuilder.convert 0 parcels = .ok parcelEdits := rfl
  simp only [DocumentBuilder.NotesOnly, DocumentStore.notes_iff_mem_observations hedits]
  decide +kernel

/-- The identity one half is found by itself, and the weight 12 as a double. -/
theorem matching_number_text_parcels :
    let documents := parcelBuilder.prepared 0 parcels
    let index := (parcelBuilder.storeOf parcelEdits).writer.index
    let asks := fun path literal => parcelContext.plan
      ((Tree.compare path .equals literal).simplify Config.default.conventions)
    parcelBuilder.convert 0 parcels = .ok parcelEdits ∧
      parcelBuilder.NotesOnly documents "$id" .identity ∧
      parcelBuilder.NotesOnly documents "weight" (.text "standard") ∧
      (∃ lookup, asks "$id" (.number ⟨0x3FE0000000000000⟩) = .ok (lookup, none) ∧
        0 ∈ index.matching lookup ∧ 1 ∉ index.matching lookup) ∧
      ∃ lookup, asks "weight" (.number (Double.ofInt 12)) = .ok (lookup, none) ∧
        1 ∈ index.matching lookup := by
  intro documents index asks
  have hedits : parcelBuilder.convert 0 parcels = .ok parcelEdits := rfl
  obtain ⟨hids, hweights⟩ := notesOnly_parcels
  have hlive : index.live = [0, 1, 2] := by decide +kernel
  have hfind := matching_number_text parcelBuilder 0 parcels parcelEdits hedits parcelContext rfl rfl
    Config.default.conventions
  refine ⟨hedits, hids, hweights, ?_, ?_⟩
  · obtain ⟨lookup, hplan, hfound⟩ :=
      hfind "$id" .identity rfl hids (.number ⟨0x3FE0000000000000⟩) rfl
    refine ⟨lookup, hplan, ?_, ?_⟩
    · obtain ⟨json, hjson, -, -, hdouble⟩ := hfound 0 (by rw [hlive]; decide)
      obtain rfl := Option.some.inj hjson
      exact (hdouble rfl ⟨0x3FE0000000000000⟩ rfl rfl (.inl rfl)).mpr
        (.fraction _ rfl (by decide +kernel) (by decide +kernel))
    · obtain ⟨json, hjson, -, htext, -⟩ := hfound 1 (by rw [hlive]; decide)
      obtain rfl := Option.some.inj hjson
      exact mt (htext rfl).mp (by decide +kernel)
  · obtain ⟨lookup, hplan, hfound⟩ :=
      hfind "weight" (.text "standard") rfl hweights (.number (Double.ofInt 12)) rfl
    refine ⟨lookup, hplan, ?_⟩
    obtain ⟨json, hjson, halike, -⟩ := hfound 1 (by rw [hlive]; decide)
    obtain rfl := Option.some.inj hjson
    refine halike (.int 12) (List.mem_singleton_self _) (.whole 12 (by decide)) ?_
    rintro name analyzer hname hknown
    obtain rfl := Option.some.inj hname
    obtain rfl := Option.some.inj hknown
    exact ⟨by decide +kernel, rfl⟩

/-- The identity of the last parcel is the double one, and it is not found by the double one. -/
theorem whole_double_not_found :
    parcelBuilder.convert 0 parcels = .ok parcelEdits ∧
      parcelBuilder.NotesOnly (parcelBuilder.prepared 0 parcels) "$id" .identity ∧
      2 ∈ (parcelBuilder.storeOf parcelEdits).writer.index.live ∧
      ((parcelBuilder.prepared 0 parcels)[2]?.map fun json => json.valuesAt "$id")
        = some [.double ⟨0x3FF0000000000000⟩] ∧
      ∃ lookup, parcelContext.plan ((Tree.compare "$id" .equals
          (.number ⟨0x3FF0000000000000⟩)).simplify Config.default.conventions) = .ok (lookup, none) ∧
        2 ∉ (parcelBuilder.storeOf parcelEdits).writer.index.matching lookup :=
  ⟨rfl, notesOnly_parcels.1, by decide +kernel, rfl,
    .term "$id" (Value.number ⟨0x3FF0000000000000⟩).write, rfl, by decide +kernel⟩

end Query.PlanContext

end DocIndex
