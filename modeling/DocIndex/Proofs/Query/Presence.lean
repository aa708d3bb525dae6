/-
Asking whether a field has a value.

The index keeps terms and numbers apart, and the question is put to one of them: to the ticks if
a date was noted of the name, to the numbers if a number was, and to the terms otherwise.  What
was noted is the work of all documents, so a document with a value of another kind is passed over
once the kinds are mixed.  A name of which only one kind was noted has a value in a document
exactly if the question finds the document.
-/
import DocIndex.Proofs.Query.OwnText
import DocIndex.Proofs.Schema.Resolving

namespace DocIndex

open InvertedIndex (AnalyzedField)
open Query (ticksField)

/-! ### The terms and numbers of a document -/

/-- A star stands for every text without a line feed. -/
theorem Pattern.fits_star (text : List Char) : (ofText "*").fits text = text.all isOpen := by
  show fitsAfterAny (fits []) text = _
  induction text with
  | nil => rfl
  | cons c text ih => rw [fitsAfterAny, ih, List.all_cons]; rfl

namespace InvertedIndex

variable {fields : List AnalyzedField} {name : String}

/-- The terms of a field of a document. -/
def termsIn (fields : List AnalyzedField) (name : String) : List String :=
  (fields.filter fun f => f.hasTermsOf name).flatMap fun f => f.placedTerms.map Prod.fst

theorem hasTerm_eq_any (fields : List AnalyzedField) (name : String) (test : String → Bool) :
    hasTerm fields name test = (termsIn fields name).any test := by
  simp only [hasTerm, termsIn, List.any_flatMap, List.any_filter, List.any_map]
  rfl

theorem satisfies_star (fields : List AnalyzedField) (name : String)
    (h : ∀ term ∈ termsIn fields name, '\n' ∉ term.toList) :
    satisfies fields (.wildcard name "*") = true ↔ termsIn fields name ≠ [] := by
  have hall : ∀ term ∈ termsIn fields name, (Pattern.ofText "*").fits term.toList = true := by
    intro term hterm
    rw [Pattern.fits_star, List.all_eq_true]
    intro c hc
    exact bne_iff_ne.mpr fun heq => h term hterm (heq ▸ hc)
  rw [satisfies, hasTerm_eq_any, List.any_eq_true]
  constructor
  · rintro ⟨term, hterm, -⟩
    exact List.ne_nil_of_mem hterm
  · intro hne
    obtain ⟨term, hterm⟩ := List.exists_mem_of_ne_nil _ hne
    exact ⟨term, hterm, hall term hterm⟩

theorem satisfies_unbounded (fields : List AnalyzedField) (name : String) :
    satisfies fields (.numbers name .unbounded) = true ↔ numbersIn fields name ≠ [] := by
  rw [satisfies, List.any_eq_true]
  constructor
  · rintro ⟨n, hn, -⟩
    exact List.ne_nil_of_mem hn
  · intro hne
    obtain ⟨n, hn⟩ := List.exists_mem_of_ne_nil _ hne
    exact ⟨n, hn, rfl⟩

theorem numbersIn_ne_nil : numbersIn fields name ≠ [] ↔
    ∃ f ∈ fields, f.field.indexed = true ∧ f.field.name = name ∧ f.field.kind.isNumeric = true := by
  constructor
  · intro hne
    obtain ⟨n, hn⟩ := List.exists_mem_of_ne_nil _ hne
    obtain ⟨f, hf, hnumber⟩ := List.mem_filterMap.mp hn
    unfold AnalyzedField.number? at hnumber
    split at hnumber
    · rename_i hnamed
      obtain ⟨hindexed, hname⟩ := Bool.and_eq_true_iff.mp hnamed
      refine ⟨f, hf, hindexed, (beq_iff_eq.mp hname).symm, ?_⟩
      unfold Field.kind
      cases hvalue : f.field.value <;> simp_all [FieldValue.kind, FieldKind.isNumeric]
    · cases hnumber
  · rintro ⟨f, hf, hindexed, rfl, hkind⟩
    obtain ⟨n, hn⟩ : ∃ n, f.number? f.field.name = some n := by
      unfold Field.kind at hkind
      cases hvalue : f.field.value <;>
        simp_all [AnalyzedField.number?, FieldValue.kind, FieldKind.isNumeric]
    exact List.ne_nil_of_mem (List.mem_filterMap.mpr ⟨f, hf, hn⟩)

theorem exists_field_of_termsIn (h : termsIn fields name ≠ []) :
    ∃ f ∈ fields, f.field.indexed = true ∧ f.field.name = name ∧ f.field.kind.isLexical = true := by
  obtain ⟨term, hterm⟩ := List.exists_mem_of_ne_nil _ h
  obtain ⟨f, hf, -⟩ := List.mem_flatMap.mp hterm
  obtain ⟨hmem, hterms⟩ := List.mem_filter.mp hf
  simp only [AnalyzedField.hasTermsOf, Bool.and_eq_true, beq_iff_eq] at hterms
  exact ⟨f, hmem, hterms.1.1, hterms.1.2.symm, hterms.2⟩

/-- An exact term is a term of its field. -/
theorem termsIn_ne_nil {f : AnalyzedField} (hf : f ∈ fields) {term : String}
    (hfield : f.field = .term name term) : termsIn fields name ≠ [] := by
  have hterms : f.hasTermsOf name = true := by
    simp [AnalyzedField.hasTermsOf, hfield, Field.term, FieldValue.kind, FieldKind.isLexical]
  have hplaced : f.placedTerms = [(term, 0)] := by
    simp [AnalyzedField.placedTerms, hfield, Field.term]
  refine List.ne_nil_of_mem (a := term) (List.mem_flatMap.mpr
    ⟨f, List.mem_filter.mpr ⟨hf, hterms⟩, ?_⟩)
  rw [hplaced]
  exact List.mem_singleton_self _

end InvertedIndex

open InvertedIndex (termsIn numbersIn)

/-! ### What was noted of a name -/

theorem FieldKind.isLexical_of_isNumeric {kind : FieldKind} (h : kind.isNumeric = true) :
    kind.isLexical = false := by
  rcases eq_of_isNumeric h with rfl | rfl <;> rfl

theorem FieldInfo.IsDate.isNumeric {info : FieldInfo} (h : info.IsDate) :
    info.kind.isNumeric = false := by
  by_contra hnumeric
  have hlexical := FieldKind.isLexical_of_isNumeric (by simpa using hnumeric)
  rw [h.2] at hlexical
  cases hlexical

namespace DocumentBuilder

variable (builder : DocumentBuilder) (documents : List Json) (name : String)

/-- The searched fields of a document, with their tokens. -/
def analyzed (json : Json) : List AnalyzedField :=
  match builder.build json with
  | .ok built => ((InvertedIndex.analyze builder.analyzers built.document).toOption).getD []
  | .error _ => []

/-- Some document shows this of a field with the name. -/
def Notes (info : FieldInfo) : Prop :=
  info.fieldName = name ∧ ∃ json ∈ documents, ∃ built,
    builder.build json = .ok built ∧ info ∈ built.infos

/-- A date was noted of the name, and its ticks with it. -/
def NotesDates : Prop :=
  ∃ info, builder.Notes documents name info ∧ info.IsDate ∧ info.strategy = Strategy.dateTime.name

/-- A number was noted of the name, and no date. -/
def NotesNumbers : Prop :=
  (∀ info, builder.Notes documents name info → ¬ info.IsDate) ∧
    ∃ info, builder.Notes documents name info ∧ info.kind.isNumeric = true

/-- No more than terms were noted of the name. -/
def NotesTerms : Prop :=
  ∀ info, builder.Notes documents name info → ¬ info.IsDate ∧ info.kind.isNumeric = false

/-- What was noted of the name is of one kind. -/
inductive NotesOneKind : Prop
  | terms (h : builder.NotesTerms documents name)
  | numbers (h : ∀ info, builder.Notes documents name info → info.kind.isNumeric = true)
  /-- The ticks are those of the dates, and no values of their own. -/
  | dates
      (h : ∀ info, builder.Notes documents name info →
        info.IsDate ∧ info.strategy = Strategy.dateTime.name)
      (hown : ∀ json ∈ documents, ∀ part ∈ json.parts "", part.1 ≠ ticksField name)

end DocumentBuilder

namespace DocumentStore.Holds

variable {builder : DocumentBuilder} {store : DocumentStore} {entries : List Held} {name : String}

/-- The catalog has what was noted of a name. -/
theorem mem_observations_iff_notes (hholds : store.Holds builder entries) {info : FieldInfo} :
    info ∈ store.catalog.observations name none ↔
      builder.Notes (entries.map Held.json) name info := by
  rw [hholds.mem_observations]
  refine and_congr_right fun _ => ?_
  constructor
  · rintro ⟨held, hheld, hinfo⟩
    exact ⟨_, List.mem_map_of_mem hheld, _, (hholds.made held hheld).build, hinfo⟩
  · rintro ⟨_, hjson, built, hbuild, hinfo⟩
    obtain ⟨held, hheld, rfl⟩ := List.mem_map.mp hjson
    obtain rfl := Except.ok.inj ((hholds.made held hheld).build.symm.trans hbuild)
    exact ⟨held, hheld, hinfo⟩

end DocumentStore.Holds

/-- What was noted of a name is what a new store observes of it. -/
theorem DocumentStore.notes_iff_mem_observations {builder : DocumentBuilder}
    {next : IdentifierSupply} {requests : List WriteRequest} {edits : List Edit}
    (hedits : builder.convert next requests = .ok edits) {name : String} {info : FieldInfo} :
    builder.Notes (builder.prepared next requests) name info ↔
      info ∈ (builder.storeOf edits).catalog.observations name none := by
  obtain ⟨entries, hholds, hjson⟩ := DocumentStore.Holds.storeOf hedits
  rw [← hjson]
  exact hholds.mem_observations_iff_notes.symm

namespace DocumentStore.Holds

variable {builder : DocumentBuilder} {store : DocumentStore} {entries : List Held} {name : String}

theorem resolve_of_notesDates (hholds : store.Holds builder entries)
    (h : builder.NotesDates (entries.map Held.json) name) :
    store.catalog.resolve name none = .date := by
  obtain ⟨info, hinfo, hdate, -⟩ := h
  have hmem := hholds.mem_observations_iff_notes.mpr hinfo
  by_contra huse
  exact (store.catalog.describes_resolve name none).not_isDate huse info hmem hdate

theorem resolve_of_notesNumbers (hholds : store.Holds builder entries)
    (h : builder.NotesNumbers (entries.map Held.json) name) :
    ∃ kind, store.catalog.resolve name none = .numeric kind := by
  obtain ⟨hdates, info, hinfo, hkind⟩ := h
  have hdescribes := store.catalog.describes_resolve name none
  cases huse : store.catalog.resolve name none with
  | numeric kind => exact ⟨kind, rfl⟩
  | date =>
      rw [huse] at hdescribes
      obtain ⟨date, hmem, his⟩ := hdescribes
      exact absurd his (hdates date (hholds.mem_observations_iff_notes.mp hmem))
  | lexical =>
      rw [huse] at hdescribes
      have hnone := (hdescribes.2 info (hholds.mem_observations_iff_notes.mpr hinfo)).2
      rw [hkind] at hnone
      cases hnone
  | unknown =>
      rw [huse] at hdescribes
      exact absurd (hholds.mem_observations_iff_notes.mpr hinfo) (hdescribes info)

theorem resolve_of_notesTerms (hholds : store.Holds builder entries)
    (h : builder.NotesTerms (entries.map Held.json) name) :
    store.catalog.resolve name none = .lexical ∨ store.catalog.resolve name none = .unknown := by
  have hdescribes := store.catalog.describes_resolve name none
  cases huse : store.catalog.resolve name none with
  | lexical => exact .inl rfl
  | unknown => exact .inr rfl
  | date =>
      rw [huse] at hdescribes
      obtain ⟨date, hmem, his⟩ := hdescribes
      exact absurd his (h date (hholds.mem_observations_iff_notes.mp hmem)).1
  | numeric kind =>
      rw [huse] at hdescribes
      obtain ⟨-, hnumeric, number, hmem, rfl⟩ := hdescribes
      have hnone := (h number (hholds.mem_observations_iff_notes.mp hmem)).2
      rw [hnumeric] at hnone
      cases hnone

end DocumentStore.Holds

/-! ### The ticks of dates -/

namespace Strategy

variable {strategy : Strategy} {value : Json} {path : String} {type : JsonType}
  {fields : List Field} {field : Field}

/-- A field with terms that a date is projected to is its text, and its ticks stand beside it. -/
theorem exists_ticks (h : dateTime.fields? value path = some (type, fields))
    (hfield : field ∈ fields) (hlexical : field.kind.isLexical = true) :
    field.name = path ∧ ∃ ticks, Field.long (ticksField path) ticks ∈ fields := by
  obtain ⟨m, -, heq⟩ := Option.bind_eq_some_iff.mp h
  obtain ⟨-, rfl⟩ := Prod.mk.inj (Option.some.inj heq)
  refine ⟨?_, m.ticks, by simp [dateFields, ticksField]⟩
  simp only [dateFields, List.mem_cons, List.not_mem_nil, or_false] at hfield
  rcases hfield with rfl | rfl | rfl | rfl | rfl | rfl | rfl
  · rfl
  all_goals cases hlexical

/-- A name is shorter than that of its ticks. -/
theorem ticksField_ne (path : String) : path ≠ ticksField path := by
  intro heq
  have hlength := congrArg String.length heq
  have hmark : ".@".length = 2 := rfl
  simp only [ticksField, Field.derivedName, String.length_append] at hlength
  omega

/-- Ticks stand beside a term with the name of the path. -/
theorem exists_term_of_ticks (h : strategy.fields? value path = some (type, fields))
    (hfield : field ∈ fields) (hname : field.name = ticksField path) :
    ∃ term, Field.term path term ∈ fields := by
  cases strategy
  case dateTime =>
    obtain ⟨m, -, heq⟩ := Option.bind_eq_some_iff.mp h
    obtain ⟨-, rfl⟩ := Prod.mk.inj (Option.some.inj heq)
    exact ⟨_, List.mem_cons_self⟩
  case timeSpan =>
    obtain ⟨raw, -, hraw⟩ := Option.bind_eq_some_iff.mp h
    obtain ⟨span, -, heq⟩ := Option.bind_eq_some_iff.mp hraw
    obtain ⟨-, rfl⟩ := Prod.mk.inj (Option.some.inj heq)
    exact ⟨_, List.mem_cons_self⟩
  case array =>
    simp only [fields?] at h
    split at h
    · obtain ⟨-, rfl⟩ := Prod.mk.inj (Option.some.inj h)
      rw [List.mem_singleton.mp hfield] at hname
      have hsegment := congrArg Field.lastSegment hname
      rw [Field.long, ticksField, Field.lastSegment_derivedName _ (by decide),
        Field.lastSegment_derivedName _ (by decide)] at hsegment
      cases hsegment
    · cases h
  -- The other strategies make a single field, with the path as its name.
  case null | undefined =>
    obtain ⟨-, rfl⟩ := Prod.mk.inj (Option.some.inj h)
    rw [List.mem_singleton.mp hfield] at hname
    exact absurd hname (ticksField_ne path)
  all_goals
    obtain ⟨_, -, heq⟩ := Option.map_eq_some_iff.mp h
    obtain ⟨-, rfl⟩ := Prod.mk.inj heq
    rw [List.mem_singleton.mp hfield] at hname
    exact absurd hname (ticksField_ne path)

end Strategy

/-- Strategies with the same name as that of dates are it. -/
theorem Strategy.eq_dateTime {strategy : Strategy} (h : strategy.name = dateTime.name) :
    strategy = dateTime := by
  cases strategy
  case dateTime => rfl
  all_goals simp [name] at h

/-- A path with ticks of a name is that name. -/
theorem Field.eq_of_derivedName_eq {path name part : String} (hpart : '.' ∉ part.toList)
    (h : derivedName path part = ticksField name) : path = name := by
  have hsegment := congrArg lastSegment h
  rw [ticksField, lastSegment_derivedName _ hpart, lastSegment_derivedName _ (by decide)]
    at hsegment
  have hticks : part = "ticks" := String.toList_inj.mp (List.cons.inj hsegment).2
  rw [hticks] at h
  simpa [ticksField, derivedName] using h

namespace DocumentBuilder

variable {builder : DocumentBuilder} {json : Json} {built : BuiltDocument}
  {projections : List Projection}

/-- A projection says by which strategy its fields were made of a part of the document. -/
theorem BuiltBy.exists_strategy (h : builder.BuiltBy json built projections)
    {projection : Projection} (hprojection : projection ∈ projections) :
    ∃ part ∈ json.parts "", ∃ strategy : Strategy, strategy.name = projection.strategy ∧
      strategy.fields? part.2 part.1 = some (projection.jsonType, projection.fields) := by
  obtain ⟨part, hpart, group, hgroup, hmem⟩ := (h.parts.mem_iff projection).mp hprojection
  exact ⟨part, hpart, exists_strategy_of_project hgroup projection hmem⟩

end DocumentBuilder

namespace Held.Made

variable {builder : DocumentBuilder} {held : Held} {name : String}

theorem fields_eq (h : held.Made builder) : held.fields = builder.analyzed held.json := by
  rw [DocumentBuilder.analyzed, h.build]
  simp [h.analyze, Except.toOption]

/-- A searched field of a document was projected. -/
theorem exists_projection (h : held.Made builder) {f : AnalyzedField} (hf : f ∈ held.fields)
    (hindexed : f.field.indexed = true) : ∃ projections,
      builder.BuiltBy held.json held.built projections ∧
        ∃ projection ∈ projections, f.field ∈ projection.fields := by
  obtain ⟨projections, hbuilt⟩ := DocumentBuilder.builtBy h.build
  exact ⟨projections, hbuilt, (hbuilt.mem_document hindexed).mp (h.mem_document.mpr ⟨f, hf, rfl⟩)⟩

/-- Where dates were noted only, a document with a term has ticks. -/
theorem numbersIn_ticks_ne_nil (h : held.Made builder)
    (hdates : ∀ info ∈ held.built.infos, info.fieldName = name →
      info.strategy = Strategy.dateTime.name) (hterms : termsIn held.fields name ≠ []) :
    numbersIn held.fields (ticksField name) ≠ [] := by
  obtain ⟨f, hf, hindexed, rfl, hlexical⟩ := InvertedIndex.exists_field_of_termsIn hterms
  obtain ⟨projections, hbuilt, projection, hprojection, hfield⟩ := h.exists_projection hf hindexed
  have hinfo := (hbuilt.mem_infos _).mpr ⟨projection, hprojection, f.field, hfield, rfl⟩
  obtain ⟨part, -, strategy, hstrategy, hfields⟩ := hbuilt.exists_strategy hprojection
  obtain rfl := Strategy.eq_dateTime (hstrategy.trans (hdates _ hinfo rfl))
  obtain ⟨hname, ticks, hticks⟩ := Strategy.exists_ticks hfields hfield hlexical
  obtain ⟨g, hg, heq⟩ := h.mem_document.mp
    ((hbuilt.mem_document rfl).mpr ⟨projection, hprojection, hticks⟩)
  exact InvertedIndex.numbersIn_ne_nil.mpr ⟨g, hg, by rw [heq]; rfl, by rw [heq, hname]; rfl,
    by rw [heq]; rfl⟩

/-- A document with ticks that are no value of their own has a term. -/
theorem termsIn_ne_nil (h : held.Made builder)
    (hown : ∀ part ∈ held.json.parts "", part.1 ≠ ticksField name)
    (hticks : numbersIn held.fields (ticksField name) ≠ []) : termsIn held.fields name ≠ [] := by
  obtain ⟨f, hf, hindexed, hname, -⟩ := InvertedIndex.numbersIn_ne_nil.mp hticks
  obtain ⟨projections, hbuilt, projection, hprojection, hfield⟩ := h.exists_projection hf hindexed
  obtain ⟨part, hpart, strategy, -, hfields⟩ := hbuilt.exists_strategy hprojection
  rcases Strategy.namedFor_of_fields? hfields f.field hfield with hwhole | ⟨part', hdot, hderived⟩
  · exact absurd (hwhole.symm.trans hname) (hown part hpart)
  · have hpath := Field.eq_of_derivedName_eq hdot (hderived.symm.trans hname)
    obtain ⟨term, hterm⟩ := Strategy.exists_term_of_ticks hfields hfield (hpath ▸ hname)
    obtain ⟨g, hg, heq⟩ := h.mem_document.mp
      ((hbuilt.mem_document rfl).mpr ⟨projection, hprojection, hterm⟩)
    exact InvertedIndex.termsIn_ne_nil hg (hpath ▸ heq)

end Held.Made

/-! ### What documents have, and what was noted -/

namespace DocumentStore.Holds

variable {builder : DocumentBuilder} {store : DocumentStore} {entries : List Held} {held : Held}
  {name : String}

/-- A searched field of a document was noted. -/
theorem exists_noted (hholds : store.Holds builder entries) (hheld : held ∈ entries)
    {f : AnalyzedField} (hf : f ∈ held.fields) (hindexed : f.field.indexed = true) :
    ∃ info, builder.Notes (entries.map Held.json) f.field.name info ∧
      info.kind = f.field.kind := by
  obtain ⟨info, hinfo, hkind⟩ := hholds.exists_info hheld
    ((hholds.made held hheld).mem_document.mpr ⟨f, hf, rfl⟩) hindexed
  exact ⟨info, hholds.mem_observations_iff_notes.mp hinfo, hkind⟩

theorem numbersIn_eq_nil (hholds : store.Holds builder entries) (hheld : held ∈ entries)
    (h : ∀ info, builder.Notes (entries.map Held.json) name info → info.kind.isNumeric = false) :
    numbersIn held.fields name = [] := by
  by_contra hne
  obtain ⟨f, hf, hindexed, rfl, hnumeric⟩ := InvertedIndex.numbersIn_ne_nil.mp hne
  obtain ⟨info, hnoted, hkind⟩ := hholds.exists_noted hheld hf hindexed
  rw [← hkind, h info hnoted] at hnumeric
  cases hnumeric

theorem termsIn_eq_nil (hholds : store.Holds builder entries) (hheld : held ∈ entries)
    (h : ∀ info, builder.Notes (entries.map Held.json) name info → info.kind.isNumeric = true) :
    termsIn held.fields name = [] := by
  by_contra hne
  obtain ⟨f, hf, hindexed, rfl, hlexical⟩ := InvertedIndex.exists_field_of_termsIn hne
  obtain ⟨info, hnoted, hkind⟩ := hholds.exists_noted hheld hf hindexed
  rw [← hkind, FieldKind.isLexical_of_isNumeric (h info hnoted)] at hlexical
  cases hlexical

/-- Of dates a document has the ticks exactly if it has the terms. -/
theorem ticks_iff_terms (hholds : store.Holds builder entries) (hheld : held ∈ entries)
    (hdates : ∀ info, builder.Notes (entries.map Held.json) name info →
      info.IsDate ∧ info.strategy = Strategy.dateTime.name)
    (hown : ∀ json ∈ entries.map Held.json, ∀ part ∈ json.parts "", part.1 ≠ ticksField name) :
    numbersIn held.fields (ticksField name) ≠ [] ↔ termsIn held.fields name ≠ [] := by
  have hmade := hholds.made held hheld
  have hjson := List.mem_map_of_mem (f := Held.json) hheld
  refine ⟨hmade.termsIn_ne_nil (hown _ hjson), hmade.numbersIn_ticks_ne_nil ?_⟩
  exact fun info hinfo hname => (hdates info ⟨hname, _, hjson, _, hmade.build, hinfo⟩).2

/-- What a document has under a name of one kind is of the kind that is asked for. -/
theorem cases_of_notesOneKind (hholds : store.Holds builder entries) (hheld : held ∈ entries)
    (h : builder.NotesOneKind (entries.map Held.json) name) :
    (builder.NotesTerms (entries.map Held.json) name ∧ numbersIn held.fields name = []) ∨
      (builder.NotesNumbers (entries.map Held.json) name ∧ termsIn held.fields name = []) ∨
      (builder.NotesDates (entries.map Held.json) name ∧ numbersIn held.fields name = [] ∧
        (numbersIn held.fields (ticksField name) ≠ [] ↔ termsIn held.fields name ≠ [])) := by
  by_cases hsome : ∃ info, builder.Notes (entries.map Held.json) name info
  · obtain ⟨info, hinfo⟩ := hsome
    cases h with
    | terms h =>
        exact .inl ⟨h, hholds.numbersIn_eq_nil hheld fun other hother => (h other hother).2⟩
    | numbers h =>
        refine .inr (.inl ⟨⟨fun other hother hdate => ?_, info, hinfo, h info hinfo⟩,
          hholds.termsIn_eq_nil hheld h⟩)
        exact Bool.false_ne_true (hdate.isNumeric.symm.trans (h other hother))
    | dates h hown =>
        exact .inr (.inr ⟨⟨info, hinfo, h info hinfo⟩,
          hholds.numbersIn_eq_nil hheld fun other hother => (h other hother).1.isNumeric,
          hholds.ticks_iff_terms hheld h hown⟩)
  · -- Nothing was noted, so there are no numbers, and the terms are asked for.
    have hterms : builder.NotesTerms (entries.map Held.json) name :=
      fun info hinfo => absurd ⟨info, hinfo⟩ hsome
    exact .inl ⟨hterms, hholds.numbersIn_eq_nil hheld fun info hinfo => (hterms info hinfo).2⟩

end DocumentStore.Holds

/-! ### The question -/

namespace Query.PlanContext

/-- The question for any value is planned for the kind that was noted. -/
theorem exists_exact_everything {builder : DocumentBuilder} {store : DocumentStore}
    {entries : List Held} (hholds : store.Holds builder entries) {context : PlanContext}
    (hcatalog : context.catalog = store.catalog) (name : String) :
    ∃ lookup, context.exact name .everything none = .ok lookup ∧
      (builder.NotesDates (entries.map Held.json) name →
        lookup = .numbers (ticksField name) .unbounded) ∧
      (builder.NotesNumbers (entries.map Held.json) name → lookup = .numbers name .unbounded) ∧
      (builder.NotesTerms (entries.map Held.json) name → lookup = .wildcard name "*") := by
  have hdates (h : builder.NotesDates _ name) := hholds.resolve_of_notesDates h
  have hnumbers (h : builder.NotesNumbers _ name) := hholds.resolve_of_notesNumbers h
  have hterms (h : builder.NotesTerms _ name) := hholds.resolve_of_notesTerms h
  cases huse : store.catalog.resolve name none with
  | numeric kind =>
      exact ⟨.numbers name .unbounded, by simp [exact, Value.instant?, hcatalog, huse],
        by simp_all, fun _ => rfl, by simp_all⟩
  | date =>
      exact ⟨.numbers (ticksField name) .unbounded, by simp [exact, Value.instant?, hcatalog, huse],
        fun _ => rfl, by simp_all, by simp_all⟩
  | lexical | unknown =>
      exact ⟨.wildcard name "*", by simp [exact, Value.instant?, hcatalog, huse],
        by simp_all, by simp_all, fun _ => rfl⟩

/-- A document is found by the kind of its values, going by what all documents noted. -/
structure FoundByKind (builder : DocumentBuilder) (documents : List Json) (name : String)
    (json : Json) (found : Prop) : Prop where
  dates : builder.NotesDates documents name →
    (found ↔ numbersIn (builder.analyzed json) (ticksField name) ≠ [])
  numbers : builder.NotesNumbers documents name →
    (found ↔ numbersIn (builder.analyzed json) name ≠ [])
  terms : builder.NotesTerms documents name →
    (∀ term ∈ termsIn (builder.analyzed json) name, '\n' ∉ term.toList) →
    (found ↔ termsIn (builder.analyzed json) name ≠ [])
  /-- Where all values are of one kind, any of them will do. -/
  oneKind : builder.NotesOneKind documents name →
    (∀ term ∈ termsIn (builder.analyzed json) name, '\n' ∉ term.toList) →
    (found ↔ termsIn (builder.analyzed json) name ≠ [] ∨
      numbersIn (builder.analyzed json) name ≠ [])

/-- **The question finds a document by the kind of its values.** -/
theorem foundByKind {builder : DocumentBuilder} {store : DocumentStore} {entries : List Held}
    (hholds : store.Holds builder entries) {held : Held} (hheld : held ∈ entries) {name : String}
    {lookup : Lookup}
    (hdates : builder.NotesDates (entries.map Held.json) name →
      lookup = .numbers (ticksField name) .unbounded)
    (hnumbers : builder.NotesNumbers (entries.map Held.json) name →
      lookup = .numbers name .unbounded)
    (hterms : builder.NotesTerms (entries.map Held.json) name → lookup = .wildcard name "*") :
    FoundByKind builder (entries.map Held.json) name held.json
      (InvertedIndex.satisfies held.fields lookup = true) := by
  have hd := fun h => hdates h ▸ InvertedIndex.satisfies_unbounded held.fields (ticksField name)
  have hn := fun h => hnumbers h ▸ InvertedIndex.satisfies_unbounded held.fields name
  have ht := fun h => hterms h ▸ InvertedIndex.satisfies_star held.fields name
  have hfields := (hholds.made held hheld).fields_eq
  refine ⟨hfields ▸ hd, hfields ▸ hn, hfields ▸ ht, ?_⟩
  rw [← hfields]
  intro hkind hlines
  rcases hholds.cases_of_notesOneKind hheld hkind with
    ⟨h, hnil⟩ | ⟨h, hnil⟩ | ⟨h, hnil, hticks⟩
  · simp [ht h hlines, hnil]
  · simp [hn h, hnil]
  · simp [hd h, hticks, hnil]

/--
**Asking for any value finds the documents with one of the kind that was noted.**  Take a new
store of which any requests were made, with any strategies and analyzers.  The question for any
value of a name is planned, and finds live documents only.  If a date with its ticks was noted of
the name, a live document is found exactly if it has ticks; if no date but a number was, exactly if
it has a number; and if no more than terms were, exactly if it has a term, where terms with a line
feed are not spoken of.  If all that was noted is of one kind, these are the documents with a term
or a number under the name.
-/
theorem matching_any_value (builder : DocumentBuilder) (next : IdentifierSupply)
    (requests : List WriteRequest) (edits : List Edit)
    (hedits : builder.convert next requests = .ok edits) (context : PlanContext)
    (hcatalog : context.catalog = (builder.storeOf edits).catalog) (conventions : Conventions)
    (name : String) :
    ∃ lookup, context.plan ((Tree.compare name .equals .everything).simplify conventions)
        = .ok (lookup, none) ∧
      (∀ doc ∈ (builder.storeOf edits).writer.index.matching lookup,
        doc ∈ (builder.storeOf edits).writer.index.live) ∧
      ∀ doc ∈ (builder.storeOf edits).writer.index.live,
        ∃ json, (builder.prepared next requests)[doc]? = some json ∧
          FoundByKind builder (builder.prepared next requests) name json
            (doc ∈ (builder.storeOf edits).writer.index.matching lookup) := by
  obtain ⟨entries, hholds, hjson⟩ := DocumentStore.Holds.storeOf hedits
  obtain ⟨lookup, hexact, hdates, hnumbers, hterms⟩ :=
    exists_exact_everything hholds hcatalog name
  have hclause : context.clause ⟨some name, .equals, .everything, []⟩ none
      = .ok (.includes lookup) := bind_eq_ok.mpr ⟨lookup, hexact, rfl⟩
  refine ⟨lookup, plan_clause hclause conventions, fun doc hdoc =>
    (InvertedIndex.mem_matching.mp hdoc).2, fun doc hlive => ?_⟩
  obtain ⟨held, hheld, hisLive⟩ := hholds.mem_live.mp hlive
  refine ⟨held.json, by rw [← hjson, List.getElem?_map, hheld]; rfl, ?_⟩
  rw [← hjson, hholds.mem_matching_iff hheld hisLive]
  exact foundByKind hholds (List.mem_of_getElem? hheld) hdates hnumbers hterms

/-- Documents with numbers and a text under one name, and with a date under another. -/
def drift : List WriteRequest :=
  [.create (.object [("$id", .text "a"), ("size", .int 7)]),
    .create (.object [("$id", .text "b"), ("size", .text "large")]),
    .create (.object [("$id", .text "c"), ("size", .double ⟨0x4004000000000000⟩),
      ("sold", .text "2014-09-10T11:00:00Z")]),
    .delete "a"]

/-- The builder that the example is built with. -/
def driftBuilder : DocumentBuilder :=
  ⟨{ Config.default with sourceCompression := .none }, .ofConfig .default, Analyzers.builtIn⟩

/-- The edits that they are converted to. -/
def driftEdits : List Edit := ((driftBuilder.convert 0 drift).toOption).getD []

/-- The store of the documents is searched. -/
def driftContext : PlanContext :=
  ⟨(driftBuilder.storeOf driftEdits).catalog, Analyzers.builtIn, ⟨0, 0, 0⟩, 0, 0⟩

/-- Of the sizes the live number is found; the date, which is alone under its name, is as well. -/
theorem matching_any_value_drift :
    let documents := driftBuilder.prepared 0 drift
    let index := (driftBuilder.storeOf driftEdits).writer.index
    let asks := fun name => driftContext.plan
      ((Tree.compare name .equals .everything).simplify Config.default.conventions)
    driftBuilder.convert 0 drift = .ok driftEdits ∧
      driftBuilder.NotesNumbers documents "size" ∧ driftBuilder.NotesOneKind documents "sold" ∧
      (∃ lookup, asks "size" = .ok (lookup, none) ∧ 1 ∉ index.matching lookup ∧
        2 ∈ index.matching lookup) ∧
      ∃ lookup, asks "sold" = .ok (lookup, none) ∧ 1 ∉ index.matching lookup ∧
        2 ∈ index.matching lookup := by
  intro documents index asks
  have hedits : driftBuilder.convert 0 drift = .ok driftEdits := rfl
  have hnotes : ∀ name info, driftBuilder.Notes documents name info ↔
      info ∈ driftContext.catalog.observations name none :=
    fun _ _ => DocumentStore.notes_iff_mem_observations hedits
  have hsize : driftBuilder.NotesNumbers documents "size" := by
    simp only [DocumentBuilder.NotesNumbers, hnotes]
    exact ⟨by decide +kernel, by decide +kernel⟩
  have hsold : driftBuilder.NotesOneKind documents "sold" := by
    refine .dates ?_ (by decide +kernel)
    simp only [hnotes]
    decide +kernel
  have hlive : index.live = [1, 2] := by decide +kernel
  have hfind := matching_any_value driftBuilder 0 drift driftEdits hedits driftContext rfl
    Config.default.conventions
  refine ⟨hedits, hsize, hsold, ?_, ?_⟩
  · obtain ⟨lookup, hplan, -, hfound⟩ := hfind "size"
    refine ⟨lookup, hplan, ?_, ?_⟩
    · obtain ⟨json, hjson, hkind⟩ := hfound 1 (by rw [hlive]; decide)
      obtain rfl := Option.some.inj hjson
      exact mt (hkind.numbers hsize).mp (by decide +kernel)
    · obtain ⟨json, hjson, hkind⟩ := hfound 2 (by rw [hlive]; decide)
      obtain rfl := Option.some.inj hjson
      exact (hkind.numbers hsize).mpr (by decide +kernel)
  · obtain ⟨lookup, hplan, -, hfound⟩ := hfind "sold"
    refine ⟨lookup, hplan, ?_, ?_⟩
    · obtain ⟨json, hjson, hkind⟩ := hfound 1 (by rw [hlive]; decide)
      obtain rfl := Option.some.inj hjson
      exact mt (hkind.oneKind hsold (by decide +kernel)).mp (by decide +kernel)
    · obtain ⟨json, hjson, hkind⟩ := hfound 2 (by rw [hlive]; decide)
      obtain rfl := Option.some.inj hjson
      exact (hkind.oneKind hsold (by decide +kernel)).mpr (by decide +kernel)

/-- The live document with a size in words has a term under the name, and is not found. -/
theorem any_value_not_found :
    driftBuilder.convert 0 drift = .ok driftEdits ∧
      1 ∈ (driftBuilder.storeOf driftEdits).writer.index.live ∧
      ((driftBuilder.prepared 0 drift)[1]?.map fun json =>
        termsIn (driftBuilder.analyzed json) "size") = some ["large"] ∧
      ∃ lookup, driftContext.plan ((Tree.compare "size" .equals .everything).simplify
          Config.default.conventions) = .ok (lookup, none) ∧
        1 ∉ (driftBuilder.storeOf driftEdits).writer.index.matching lookup := by
  refine ⟨rfl, by decide +kernel, by decide +kernel, .numbers "size" .unbounded, ?_, ?_⟩
  · rfl
  · decide +kernel

end Query.PlanContext

end DocIndex
