/-
Names whose fields are what values are written as.

The strategies of terms and of texts make one field of a value, with the text of the value and the
path as its name.  If everything under a name was made by one of them, then the fields of the name
and the values at the path tell the same of a document: each field is that of a value, and each
value has one.
-/
import DocIndex.Proofs.Query.Presence

namespace DocIndex

/-! ### Terms and texts -/

namespace Strategy

/-- The strategies that index what a value is written as. -/
def isTextual : Strategy → Bool
  | identity | text _ => true
  | _ => false

/-- The analyzer of the texts of a strategy. -/
def analyzer? : Strategy → Option String
  | text analyzer => some analyzer
  | _ => none

/-- The field of a strategy that indexes a text. -/
def fieldOf (strategy : Strategy) (path text : String) : Field :=
  match strategy with
  | .text analyzer => .text path text analyzer
  | _ => .term path text

variable {strategy other : Strategy} {value : Json} {path text : String} {type : JsonType}
  {fields : List Field} {field : Field}

theorem fields?_textual (h : strategy.isTextual = true) (value : Json) (path : String) :
    strategy.fields? value path
      = (scalarText? value).map fun s => (value.type, [strategy.fieldOf path s]) := by
  cases strategy <;> first | rfl | cases h

@[simp] theorem name_fieldOf : (strategy.fieldOf path text).name = path := by
  cases strategy <;> rfl

@[simp] theorem indexed_fieldOf : (strategy.fieldOf path text).indexed = true := by
  cases strategy <;> rfl

@[simp] theorem text?_fieldOf : (strategy.fieldOf path text).text? = some text := by
  cases strategy <;> rfl

@[simp] theorem analyzer?_fieldOf :
    (strategy.fieldOf path text).analyzer? = strategy.analyzer? := by
  cases strategy <;> rfl

theorem isTextual_of_name (h : strategy.isTextual = true) (hname : other.name = strategy.name) :
    other.isTextual = true := by
  cases strategy
  case identity | text => cases other <;> first | rfl | simp [name] at hname
  all_goals cases h

theorem eq_of_analyzer? (h : strategy.isTextual = true) (hother : other.isTextual = true)
    (hanalyzer : other.analyzer? = strategy.analyzer?) : other = strategy := by
  cases strategy
  case identity | text =>
    cases other
    case identity | text => simp_all [analyzer?]
    all_goals cases hother
  all_goals cases h

/-- A strategy with the name and analyzer of a textual one is that one. -/
theorem eq_of_name (h : strategy.isTextual = true) (hname : other.name = strategy.name)
    (hfields : other.fields? value path = some (type, fields)) (hfield : field ∈ fields)
    (hanalyzer : field.analyzer? = strategy.analyzer?) : other = strategy := by
  have hother := isTextual_of_name h hname
  rw [fields?_textual hother] at hfields
  obtain ⟨s, -, heq⟩ := Option.map_eq_some_iff.mp hfields
  obtain ⟨-, rfl⟩ := Prod.mk.inj heq
  rw [List.mem_singleton.mp hfield, analyzer?_fieldOf] at hanalyzer
  exact eq_of_analyzer? h hother hanalyzer

/-- A value that holds no others gets a field with the name of its path. -/
theorem exists_named (hvalue : value.isContainer = false)
    (h : strategy.fields? value path = some (type, fields)) :
    ∃ field ∈ fields, field.name = path := by
  cases strategy
  case array =>
    cases value with
    | array items => cases hvalue
    | _ => cases h
  case null | undefined =>
    obtain ⟨-, rfl⟩ := Prod.mk.inj (Option.some.inj h)
    exact ⟨_, List.mem_cons_self, rfl⟩
  case dateTime =>
    obtain ⟨m, -, heq⟩ := Option.bind_eq_some_iff.mp h
    obtain ⟨-, rfl⟩ := Prod.mk.inj (Option.some.inj heq)
    exact ⟨_, List.mem_cons_self, rfl⟩
  case timeSpan =>
    obtain ⟨raw, -, hraw⟩ := Option.bind_eq_some_iff.mp h
    obtain ⟨span, -, heq⟩ := Option.bind_eq_some_iff.mp hraw
    obtain ⟨-, rfl⟩ := Prod.mk.inj (Option.some.inj heq)
    exact ⟨_, List.mem_cons_self, rfl⟩
  all_goals
    obtain ⟨_, -, heq⟩ := Option.map_eq_some_iff.mp h
    obtain ⟨-, rfl⟩ := Prod.mk.inj heq
    exact ⟨_, List.mem_cons_self, rfl⟩

end Strategy

namespace DocumentBuilder

/-- All that documents have under a name was made by a strategy. -/
def NotesOnly (builder : DocumentBuilder) (documents : List Json) (name : String)
    (strategy : Strategy) : Prop :=
  ∀ info, builder.Notes documents name info →
    info.strategy = strategy.name ∧ info.analyzer = strategy.analyzer?

variable {builder : DocumentBuilder} {json : Json} {built : BuiltDocument}
  {projections : List Projection} {path : String} {value : Json}

/-- There is a strategy for every value that holds no others. -/
theorem isSome_resolve? (configuration : FieldConfiguration) (place : Place)
    (hvalue : value.isContainer = false) :
    (configuration.resolve? place value.type).isSome = true := by
  have htype : (Strategy.default? value.type).isSome = true := by
    cases value with
    | int n => simp only [Json.type]; split <;> rfl
    | text s => simp only [Json.type]; split <;> rfl
    | array _ | object _ => cases hvalue
    | _ => rfl
  unfold FieldConfiguration.resolve?
  split
  · rfl
  · split
    · rfl
    · exact htype

/-- A value at a path is projected, and gets a field with the name of the path. -/
theorem BuiltBy.exists_of_mem_valuesAt (h : builder.BuiltBy json built projections)
    (hvalue : value ∈ json.valuesAt path) :
    ∃ projection ∈ projections, ∃ strategy : Strategy, strategy.name = projection.strategy ∧
      strategy.fields? value path = some (projection.jsonType, projection.fields) ∧
      ∃ field ∈ projection.fields, field.name = path := by
  obtain ⟨hpart, hscalar⟩ := Json.mem_valuesAt.mp hvalue
  obtain ⟨group, hgroup, hin⟩ := h.parts.exists_group hpart
  obtain ⟨strategy, hstrategy⟩ := Option.isSome_iff_exists.mp
    (isSome_resolve? builder.fields ⟨built.contentType, path⟩ hscalar)
  rw [project, hstrategy] at hgroup
  obtain ⟨projection, hproject, heq⟩ := bind_eq_ok.mp hgroup
  obtain rfl := Except.ok.inj heq
  obtain ⟨hname, hfields⟩ := fields?_of_strategyProject hproject
  exact ⟨projection, hin _ (List.mem_singleton_self _), strategy, hname, hfields,
    Strategy.exists_named hscalar hfields⟩

end DocumentBuilder

/-! ### Documents of a textual strategy -/

namespace DocumentStore.Holds

variable {builder : DocumentBuilder} {store : DocumentStore} {entries : List Held} {held : Held}
  {path : String} {strategy : Strategy}

/-- A field of a document was noted as its projection shows it. -/
theorem notes_infoOf (hholds : store.Holds builder entries) (hheld : held ∈ entries)
    {projections : List Projection} (hbuilt : builder.BuiltBy held.json held.built projections)
    {projection : Projection} (hprojection : projection ∈ projections) {field : Field}
    (hfield : field ∈ projection.fields) (hname : field.name = path) :
    builder.Notes (entries.map Held.json) path (projection.infoOf field) :=
  ⟨hname, held.json, List.mem_map_of_mem hheld, held.built, (hholds.made held hheld).build,
    (hbuilt.mem_infos _).mpr ⟨projection, hprojection, field, hfield, rfl⟩⟩

section Textual

variable (hholds : store.Holds builder entries) (htextual : strategy.isTextual = true)
  (honly : builder.NotesOnly (entries.map Held.json) path strategy)

include hholds htextual honly

/-- A field of the name is what the strategy makes of a value at the path. -/
theorem eq_fieldOf (hheld : held ∈ entries) {projections : List Projection}
    (hbuilt : builder.BuiltBy held.json held.built projections) {projection : Projection}
    (hprojection : projection ∈ projections) {field : Field} (hfield : field ∈ projection.fields)
    (hname : field.name = path) :
    ∃ value ∈ held.json.valuesAt path, ∃ text, Strategy.scalarText? value = some text ∧
      field = strategy.fieldOf path text := by
  obtain ⟨hstrategy, hanalyzer⟩ :=
    honly _ (hholds.notes_infoOf hheld hbuilt hprojection hfield hname)
  obtain ⟨⟨place, value⟩, hpart, other, hother, hfields⟩ := hbuilt.exists_strategy hprojection
  obtain rfl := Strategy.eq_of_name htextual (hother.trans hstrategy) hfields hfield hanalyzer
  rw [Strategy.fields?_textual htextual] at hfields
  obtain ⟨text, htext, heq⟩ := Option.map_eq_some_iff.mp hfields
  have hsame := List.mem_singleton.mp ((Prod.mk.inj heq).2 ▸ hfield)
  rw [hsame, Strategy.name_fieldOf] at hname
  subst hname
  refine ⟨value, Json.mem_valuesAt.mpr ⟨hpart, ?_⟩, text, htext, hsame⟩
  cases value <;> first | rfl | cases htext

/-- A value at the path has the field that the strategy makes of it. -/
theorem fieldOf_mem_document (hheld : held ∈ entries) {value : Json}
    (hvalue : value ∈ held.json.valuesAt path) {text : String}
    (htext : Strategy.scalarText? value = some text) :
    strategy.fieldOf path text ∈ held.built.document := by
  obtain ⟨projections, hbuilt⟩ := DocumentBuilder.builtBy (hholds.made held hheld).build
  obtain ⟨projection, hprojection, other, hother, hfields, field, hfield, hname⟩ :=
    hbuilt.exists_of_mem_valuesAt hvalue
  obtain ⟨hstrategy, hanalyzer⟩ :=
    honly _ (hholds.notes_infoOf hheld hbuilt hprojection hfield hname)
  obtain rfl := Strategy.eq_of_name htextual (hother.trans hstrategy) hfields hfield hanalyzer
  rw [Strategy.fields?_textual htextual, htext] at hfields
  refine (hbuilt.mem_document Strategy.indexed_fieldOf).mpr ⟨projection, hprojection, ?_⟩
  rw [← (Prod.mk.inj (Option.some.inj hfields)).2]
  exact List.mem_singleton_self _

/-- No numbers are noted of the name. -/
theorem resolve_ne_numeric (kind : FieldKind) :
    store.catalog.resolve path none ≠ .numeric kind := by
  intro hresolve
  have hdescribes := store.catalog.describes_resolve path none
  rw [hresolve] at hdescribes
  obtain ⟨-, hnumeric, info, hinfo, rfl⟩ := hdescribes
  obtain ⟨hname, held, hheld, hnoted⟩ := hholds.mem_observations.mp hinfo
  obtain ⟨projections, hbuilt⟩ := DocumentBuilder.builtBy (hholds.made held hheld).build
  obtain ⟨projection, hprojection, field, hfield, rfl⟩ := (hbuilt.mem_infos _).mp hnoted
  obtain ⟨-, -, text, -, rfl⟩ :=
    hholds.eq_fieldOf htextual honly hheld hbuilt hprojection hfield hname
  have hlexical : (strategy.fieldOf path text).value.kind.isLexical = false :=
    FieldKind.isLexical_of_isNumeric hnumeric
  rw [Field.isLexical_of_text? Strategy.text?_fieldOf] at hlexical
  cases hlexical

/-- A text of the name is a field of the strategy, and has its analyzer. -/
theorem eq_fieldOf_of_text (hheld : held ∈ entries) {field : Field}
    (hfield : field ∈ held.built.document) (hname : field.name = path) {analyzer : String}
    (hanalyzer : field.analyzer? = some analyzer) :
    strategy.analyzer? = some analyzer ∧ ∃ text, field = strategy.fieldOf path text := by
  obtain ⟨projections, hbuilt⟩ := DocumentBuilder.builtBy (hholds.made held hheld).build
  rw [hbuilt.document, List.mem_append, List.mem_flatMap, List.mem_singleton] at hfield
  rcases hfield with ⟨projection, hprojection, hown⟩ | rfl
  · obtain ⟨-, -, text, -, rfl⟩ :=
      hholds.eq_fieldOf htextual honly hheld hbuilt hprojection hown hname
    rw [Strategy.analyzer?_fieldOf] at hanalyzer
    exact ⟨hanalyzer, text, rfl⟩
  · cases hanalyzer

end Textual

end DocumentStore.Holds

end DocIndex
