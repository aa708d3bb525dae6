/-
The values in a JSON document, and where they stand.

A document is projected value by value.  Here its values are listed with their paths and
nothing is projected: the path of a member is joined to the path of its object, and the items
of an array stand at the path of the array.  Projecting a document then is projecting what is
listed (`visit_parts`), one part after the other, and what holds of the fields of one part at
a path can be said of all the fields of a name.
-/
import DocIndex.Proofs.Document.Fields
import DocIndex.Proofs.Schema.Catalog

namespace DocIndex

namespace Json

/-- Whether a value holds others, which stand for it. -/
def isContainer : Json → Bool
  | .object _ | .array _ => true
  | _ => false

/-- The path of a member of the object at a path; a path is empty only at the root. -/
def memberPath (path key : String) : String :=
  if path.isEmpty then key else path ++ "." ++ key

mutual

/-- The values in a value other than objects, with their paths, an array before its items. -/
def parts (path : String) : Json → List (String × Json)
  | .object members => partsOfMembers path members
  | .array items => (path, .array items) :: partsOfItems path items
  | .null => [(path, .null)]
  | .bool b => [(path, .bool b)]
  | .int n => [(path, .int n)]
  | .double x => [(path, .double x)]
  | .text s => [(path, .text s)]

/-- The values in the members of an object. -/
def partsOfMembers (path : String) : List (String × Json) → List (String × Json)
  | [] => []
  | (key, value) :: rest => parts (memberPath path key) value ++ partsOfMembers path rest

/-- The values in the items of an array. -/
def partsOfItems (path : String) : List Json → List (String × Json)
  | [] => []
  | item :: rest => parts path item ++ partsOfItems path rest

end

/-- The values at a path, reached through any objects and arrays. -/
def valuesAt (json : Json) (path : String) : List Json :=
  ((json.parts "").filter fun part => part.1 == path && !part.2.isContainer).map Prod.snd

theorem mem_valuesAt {json : Json} {path : String} {value : Json} :
    value ∈ json.valuesAt path ↔ (path, value) ∈ json.parts "" ∧ value.isContainer = false := by
  simp only [valuesAt, List.mem_map, List.mem_filter, Bool.and_eq_true, beq_iff_eq,
    Bool.not_eq_true', Prod.exists]
  constructor
  · rintro ⟨_, _, ⟨hpart, rfl, hscalar⟩, rfl⟩
    exact ⟨hpart, hscalar⟩
  · rintro ⟨hpart, hscalar⟩
    exact ⟨path, value, ⟨hpart, rfl, hscalar⟩, rfl⟩

end Json

namespace DocumentBuilder

variable {builder : DocumentBuilder} {contentType : String}

/-- The projections are those of the parts, one part after the other. -/
def ProjectsTo (builder : DocumentBuilder) (contentType : String)
    (parts : List (String × Json)) (projections : List Projection) : Prop :=
  ∃ groups, List.Forall₂ (fun part group =>
    builder.project ⟨contentType, part.1⟩ part.2 = .ok group) parts groups ∧
      projections = groups.flatten

theorem ProjectsTo.nil : builder.ProjectsTo contentType [] [] := ⟨[], .nil, rfl⟩

theorem ProjectsTo.single {path : String} {value : Json} {own : List Projection}
    (h : builder.project ⟨contentType, path⟩ value = .ok own) :
    builder.ProjectsTo contentType [(path, value)] own :=
  ⟨[own], .cons h .nil, by simp⟩

theorem ProjectsTo.append {first second : List (String × Json)} {a b : List Projection}
    (ha : builder.ProjectsTo contentType first a) (hb : builder.ProjectsTo contentType second b) :
    builder.ProjectsTo contentType (first ++ second) (a ++ b) := by
  obtain ⟨own, hown, rfl⟩ := ha
  obtain ⟨others, hothers, rfl⟩ := hb
  exact ⟨own ++ others, List.rel_append hown hothers, List.flatten_append.symm⟩

theorem ProjectsTo.mem_iff {parts : List (String × Json)} {projections : List Projection}
    (h : builder.ProjectsTo contentType parts projections) (projection : Projection) :
    projection ∈ projections ↔ ∃ part ∈ parts, ∃ group,
      builder.project ⟨contentType, part.1⟩ part.2 = .ok group ∧ projection ∈ group := by
  obtain ⟨groups, hgroups, rfl⟩ := h
  induction hgroups with
  | nil => simp
  | cons hfirst _ ih =>
      rw [List.flatten_cons, List.mem_append, ih, List.exists_mem_cons_iff, hfirst]
      simp

/-- Each of the parts is projected. -/
theorem ProjectsTo.exists_group {parts : List (String × Json)} {projections : List Projection}
    (h : builder.ProjectsTo contentType parts projections) {part : String × Json}
    (hpart : part ∈ parts) :
    ∃ group, builder.project ⟨contentType, part.1⟩ part.2 = .ok group ∧
      ∀ projection ∈ group, projection ∈ projections := by
  obtain ⟨groups, hgroups, rfl⟩ := h
  induction hgroups with
  | nil => cases hpart
  | cons hfirst _ ih =>
      rw [List.flatten_cons]
      rcases List.mem_cons.mp hpart with rfl | hpart
      · exact ⟨_, hfirst, fun projection hmem => List.mem_append_left _ hmem⟩
      · obtain ⟨group, hgroup, hin⟩ := ih hpart
        exact ⟨group, hgroup, fun projection hmem => List.mem_append_right _ (hin projection hmem)⟩

mutual

/-- A value is projected part by part. -/
theorem visit_parts : ∀ {json : Json} {path : String} {projections : List Projection},
    builder.visit ⟨contentType, path⟩ json = .ok projections →
      builder.ProjectsTo contentType (json.parts path) projections
  | .object members, _, _, h => visitMembers_parts h
  | .array items, path, projections, h => by
      obtain ⟨own, hown, h⟩ := bind_eq_ok.mp h
      obtain ⟨others, hothers, h⟩ := bind_eq_ok.mp h
      obtain rfl := Except.ok.inj h
      exact ProjectsTo.append (.single hown) (visitItems_parts hothers)
  | .null, _, _, h => .single h
  | .bool _, _, _, h => .single h
  | .int _, _, _, h => .single h
  | .double _, _, _, h => .single h
  | .text _, _, _, h => .single h

theorem visitMembers_parts : ∀ {members : List (String × Json)} {path : String}
    {projections : List Projection},
    builder.visitMembers ⟨contentType, path⟩ members = .ok projections →
      builder.ProjectsTo contentType (Json.partsOfMembers path members) projections
  | [], _, _, h => by
      obtain rfl := Except.ok.inj h
      exact .nil
  | (key, value) :: rest, path, projections, h => by
      obtain ⟨first, hfirst, h⟩ := bind_eq_ok.mp h
      obtain ⟨others, hothers, h⟩ := bind_eq_ok.mp h
      obtain rfl := Except.ok.inj h
      exact ProjectsTo.append (visit_parts hfirst) (visitMembers_parts hothers)

theorem visitItems_parts : ∀ {items : List Json} {path : String}
    {projections : List Projection},
    builder.visitItems ⟨contentType, path⟩ items = .ok projections →
      builder.ProjectsTo contentType (Json.partsOfItems path items) projections
  | [], _, _, h => by
      obtain rfl := Except.ok.inj h
      exact .nil
  | item :: rest, path, projections, h => by
      obtain ⟨first, hfirst, h⟩ := bind_eq_ok.mp h
      obtain ⟨others, hothers, h⟩ := bind_eq_ok.mp h
      obtain rfl := Except.ok.inj h
      exact ProjectsTo.append (visit_parts hfirst) (visitItems_parts hothers)

end

end DocumentBuilder

/-! ### Documents that are built -/

/-- The analyzer that the text of a field is cut into terms by. -/
def Field.analyzer? (field : Field) : Option String :=
  match field.value with
  | .text _ analyzer => some analyzer
  | _ => none

/-- What a projection shows of one of its fields. -/
def Projection.infoOf (p : Projection) (field : Field) : FieldInfo where
  path := p.path
  jsonType := p.jsonType
  fieldName := field.name
  kind := field.kind
  strategy := p.strategy
  analyzer := field.analyzer?

theorem Projection.mem_infos {p : Projection} {info : FieldInfo} :
    info ∈ p.infos ↔ ∃ field ∈ p.fields, p.infoOf field = info :=
  List.mem_map

/-- The projections of a document, and what it is built to by them. -/
structure DocumentBuilder.BuiltBy (builder : DocumentBuilder) (json : Json)
    (built : BuiltDocument) (projections : List Projection) : Prop where
  parts : builder.ProjectsTo built.contentType (json.parts "") projections
  document : built.document = projections.flatMap Projection.fields ++ [builder.sourceOf json]
  mem_infos : ∀ info, info ∈ built.infos ↔
    ∃ projection ∈ projections, ∃ field ∈ projection.fields, projection.infoOf field = info

/-- A document that is built is projected part by part. -/
theorem DocumentBuilder.builtBy {builder : DocumentBuilder} {json : Json} {built : BuiltDocument}
    (h : builder.build json = .ok built) :
    ∃ projections, builder.BuiltBy json built projections := by
  obtain ⟨members, id, projections, rfl, -, hvisit, -, rfl⟩ := build_eq_ok h
  refine ⟨projections, visitMembers_parts hvisit, rfl, fun info => ?_⟩
  have hmerge := @FieldInfos.mem_merge [] (projections.flatMap Projection.infos) info
  simp only [List.not_mem_nil, false_or, List.mem_flatMap, Projection.mem_infos] at hmerge
  exact hmerge

/-- A searched field of a built document is not its source. -/
theorem DocumentBuilder.BuiltBy.mem_document {builder : DocumentBuilder} {json : Json}
    {built : BuiltDocument} {projections : List Projection}
    (h : builder.BuiltBy json built projections) {field : Field}
    (hindexed : field.indexed = true) :
    field ∈ built.document ↔ ∃ projection ∈ projections, field ∈ projection.fields := by
  have hsource : field ≠ builder.sourceOf json := by
    rintro rfl
    cases hindexed
  rw [h.document, List.mem_append, List.mem_singleton, List.mem_flatMap, or_iff_left hsource]

/-- What a strategy makes of a value is searched. -/
theorem Strategy.indexed_of_fields? {strategy : Strategy} {value : Json} {path : String}
    {type : JsonType} {fields : List Field}
    (h : strategy.fields? value path = some (type, fields)) :
    ∀ field ∈ fields, field.indexed = true := by
  cases strategy with
  | array =>
      cases value with
      | array items =>
          obtain ⟨-, rfl⟩ := Prod.mk.inj (Option.some.inj h)
          simp [Field.long]
      | _ => cases h
  | null | undefined =>
      obtain ⟨-, rfl⟩ := Prod.mk.inj (Option.some.inj h)
      simp [Field.term]
  | dateTime =>
      obtain ⟨instant, -, heq⟩ := Option.bind_eq_some_iff.mp h
      obtain ⟨-, rfl⟩ := Prod.mk.inj (Option.some.inj heq)
      simp [dateFields, Field.term, Field.long]
  | timeSpan =>
      obtain ⟨raw, -, hraw⟩ := Option.bind_eq_some_iff.mp h
      obtain ⟨span, -, heq⟩ := Option.bind_eq_some_iff.mp hraw
      obtain ⟨-, rfl⟩ := Prod.mk.inj (Option.some.inj heq)
      simp [spanFields, Field.term, Field.long]
  | _ =>
      obtain ⟨own, -, heq⟩ := Option.map_eq_some_iff.mp h
      obtain ⟨-, rfl⟩ := Prod.mk.inj heq
      simp [Field.term, Field.text, Field.long, Field.double]

/-- The fields that a document is projected to are searched. -/
theorem DocumentBuilder.BuiltBy.indexed {builder : DocumentBuilder} {json : Json}
    {built : BuiltDocument} {projections : List Projection}
    (h : builder.BuiltBy json built projections) :
    ∀ projection ∈ projections, ∀ field ∈ projection.fields, field.indexed = true := by
  intro projection hprojection
  obtain ⟨part, -, group, hgroup, hmem⟩ := (h.parts.mem_iff projection).mp hprojection
  obtain ⟨strategy, type, hfields⟩ := exists_fields?_of_project hgroup projection hmem
  exact Strategy.indexed_of_fields? hfields

/-! ### Names of fields -/

namespace Field

/-- What stands behind the last dot of a name. -/
def lastSegment (name : String) : List Char :=
  (name.toList.reverse.takeWhile fun c => c ≠ '.').reverse

theorem lastSegment_derivedName (path : String) {part : String} (h : '.' ∉ part.toList) :
    lastSegment (derivedName path part) = '@' :: part.toList := by
  have hname : (derivedName path part).toList.reverse
      = (part.toList.reverse ++ ['@']) ++ '.' :: path.toList.reverse := by
    simp [derivedName, String.toList_append]
  have hpart : ∀ c ∈ part.toList.reverse ++ ['@'], decide (c ≠ '.') = true := by
    intro c hc
    rcases List.mem_append.mp hc with hc | hc
    · have hmem := List.mem_reverse.mp hc
      exact decide_eq_true fun heq => h (heq ▸ hmem)
    · rw [List.mem_singleton.mp hc]
      decide
  rw [lastSegment, hname, List.takeWhile_append_of_pos hpart]
  simp

end Field

/-- A field with the path of a value as its name, or with the name of a part of it. -/
def Field.NamedFor (path : String) (field : Field) : Prop :=
  field.name = path ∨ ∃ part : String, '.' ∉ part.toList ∧ field.name = derivedName path part

theorem Field.namedFor_parts (path : String) (parts : List (String × Int))
    (h : ∀ part ∈ parts, '.' ∉ part.1.toList) :
    ∀ field ∈ parts.map fun part => Field.long (derivedName path part.1) part.2,
      field.NamedFor path := by
  intro field hfield
  obtain ⟨part, hpart, rfl⟩ := List.mem_map.mp hfield
  exact Or.inr ⟨part.1, h part hpart, rfl⟩

/-- What a strategy makes of a value is named for its path. -/
theorem Strategy.namedFor_of_fields? {strategy : Strategy} {value : Json} {path : String}
    {type : JsonType} {fields : List Field}
    (h : strategy.fields? value path = some (type, fields)) :
    ∀ field ∈ fields, field.NamedFor path := by
  have hwhole : ∀ {whole : Field}, whole.name = path →
      ∀ field ∈ [whole], field.NamedFor path := by
    intro whole hname field hfield
    rw [List.mem_singleton.mp hfield]
    exact Or.inl hname
  cases strategy
  case array =>
    simp only [fields?] at h
    split at h
    · rename_i items
      obtain ⟨-, rfl⟩ := Prod.mk.inj (Option.some.inj h)
      exact Field.namedFor_parts path [("count", items.length)] (by simp)
    · simp at h
  case dateTime =>
    obtain ⟨m, -, heq⟩ := Option.bind_eq_some_iff.mp h
    obtain ⟨-, rfl⟩ := Prod.mk.inj (Option.some.inj heq)
    refine List.forall_mem_cons.mpr ⟨Or.inl rfl, ?_⟩
    exact Field.namedFor_parts path [("ticks", m.ticks), ("year", m.date.year),
      ("month", m.date.month), ("day", m.date.day), ("hour", m.clock.hour),
      ("minute", m.clock.minute)] (by simp)
  case timeSpan =>
    obtain ⟨raw, -, hraw⟩ := Option.bind_eq_some_iff.mp h
    obtain ⟨span, -, heq⟩ := Option.bind_eq_some_iff.mp hraw
    obtain ⟨-, rfl⟩ := Prod.mk.inj (Option.some.inj heq)
    refine List.forall_mem_cons.mpr ⟨Or.inl rfl, ?_⟩
    exact Field.namedFor_parts path [("ticks", span.ticks),
      ("days", span.seconds.tdiv 86400),
      ("hours", span.seconds.tdiv 3600 - span.seconds.tdiv 86400 * 24),
      ("minutes", span.seconds.tdiv 60 - span.seconds.tdiv 3600 * 60)] (by simp)
  case null =>
    obtain ⟨-, rfl⟩ := Prod.mk.inj (Option.some.inj h)
    exact hwhole rfl
  case undefined =>
    obtain ⟨-, rfl⟩ := Prod.mk.inj (Option.some.inj h)
    exact hwhole rfl
  all_goals
    obtain ⟨_, -, heq⟩ := Option.map_eq_some_iff.mp h
    obtain ⟨-, rfl⟩ := Prod.mk.inj heq
    exact hwhole rfl

namespace DocumentBuilder

variable {builder : DocumentBuilder} {contentType : String}

/-- What a value is projected to is named for its path. -/
theorem project_namedFor {place : Place} {value : Json} {group : List Projection}
    (h : builder.project place value = .ok group) :
    ∀ projection ∈ group, ∀ field ∈ projection.fields, field.NamedFor place.path := by
  intro projection hprojection
  obtain ⟨strategy, type, hfields⟩ := exists_fields?_of_project h projection hprojection
  exact Strategy.namedFor_of_fields? hfields

end DocumentBuilder

end DocIndex
