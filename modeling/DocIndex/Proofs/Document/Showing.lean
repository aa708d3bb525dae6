/-
What a document shows.

A document shows its content type, what is observed of its fields, and the schema of its JSON.  To
observe a field is to see its name, its kind and its analyzer, and these are the same for all
values of a type (`Strategy.outlines`).  So what a document shows depends on the types that stand
at its paths and on no text in it but the content type.

In particular it does not matter which identifier a document is given that states none, unless
the content type is read from it.
-/
import DocIndex.Proofs.Document.Parts
import DocIndex.Proofs.Schema.Joins

namespace DocIndex

/-! ### Fields without their values -/

/-- What is observed of a field: its name, its kind and its analyzer. -/
def Field.outline (field : Field) : String × FieldKind × Option String :=
  (field.name, field.kind, field.analyzer?)

namespace Strategy

/-- The type under which values of a type are recorded. -/
def recorded (type : JsonType) : Strategy → JsonType
  | identity | text _ => type
  | array => .array
  | int64 => .integer
  | double => .float
  | boolean => .boolean
  | null => .null
  | undefined => .undefined
  | dateTime => .date
  | timeSpan => .timeSpan

/-- The fields at a path without their values: a term, a number or a text, and parts of it. -/
def outlines (path : String) : Strategy → List (String × FieldKind × Option String)
  | identity | boolean | null | undefined => [(path, .term, none)]
  | text analyzer => [(path, .text, some analyzer)]
  | array => [(Field.derivedName path "count", .long, none)]
  | int64 => [(path, .long, none)]
  | double => [(path, .double, none)]
  | dateTime => (path, .term, none) ::
      ["ticks", "year", "month", "day", "hour", "minute"].map fun part =>
        (Field.derivedName path part, .long, none)
  | timeSpan => (path, .term, none) ::
      ["ticks", "days", "hours", "minutes"].map fun part =>
        (Field.derivedName path part, .long, none)

/-- What is observed of the values of a type at a path. -/
def observed (strategy : Strategy) (type : JsonType) (path : String) : List FieldInfo :=
  (strategy.outlines path).map fun (name, kind, analyzer) =>
    ⟨path, strategy.recorded type, name, kind, strategy.name, analyzer⟩

/-- **A value only decides what is in the fields.** -/
theorem outlines_of_fields? {strategy : Strategy} {value : Json} {path : String} {type : JsonType}
    {fields : List Field} (h : strategy.fields? value path = some (type, fields)) :
    type = strategy.recorded value.type ∧ fields.map Field.outline = strategy.outlines path := by
  cases strategy with
  | array =>
      cases value with
      | array items =>
          obtain ⟨rfl, rfl⟩ := Prod.mk.inj (Option.some.inj h)
          exact ⟨rfl, rfl⟩
      | _ => cases h
  | null | undefined =>
      obtain ⟨rfl, rfl⟩ := Prod.mk.inj (Option.some.inj h)
      exact ⟨rfl, rfl⟩
  | dateTime =>
      obtain ⟨instant, -, heq⟩ := Option.bind_eq_some_iff.mp h
      obtain ⟨rfl, rfl⟩ := Prod.mk.inj (Option.some.inj heq)
      exact ⟨rfl, rfl⟩
  | timeSpan =>
      obtain ⟨raw, -, hraw⟩ := Option.bind_eq_some_iff.mp h
      obtain ⟨span, -, heq⟩ := Option.bind_eq_some_iff.mp hraw
      obtain ⟨rfl, rfl⟩ := Prod.mk.inj (Option.some.inj heq)
      exact ⟨rfl, rfl⟩
  | _ =>
      obtain ⟨own, -, heq⟩ := Option.map_eq_some_iff.mp h
      obtain ⟨rfl, rfl⟩ := Prod.mk.inj heq
      exact ⟨rfl, rfl⟩

end Strategy

/-! ### What is shown -/

/-- A content type, the observations made under it, and a schema. -/
abbrev Shown := String × FieldInfos × JsonSchema

/-- What a document that was built shows. -/
def BuiltDocument.shown (built : BuiltDocument) : Shown :=
  (built.contentType, built.infos, built.schema)

/-- The types in a value, with the paths at which they stand. -/
def Json.outline (json : Json) : List (String × JsonType) :=
  (json.parts "").map fun part => (part.1, part.2.type)

namespace DocumentBuilder

variable {builder : DocumentBuilder} {contentType : String}

/-- What is observed of values of a type at a place. -/
def observed (builder : DocumentBuilder) (place : Place) (type : JsonType) : List FieldInfo :=
  match builder.fields.resolve? place type with
  | some strategy => strategy.observed type place.path
  | none => []

/-- What a document shows, by its outline. -/
def shows (builder : DocumentBuilder) (json : Json) : Shown :=
  let contentType := builder.contentType json
  let observations := json.outline.flatMap fun part => builder.observed ⟨contentType, part.1⟩ part.2
  (contentType, observations.foldl FieldInfos.add [], .infer json)

theorem infos_of_project {place : Place} {value : Json} {group : List Projection}
    (h : builder.project place value = .ok group) :
    group.flatMap Projection.infos = builder.observed place value.type := by
  cases hstrategy : builder.fields.resolve? place value.type with
  | none =>
      simp only [project, hstrategy] at h
      obtain rfl := Except.ok.inj h
      simp only [observed, hstrategy, List.flatMap_nil]
  | some strategy =>
      simp only [project, hstrategy] at h
      obtain ⟨projection, hproject, heq⟩ := bind_eq_ok.mp h
      obtain rfl := Except.ok.inj heq
      simp only [observed, hstrategy, List.flatMap_singleton]
      unfold Strategy.project at hproject
      split at hproject
      · rename_i type fields hfields
        obtain rfl := Except.ok.inj hproject
        obtain ⟨rfl, houtlines⟩ := Strategy.outlines_of_fields? hfields
        simp only [Strategy.observed, ← houtlines, List.map_map]
        rfl
      · cases hproject

theorem ProjectsTo.infos {parts : List (String × Json)} {projections : List Projection}
    (h : builder.ProjectsTo contentType parts projections) :
    projections.flatMap Projection.infos
      = parts.flatMap fun part => builder.observed ⟨contentType, part.1⟩ part.2.type := by
  obtain ⟨groups, hgroups, rfl⟩ := h
  induction hgroups with
  | nil => rfl
  | cons hfirst _ ih =>
      rw [List.flatten_cons, List.flatMap_append, ih, infos_of_project hfirst, List.flatMap_cons]

/-- **What is built of a document shows what its outline does.** -/
theorem shown_of_build {json : Json} {built : BuiltDocument} (h : builder.build json = .ok built) :
    built.shown = builder.shows json := by
  obtain ⟨members, id, projections, rfl, -, hvisit, -, rfl⟩ := build_eq_ok h
  have hinfos := (visitMembers_parts hvisit).infos
  have houtline : (Json.object members).outline
      = (Json.partsOfMembers "" members).map fun part => (part.1, part.2.type) := rfl
  simp only [BuiltDocument.shown, shows, hinfos, houtline, List.flatMap_map]

end DocumentBuilder

/-! ### Identifiers -/

namespace Identifier

theorem digitChar_ne {n : Nat} (h : n < 16) : n.digitChar ≠ 'T' := by
  interval_cases n <;> decide

theorem not_mem_toDigits (n : Nat) : 'T' ∉ Nat.toDigits 16 n := by
  induction n using Nat.strongRecOn with
  | ind n ih =>
      rw [Nat.toDigits_eq_if (by decide)]
      split
      · rename_i hsmall
        exact fun hmem => digitChar_ne hsmall (List.mem_singleton.mp hmem).symm
      · rename_i hlarge
        intro hmem
        rcases List.mem_append.mp hmem with hmem | hmem
        · exact ih (n / 16) (Nat.div_lt_self (by omega) (by decide)) hmem
        · exact digitChar_ne (Nat.mod_lt n (by decide)) (List.mem_singleton.mp hmem).symm

theorem not_mem_grouped : ∀ (sizes : List Nat) {text : List Char}, 'T' ∉ text →
    'T' ∉ grouped sizes text
  | [], _, h => h
  | size :: sizes, text, h => by
      intro hmem
      rcases List.mem_append.mp hmem with hmem | hmem
      · exact h (List.mem_of_mem_take hmem)
      · rcases List.mem_cons.mp hmem with heq | hmem
        · cases heq
        · exact not_mem_grouped sizes (fun hmem => h (List.mem_of_mem_drop hmem)) hmem

/-- No identifier has the form of a date. -/
theorem type_ofNat (n : Nat) : (Json.text (ofNat n)).type = .text := by
  have hdigits : 'T' ∉ digits n := by
    intro hmem
    rcases List.mem_append.mp hmem with hmem | hmem
    · cases List.eq_of_mem_replicate hmem
    · exact not_mem_toDigits n hmem
  have hnone : Moment.ofDocumentText? (ofNat n) = none := by
    have hmem := not_mem_grouped [8, 4, 4, 4] hdigits
    simp [Moment.ofDocumentText?, ofNat, hmem]
  rw [Json.type, hnone]
  rfl

end Identifier

/-! ### Documents that differ in texts -/

namespace Json

/-- Two values that are the same, or texts of one type. -/
def Alike (a b : Json) : Prop :=
  a = b ∨ ∃ s t, a = .text s ∧ b = .text t ∧ a.type = b.type

/-- Members of the same names with values that are alike. -/
def AlikeMembers (members others : List (String × Json)) : Prop :=
  List.Forall₂ (fun member other => member.1 = other.1 ∧ Alike member.2 other.2) members others

variable {members others : List (String × Json)}

theorem AlikeMembers.refl : ∀ members : List (String × Json), AlikeMembers members members
  | [] => .nil
  | _ :: rest => .cons ⟨rfl, .inl rfl⟩ (AlikeMembers.refl rest)

theorem AlikeMembers.insert (h : AlikeMembers members others) (key : String) {value other : Json}
    (hvalue : value.Alike other) :
    AlikeMembers (Table.insert members key value) (Table.insert others key other) := by
  unfold Table.insert
  induction h with
  | nil => exact .cons ⟨rfl, hvalue⟩ .nil
  | @cons first second _ _ hfirst hrest ih =>
      obtain ⟨name, old⟩ := first
      obtain ⟨name', old'⟩ := second
      obtain ⟨rfl, hold⟩ := hfirst
      cases hc : compare key name with
      | lt =>
          simp only [Table.alter, hc]
          exact .cons ⟨rfl, hvalue⟩ (.cons ⟨rfl, hold⟩ hrest)
      | eq =>
          simp only [Table.alter, hc]
          exact .cons ⟨rfl, hvalue⟩ hrest
      | gt =>
          simp only [Table.alter, hc]
          exact .cons ⟨rfl, hold⟩ ih

theorem AlikeMembers.outline (h : AlikeMembers members others) :
    (object members).outline = (object others).outline := by
  unfold Json.outline
  simp only [parts]
  induction h with
  | nil => rfl
  | @cons first second _ _ hfirst _ ih =>
      obtain ⟨name, old⟩ := first
      obtain ⟨name', old'⟩ := second
      obtain ⟨rfl, rfl | ⟨s, t, rfl, rfl, htype⟩⟩ := hfirst
      · simp only [partsOfMembers, List.map_append, ih]
      · simp only [partsOfMembers, parts, List.map_append, List.map_cons, htype, ih]

theorem AlikeMembers.infer (h : AlikeMembers members others) :
    JsonSchema.infer (object members) = JsonSchema.infer (object others) := by
  have hmembers : JsonSchema.inferMembers members = JsonSchema.inferMembers others := by
    induction h with
    | nil => rfl
    | @cons first second _ _ hfirst _ ih =>
        obtain ⟨name, old⟩ := first
        obtain ⟨name', old'⟩ := second
        obtain ⟨rfl, rfl | ⟨s, t, rfl, rfl, htype⟩⟩ := hfirst
        · simp only [JsonSchema.inferMembers, ih]
        · simp only [JsonSchema.inferMembers, JsonSchema.infer, htype, ih]
  rw [JsonSchema.infer, JsonSchema.infer, hmembers]

end Json

namespace DocumentBuilder

variable {builder : DocumentBuilder}

/-- Documents that are alike show the same if they have the same content type. -/
theorem shows_congr {members others : List (String × Json)} (h : Json.AlikeMembers members others)
    (hfind : Table.find? members builder.config.contentTypeField
      = Table.find? others builder.config.contentTypeField) :
    builder.shows (.object members) = builder.shows (.object others) := by
  have hcontentType : builder.contentType (.object members)
      = builder.contentType (.object others) := by
    simp only [contentType, Json.member?, hfind]
  simp only [shows, hcontentType, h.outline, h.infer]

/-- A content type that is not read from an identifier that the document is given. -/
def Anchored (builder : DocumentBuilder) (document : Json) : Prop :=
  builder.lacksIdentity document = true →
    builder.config.identityField ≠ builder.config.contentTypeField

/-- **Whatever identifier a document is given, it shows the same.** -/
theorem shows_prepare {document first second : Json} (h : builder.Anchored document)
    {id other : String} (htype : (Json.text id).type = (Json.text other).type)
    (hfirst : builder.prepare document id = .ok first)
    (hsecond : builder.prepare document other = .ok second) :
    builder.shows first = builder.shows second := by
  by_cases hlacks : builder.lacksIdentity document = true
  · obtain ⟨members, rfl, rfl⟩ := prepare_eq_ok hfirst
    obtain rfl := Except.ok.inj hsecond
    have hmissing : (present? members builder.config.identityField).isSome = false := by
      simpa [lacksIdentity] using hlacks
    have hfill : ∀ text, fillIn members builder.config.identityField text
        = Table.insert members builder.config.identityField (.text text) := by
      intro text
      rw [fillIn, hmissing]
      rfl
    have halike : Json.AlikeMembers
        (Table.insert members builder.config.identityField (.text id))
        (Table.insert members builder.config.identityField (.text other)) :=
      (Json.AlikeMembers.refl members).insert _ (.inr ⟨id, other, rfl, rfl, htype⟩)
    have hfind : ∀ text, Table.find? (Table.insert members builder.config.identityField text)
        builder.config.contentTypeField
          = Table.find? members builder.config.contentTypeField := fun text =>
      Table.find?_insert_ne members (Ne.symm (h hlacks)) text
    have hpresent : ∀ text, present? (Table.insert members builder.config.identityField text)
        builder.config.contentTypeField
          = present? members builder.config.contentTypeField := by
      intro text
      rw [present?, present?, hfind]
    simp only [hfill]
    simp only [fillIn, hpresent]
    split
    · exact shows_congr halike (by rw [hfind, hfind])
    · exact shows_congr (halike.insert _ (.inl rfl))
        (by rw [Table.find?_insert_self, Table.find?_insert_self])
  · rw [prepare_congr (Bool.not_eq_true _ ▸ hlacks) id other, hsecond] at hfirst
    rw [Except.ok.inj hfirst]

end DocumentBuilder

end DocIndex
