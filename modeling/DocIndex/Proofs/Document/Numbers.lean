/-
The numbers of a document as they are indexed by default.

A number at a path becomes one searched number under that path: an integer of 64 bits stays an
integer, and any other number becomes a double.  Nothing else gets the name of the path, because
the parts that are derived from values have names whose last segment begins with an at sign.  So if
all values at a path are numbers, the fields of its name, and what is noted of it, are known from
these values alone.
-/
import DocIndex.Proofs.Document.Parts
import DocIndex.Proofs.Schema.Resolving
import DocIndex.Proofs.Writing.Holdings

namespace DocIndex

namespace Json

/-- The number as which a value is indexed by default. -/
def numeric? : Json → Option Numeric
  | .int n => some (if fitsInt64 n then .long n else .double (Double.ofInt n))
  | .double x => some (.double x)
  | _ => none

/-- Every value of a document at a path is a number. -/
def NumbersAt (json : Json) (path : String) : Prop :=
  ∀ value ∈ json.valuesAt path, value.numeric?.isSome = true

instance (json : Json) (path : String) : Decidable (json.NumbersAt path) :=
  inferInstanceAs (Decidable (∀ value ∈ json.valuesAt path, value.numeric?.isSome = true))

end Json

/-- The searched field of a number. -/
def Field.number (path : String) : Numeric → Field
  | .long n => .long path n
  | .double x => .double path x

theorem Field.name_number (path : String) (n : Numeric) : (number path n).name = path := by
  cases n <;> rfl

theorem Field.indexed_number (path : String) (n : Numeric) : (number path n).indexed = true := by
  cases n <;> rfl

namespace DocumentBuilder

/--
Values at a path are projected by default, whatever was configured for other paths, and no part of
a value has its name.
-/
structure PlainAt (builder : DocumentBuilder) (path : String) : Prop where
  configured : ∀ entry ∈ builder.fields.configured, entry.1.path ≠ path
  notIdentity : path ∉ builder.fields.identityPaths
  segment : (Field.lastSegment path).head? ≠ some '@'

/-- What a number is projected to. -/
def numberProjection (path : String) : Numeric → Projection
  | .long n => ⟨path, .integer, Strategy.int64.name, [.long path n]⟩
  | .double x => ⟨path, .float, Strategy.double.name, [.double path x]⟩

/-- What is noted of a number. -/
def numberInfo (path : String) : Numeric → FieldInfo
  | .long _ => ⟨path, .integer, path, .long, Strategy.int64.name, none⟩
  | .double _ => ⟨path, .float, path, .double, Strategy.double.name, none⟩

@[simp] theorem fields_numberProjection (path : String) (n : Numeric) :
    (numberProjection path n).fields = [Field.number path n] := by
  cases n <;> rfl

theorem infoOf_numberProjection (path : String) (n : Numeric) :
    (numberProjection path n).infoOf (Field.number path n) = numberInfo path n := by
  cases n <;> rfl

variable {builder : DocumentBuilder} {path contentType : String}

/-- The name of a part of a value is not the path. -/
theorem PlainAt.name_ne (h : builder.PlainAt path) {other : String} {field : Field}
    (hfield : field.NamedFor other) (hother : other ≠ path) : field.name ≠ path := by
  rcases hfield with hname | ⟨part, hdot, hname⟩
  · exact fun heq => hother (hname.symm.trans heq)
  · intro heq
    have hsegment := h.segment
    rw [← heq, hname, Field.lastSegment_derivedName _ hdot] at hsegment
    exact hsegment rfl

theorem PlainAt.resolve? (h : builder.PlainAt path) (type : JsonType) :
    builder.fields.resolve? ⟨contentType, path⟩ type = Strategy.default? type := by
  have hnone : (builder.fields.configured.find? fun entry =>
      type ≠ .array && entry.1 = ⟨contentType, path⟩) = none := by
    refine List.find?_eq_none.mpr fun entry hentry hplace => ?_
    have hplace : entry.1 = ⟨contentType, path⟩ := by simp_all
    exact h.configured entry hentry (by rw [hplace])
  have hidentity : builder.fields.identityPaths.contains path = false := by
    simpa using h.notIdentity
  simp only [FieldConfiguration.resolve?, hidentity, Bool.false_eq_true, if_false, hnone]

/-- A number is projected to itself. -/
theorem PlainAt.project_number (h : builder.PlainAt path) {value : Json} {n : Numeric}
    (hvalue : value.numeric? = some n) :
    builder.project ⟨contentType, path⟩ value = .ok [numberProjection path n] := by
  cases value with
  | int m =>
      obtain rfl := Option.some.inj hvalue
      by_cases hfits : fitsInt64 m = true
      · have htype : (Json.int m).type = .integer := if_pos hfits
        have hinteger : Strategy.integer? (.int m) = some m := if_pos hfits
        simp only [project, htype, h.resolve?, Strategy.default?, Strategy.project,
          Strategy.fields?, hinteger, if_pos hfits]
        rfl
      · have htype : (Json.int m).type = .float := if_neg hfits
        simp only [project, htype, h.resolve?, Strategy.default?, Strategy.project,
          Strategy.fields?, Strategy.double?, if_neg hfits]
        rfl
  | double x =>
      obtain rfl := Option.some.inj hvalue
      simp only [project, Json.type, h.resolve?, Strategy.default?, Strategy.project,
        Strategy.fields?, Strategy.double?]
      rfl
  | _ => cases hvalue

/-- Nothing of the name of its path is made of an array or an object as a whole. -/
theorem PlainAt.project_container (h : builder.PlainAt path) {value : Json}
    (hvalue : value.isContainer = true) {group : List Projection}
    (hgroup : builder.project ⟨contentType, path⟩ value = .ok group) :
    ∀ projection ∈ group, ∀ field ∈ projection.fields, field.name ≠ path := by
  cases value with
  | array items =>
      simp only [project, Json.type, h.resolve?, Strategy.default?] at hgroup
      obtain ⟨projection, hproject, heq⟩ := bind_eq_ok.mp hgroup
      obtain rfl := Except.ok.inj hproject
      obtain rfl := Except.ok.inj heq
      intro projection hprojection field hfield heq
      obtain rfl := List.mem_singleton.mp hprojection
      obtain rfl := List.mem_singleton.mp hfield
      have hsegment := h.segment
      rw [← heq] at hsegment
      exact hsegment (by
        show (Field.lastSegment (Field.derivedName _ _)).head? = _
        rw [Field.lastSegment_derivedName _ (by decide)]
        rfl)
  | object members =>
      simp only [project, Json.type, h.resolve?, Strategy.default?] at hgroup
      obtain rfl := Except.ok.inj hgroup
      simp
  | _ => simp [Json.isContainer] at hvalue

/-- If the values at the path are numbers, its fields come from numbers there. -/
theorem PlainAt.projection_iff (h : builder.PlainAt path) {part : String × Json}
    (hpart : part.1 = path → part.2.isContainer = false → part.2.numeric?.isSome = true)
    {group : List Projection}
    (hgroup : builder.project ⟨contentType, part.1⟩ part.2 = .ok group) (projection : Projection) :
    (projection ∈ group ∧ ∃ field ∈ projection.fields, field.name = path) ↔
      part.1 = path ∧ ∃ n, part.2.numeric? = some n ∧ projection = numberProjection path n := by
  obtain ⟨other, value⟩ := part
  by_cases hother : other = path
  · subst hother
    cases hcontainer : value.isContainer with
    | false =>
        obtain ⟨n, hn⟩ := Option.isSome_iff_exists.mp (hpart rfl hcontainer)
        obtain rfl := Except.ok.inj ((h.project_number hn).symm.trans hgroup)
        constructor
        · rintro ⟨hprojection, -⟩
          exact ⟨rfl, n, hn, List.mem_singleton.mp hprojection⟩
        · rintro ⟨-, m, hm, rfl⟩
          obtain rfl := Option.some.inj (hn.symm.trans hm)
          exact ⟨List.mem_singleton_self _, Field.number other n, by simp, Field.name_number _ _⟩
    | true =>
        refine iff_of_false ?_ ?_
        · rintro ⟨hprojection, field, hfield, hname⟩
          exact h.project_container hcontainer hgroup projection hprojection field hfield hname
        · rintro ⟨-, n, hn, -⟩
          cases value <;> cases hcontainer <;> cases hn
  · refine iff_of_false ?_ fun hiff => hother hiff.1
    rintro ⟨hprojection, field, hfield, hname⟩
    exact h.name_ne (project_namedFor hgroup projection hprojection field hfield) hother hname

variable {json : Json} {built : BuiltDocument}

/-- The projections with a field of the name of the path are those of the numbers there. -/
theorem PlainAt.mem_projections (h : builder.PlainAt path) (hnumbers : json.NumbersAt path)
    {projections : List Projection}
    (hparts : builder.ProjectsTo contentType (json.parts "") projections)
    (projection : Projection) :
    (projection ∈ projections ∧ ∃ field ∈ projection.fields, field.name = path) ↔
      ∃ value ∈ json.valuesAt path, ∃ n, value.numeric? = some n ∧
        projection = numberProjection path n := by
  have hpart : ∀ part ∈ json.parts "", part.1 = path → part.2.isContainer = false →
      part.2.numeric?.isSome = true := by
    rintro ⟨_, value⟩ hpart rfl hscalar
    exact hnumbers value (Json.mem_valuesAt.mpr ⟨hpart, hscalar⟩)
  rw [hparts.mem_iff]
  constructor
  · rintro ⟨⟨⟨_, value⟩, hmem, group, hgroup, hprojection⟩, hfield⟩
    obtain ⟨rfl, n, hn, rfl⟩ :=
      (h.projection_iff (hpart _ hmem) hgroup projection).mp ⟨hprojection, hfield⟩
    have hscalar : value.isContainer = false := by cases value <;> first | rfl | cases hn
    exact ⟨value, Json.mem_valuesAt.mpr ⟨hmem, hscalar⟩, n, hn, rfl⟩
  · rintro ⟨value, hvalue, n, hn, rfl⟩
    obtain ⟨hmem, -⟩ := Json.mem_valuesAt.mp hvalue
    exact ⟨⟨_, hmem, _, h.project_number hn, List.mem_singleton_self _⟩, Field.number path n,
      by simp, Field.name_number _ _⟩

/-- The searched fields of the name of the path are the numbers there. -/
theorem PlainAt.mem_document (h : builder.PlainAt path) (hnumbers : json.NumbersAt path)
    (hbuild : builder.build json = .ok built) (field : Field) :
    (field ∈ built.document ∧ field.indexed = true ∧ field.name = path) ↔
      ∃ value ∈ json.valuesAt path, ∃ n, value.numeric? = some n ∧ field = .number path n := by
  obtain ⟨projections, hbuilt⟩ := builtBy hbuild
  have hprojections := h.mem_projections hnumbers hbuilt.parts
  constructor
  · rintro ⟨hfield, hindexed, hname⟩
    obtain ⟨projection, hprojection, hfield⟩ := (hbuilt.mem_document hindexed).mp hfield
    obtain ⟨value, hvalue, n, hn, rfl⟩ :=
      (hprojections projection).mp ⟨hprojection, field, hfield, hname⟩
    rw [fields_numberProjection] at hfield
    exact ⟨value, hvalue, n, hn, List.mem_singleton.mp hfield⟩
  · rintro ⟨value, hvalue, n, hn, rfl⟩
    obtain ⟨hprojection, -⟩ := (hprojections _).mpr ⟨value, hvalue, n, hn, rfl⟩
    have hindexed := Field.indexed_number path n
    exact ⟨(hbuilt.mem_document hindexed).mpr ⟨_, hprojection, by simp⟩, hindexed,
      Field.name_number _ _⟩

/-- What is noted of the field is of the numbers at the path. -/
theorem PlainAt.mem_infos (h : builder.PlainAt path) (hnumbers : json.NumbersAt path)
    (hbuild : builder.build json = .ok built) (info : FieldInfo) :
    (info ∈ built.infos ∧ info.fieldName = path) ↔
      ∃ value ∈ json.valuesAt path, ∃ n, value.numeric? = some n ∧ info = numberInfo path n := by
  obtain ⟨projections, hbuilt⟩ := builtBy hbuild
  have hprojections := h.mem_projections hnumbers hbuilt.parts
  rw [hbuilt.mem_infos]
  constructor
  · rintro ⟨⟨projection, hprojection, field, hfield, rfl⟩, hname⟩
    obtain ⟨value, hvalue, n, hn, rfl⟩ :=
      (hprojections projection).mp ⟨hprojection, field, hfield, hname⟩
    rw [fields_numberProjection] at hfield
    rw [List.mem_singleton.mp hfield]
    exact ⟨value, hvalue, n, hn, infoOf_numberProjection _ _⟩
  · rintro ⟨value, hvalue, n, hn, rfl⟩
    obtain ⟨hprojection, -⟩ := (hprojections _).mpr ⟨value, hvalue, n, hn, rfl⟩
    exact ⟨⟨_, hprojection, Field.number path n, by simp, infoOf_numberProjection _ _⟩,
      by cases n <;> rfl⟩

end DocumentBuilder

namespace Held.Made

variable {builder : DocumentBuilder} {path : String} {held : Held}

/-- The numbers of the field are those at the path. -/
theorem mem_numbersIn (hmade : held.Made builder) (h : builder.PlainAt path)
    (hnumbers : held.json.NumbersAt path) (n : Numeric) :
    n ∈ InvertedIndex.numbersIn held.fields path ↔
      ∃ value ∈ held.json.valuesAt path, value.numeric? = some n := by
  have hfield := h.mem_document hnumbers hmade.build
  simp only [InvertedIndex.numbersIn, List.mem_filterMap]
  constructor
  · rintro ⟨f, hf, hnumber⟩
    unfold InvertedIndex.AnalyzedField.number? at hnumber
    split at hnumber
    · rename_i hnamed
      obtain ⟨hindexed, hname⟩ := Bool.and_eq_true_iff.mp hnamed
      obtain ⟨value, hvalue, m, hm, heq⟩ := (hfield f.field).mp
        ⟨hmade.mem_document.mpr ⟨f, hf, rfl⟩, hindexed, (beq_iff_eq.mp hname).symm⟩
      rw [heq] at hnumber
      have hsame : m = n := by cases m <;> exact Option.some.inj hnumber
      exact ⟨value, hvalue, hsame ▸ hm⟩
    · cases hnumber
  · rintro ⟨value, hvalue, hn⟩
    obtain ⟨hmem, -, -⟩ := (hfield _).mpr ⟨value, hvalue, n, hn, rfl⟩
    obtain ⟨f, hf, heq⟩ := hmade.mem_document.mp hmem
    refine ⟨f, hf, ?_⟩
    cases n <;> simp [InvertedIndex.AnalyzedField.number?, heq, Field.number, Field.long,
      Field.double]

/-- The field has no terms. -/
theorem hasTerm_eq_false (hmade : held.Made builder) (h : builder.PlainAt path)
    (hnumbers : held.json.NumbersAt path) (test : String → Bool) :
    InvertedIndex.hasTerm held.fields path test = false := by
  refine List.any_eq_false.mpr fun f hf => ?_
  have hterms : f.hasTermsOf path = false := by
    by_contra hterms
    simp only [InvertedIndex.AnalyzedField.hasTermsOf, Bool.not_eq_false, Bool.and_eq_true,
      beq_iff_eq] at hterms
    obtain ⟨⟨hindexed, hname⟩, hlexical⟩ := hterms
    obtain ⟨_, -, n, -, heq⟩ := (h.mem_document hnumbers hmade.build f.field).mp
      ⟨hmade.mem_document.mpr ⟨f, hf, rfl⟩, hindexed, hname.symm⟩
    rw [heq] at hlexical
    cases n <;> cases hlexical
  simp [hterms]

end Held.Made

/-! ### What is known of the field -/

namespace DocumentBuilder

theorem not_isDate_numberInfo (path : String) (n : Numeric) : ¬ (numberInfo path n).IsDate := by
  cases n <;> rintro ⟨htype, -⟩ <;> cases htype

theorem isNumeric_numberInfo (path : String) (n : Numeric) :
    (numberInfo path n).kind.isNumeric = true := by
  cases n <;> rfl

end DocumentBuilder

namespace DocumentStore.Holds

open DocumentBuilder (PlainAt numberInfo)

variable {builder : DocumentBuilder} {store : DocumentStore} {entries : List Held}
  {path : String}

section Numbers

variable (hholds : store.Holds builder entries) (hplain : builder.PlainAt path)
  (hnumbers : ∀ held ∈ entries, held.json.NumbersAt path)

include hholds hplain hnumbers

/-- What is observed of the field is of the numbers of documents. -/
theorem mem_observations_of_numbers (info : FieldInfo) :
    info ∈ store.catalog.observations path none ↔ ∃ held ∈ entries,
      ∃ value ∈ held.json.valuesAt path, ∃ n, value.numeric? = some n ∧
        info = numberInfo path n := by
  rw [hholds.mem_observations]
  constructor
  · rintro ⟨hname, held, hheld, hinfo⟩
    exact ⟨held, hheld, (hplain.mem_infos (hnumbers held hheld)
      (hholds.made held hheld).build info).mp ⟨hinfo, hname⟩⟩
  · rintro ⟨held, hheld, hvalue⟩
    obtain ⟨hinfo, hname⟩ := (hplain.mem_infos (hnumbers held hheld)
      (hholds.made held hheld).build info).mpr hvalue
    exact ⟨hname, held, hheld, hinfo⟩

/-- The field is searched for numbers of a kind that some document has, or no document has one. -/
theorem resolve_of_numbers :
    (∃ held ∈ entries, ∃ value ∈ held.json.valuesAt path, ∃ n, value.numeric? = some n ∧
      store.catalog.resolve path none = .numeric (numberInfo path n).kind) ∨
    (store.catalog.observations path none = [] ∧
      ∀ held ∈ entries, held.json.valuesAt path = []) := by
  have hobserved := mem_observations_of_numbers hholds hplain hnumbers
  have hdescribes := store.catalog.describes_resolve path none
  cases huse : store.catalog.resolve path none with
  | numeric kind =>
      rw [huse] at hdescribes
      obtain ⟨-, -, info, hinfo, rfl⟩ := hdescribes
      obtain ⟨held, hheld, value, hvalue, n, hn, rfl⟩ := (hobserved info).mp hinfo
      exact .inl ⟨held, hheld, value, hvalue, n, hn, rfl⟩
  | date =>
      rw [huse] at hdescribes
      obtain ⟨info, hinfo, hdate⟩ := hdescribes
      obtain ⟨_, _, _, _, n, _, rfl⟩ := (hobserved info).mp hinfo
      exact absurd hdate (DocumentBuilder.not_isDate_numberInfo path n)
  | lexical =>
      rw [huse] at hdescribes
      obtain ⟨⟨info, hinfo⟩, hall⟩ := hdescribes
      obtain ⟨_, _, _, _, n, _, rfl⟩ := (hobserved info).mp hinfo
      have hnone := (hall _ hinfo).2
      rw [DocumentBuilder.isNumeric_numberInfo] at hnone
      cases hnone
  | unknown =>
      rw [huse] at hdescribes
      refine .inr ⟨List.eq_nil_iff_forall_not_mem.mpr hdescribes, fun held hheld => ?_⟩
      refine List.eq_nil_iff_forall_not_mem.mpr fun value hvalue => ?_
      obtain ⟨n, hn⟩ := Option.isSome_iff_exists.mp (hnumbers held hheld value hvalue)
      exact hdescribes _ ((hobserved _).mpr ⟨held, hheld, value, hvalue, n, hn, rfl⟩)

end Numbers

end DocumentStore.Holds

end DocIndex
