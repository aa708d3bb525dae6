/-
What a store notes of its documents.

A document is noted before it is put in, under its content type: every field that is searched,
and the shape of its JSON.  What is noted is only ever added to, so it stays noted through all
edits that follow, those that delete the document among them.  With a commit it is written down
as text, and a store that is opened at the commit has noted the same documents again.
-/
import DocIndex.Proofs.Document.Parts
import DocIndex.Proofs.Schema.Reread
import DocIndex.Proofs.Writing.Holdings
import DocIndex.Proofs.Writing.Reopening

namespace DocIndex

open FieldCatalog (InScope)

/-! ### Fields and their observations -/

/-- An observation of a field: its name, its kind, and its analyzer if it is text. -/
structure FieldInfo.Notes (info : FieldInfo) (field : Field) : Prop where
  name : info.fieldName = field.name
  kind : info.kind = field.kind
  analyzer : info.analyzer = field.analyzer?

/-- Every searched field of a document is observed when that is built. -/
theorem DocumentBuilder.exists_info {builder : DocumentBuilder} {json : Json}
    {built : BuiltDocument} (h : builder.build json = .ok built) {field : Field}
    (hfield : field ∈ built.document) (hindexed : field.indexed = true) :
    ∃ info ∈ built.infos, info.Notes field := by
  obtain ⟨projections, hbuilt⟩ := builtBy h
  obtain ⟨projection, hprojection, hown⟩ := (hbuilt.mem_document hindexed).mp hfield
  exact ⟨projection.infoOf field,
    (hbuilt.mem_infos _).mpr ⟨projection, hprojection, field, hown, rfl⟩, rfl, rfl, rfl⟩

/-- The schema of a document is that of its JSON. -/
theorem DocumentBuilder.schema_of_build {builder : DocumentBuilder} {json : Json}
    {built : BuiltDocument} (h : builder.build json = .ok built) :
    built.schema = .infer json := by
  obtain ⟨_, _, _, -, -, -, -, rfl⟩ := build_eq_ok h
  rfl

/-- A document that was built of JSON in which objects are tables. -/
def BuiltDocument.FromTables (built : BuiltDocument) : Prop :=
  ∃ builder json, json.Tabular ∧ DocumentBuilder.build builder json = .ok built

namespace DocumentStore

variable {store next : DocumentStore} {built : BuiltDocument}

/-! ### What is known of a document -/

/-- All that is known of the searched fields of a document, and of the shape of its JSON. -/
structure Covers (store : DocumentStore) (contentType : String) (document : Document)
    (json : Json) : Prop where
  recorded : ∀ field ∈ document, field.indexed = true →
    ∃ info, store.catalog.Knows contentType info ∧ info.Notes field
  resolved : ∀ field ∈ document, field.indexed = true → ∀ scope, InScope scope contentType →
    store.catalog.resolve field.name scope ≠ .unknown
  listed : ∀ field ∈ document, field.indexed = true → field.kind.isLexical = true →
    "$".isPrefixOf field.name = false → ∀ scope, InScope scope contentType →
      field.name ∈ store.catalog.lexicalFields scope
  described : store.schemas.Describes contentType json

/-- A document of tables that a store has noted, whatever JSON of its schema it was built of. -/
structure Notes (store : DocumentStore) (built : BuiltDocument) : Prop where
  fromTables : built.FromTables
  knows : ∀ info ∈ built.infos, store.catalog.Knows built.contentType info
  describes : ∀ json : Json, json.Tabular → built.schema = .infer json →
    store.schemas.Describes built.contentType json

/-- **What is noted of a document covers it**, and the JSON that it was built of. -/
theorem Notes.covers (h : store.Notes built) {builder : DocumentBuilder} {json : Json}
    (htabular : json.Tabular) (hbuild : builder.build json = .ok built) :
    store.Covers built.contentType built.document json := by
  have hrecorded : ∀ field ∈ built.document, field.indexed = true →
      ∃ info, store.catalog.Knows built.contentType info ∧ info.Notes field := by
    intro field hfield hindexed
    obtain ⟨info, hinfo, hnotes⟩ := DocumentBuilder.exists_info hbuild hfield hindexed
    exact ⟨info, h.knows info hinfo, hnotes⟩
  refine ⟨hrecorded, ?_, ?_, h.describes json htabular (DocumentBuilder.schema_of_build hbuild)⟩
  · intro field hfield hindexed scope hscope
    obtain ⟨info, hknows, hnotes⟩ := hrecorded field hfield hindexed
    exact hnotes.name ▸ hknows.resolve_ne_unknown hscope
  · intro field hfield hindexed hlexical hname scope hscope
    obtain ⟨info, hknows, hnotes⟩ := hrecorded field hfield hindexed
    rw [← hnotes.name] at hname ⊢
    exact hknows.mem_lexicalFields hscope (hnotes.kind ▸ hlexical) hname

/-! ### Noting -/

/-- The catalogs are tables, and the schemas are in order. -/
structure Tidy (store : DocumentStore) : Prop where
  catalog : Table.Sorted store.catalog
  schemas : JsonSchema.TidyTable store.schemas

/-- Only what is known counts. -/
theorem Notes.congr (h : store.Notes built) (hcatalog : next.catalog = store.catalog)
    (hschemas : next.schemas = store.schemas) : next.Notes built :=
  ⟨h.fromTables, hcatalog ▸ h.knows, hschemas ▸ h.describes⟩

theorem Tidy.congr (h : store.Tidy) (hcatalog : next.catalog = store.catalog)
    (hschemas : next.schemas = store.schemas) : next.Tidy :=
  ⟨hcatalog ▸ h.catalog, hschemas ▸ h.schemas⟩

/-- Noting a document does not forget another one. -/
theorem Notes.record {other : BuiltDocument} (hother : store.Notes other)
    (built : BuiltDocument) : (store.record built).Notes other where
  fromTables := hother.fromTables
  knows := fun info hinfo => FieldCatalog.knows_merge.mpr (.inl (hother.knows info hinfo))
  describes := fun json htabular hschema =>
    (hother.describes json htabular hschema).merge built.contentType built.schema

/-- **A document is noted**, and what is known stays tidy. -/
theorem notes_record (store : DocumentStore) (h : built.FromTables) :
    (store.record built).Notes built where
  fromTables := h
  knows := fun _ hinfo => FieldCatalog.knows_merge.mpr (.inr ⟨rfl, hinfo⟩)
  describes := fun json htabular hschema => by
    rw [record, hschema]
    exact SchemaCatalog.describes_merge_self _ _ (JsonSchema.describes_infer htabular)

theorem Tidy.record (h : store.Tidy) (hbuilt : built.FromTables) : (store.record built).Tidy := by
  obtain ⟨builder, json, htabular, hbuild⟩ := hbuilt
  have htidy : built.schema.Tidy :=
    DocumentBuilder.schema_of_build hbuild ▸ JsonSchema.tidy_infer htabular
  exact ⟨Table.sorted_alter h.catalog _ _, SchemaCatalog.tidy_merge h.schemas _ htidy⟩

end DocumentStore

/-! ### Edits -/

namespace DocumentStore

variable {store middle next : DocumentStore} {analyzers : Analyzers}

/-- A store that has noted whatever another one has, and documents besides. -/
structure NotesAll (store : DocumentStore) (documents : List BuiltDocument)
    (next : DocumentStore) : Prop where
  tidy : next.Tidy
  remembers : ∀ built, store.Notes built → next.Notes built
  documents : ∀ built ∈ documents, next.Notes built

theorem NotesAll.refl (h : store.Tidy) : store.NotesAll [] store :=
  ⟨h, fun _ hbuilt => hbuilt, List.forall_mem_nil _⟩

theorem NotesAll.trans {first second : List BuiltDocument} (h : store.NotesAll first middle)
    (h' : middle.NotesAll second next) : store.NotesAll (first ++ second) next where
  tidy := h'.tidy
  remembers := fun built hbuilt => h'.remembers built (h.remembers built hbuilt)
  documents := List.forall_mem_append.mpr
    ⟨fun built hbuilt => h'.remembers built (h.documents built hbuilt), h'.documents⟩

theorem NotesAll.congr {documents : List BuiltDocument} (h : store.NotesAll documents middle)
    (hcatalog : next.catalog = middle.catalog) (hschemas : next.schemas = middle.schemas) :
    store.NotesAll documents next where
  tidy := h.tidy.congr hcatalog hschemas
  remembers := fun built hbuilt => (h.remembers built hbuilt).congr hcatalog hschemas
  documents := fun built hbuilt => (h.documents built hbuilt).congr hcatalog hschemas

/-- A document that is recorded is noted. -/
theorem notesAll_record (h : store.Tidy) {built : BuiltDocument} (hbuilt : built.FromTables) :
    store.NotesAll [built] (store.record built) :=
  ⟨h.record hbuilt, fun _ hother => hother.record built,
    List.forall_mem_singleton.mpr (store.notes_record hbuilt)⟩

/-- Whether an edit can be made or not, its document is noted. -/
theorem notesAll_makeEdit (h : store.Tidy) {edit : Edit}
    (htables : ∀ built ∈ edit.documents, built.FromTables) :
    store.NotesAll edit.documents (store.makeEdit analyzers edit).2 := by
  cases edit with
  | add built =>
      have hnotes := notesAll_record h (htables built List.mem_cons_self)
      exact hnotes.congr (withWriter_catalog _ _) (withWriter_schemas _ _)
  | replace built =>
      have hnotes := notesAll_record h (htables built List.mem_cons_self)
      exact hnotes.congr (withWriter_catalog _ _) (withWriter_schemas _ _)
  | delete id => exact (NotesAll.refl h).congr rfl rfl

/-- **Edits that are made are noted.** -/
theorem notesAll_takeEdits : ∀ {edits : List Edit} {store : DocumentStore},
    (∀ edit ∈ edits, edit.Analysable analyzers) →
    (∀ built ∈ edits.flatMap Edit.documents, built.FromTables) → store.Tidy →
      store.NotesAll (edits.flatMap Edit.documents) (store.takeEdits analyzers edits)
  | [], _, _, _, h => .refl h
  | edit :: rest, store, hanalysable, htables, h => by
      obtain ⟨hfirst, hrest⟩ := List.forall_mem_cons.mp hanalysable
      obtain ⟨hown, hothers⟩ := List.forall_mem_append.mp htables
      have hmade : store.NotesAll edit.documents (store.makeEdit analyzers edit).2 :=
        notesAll_makeEdit h hown
      obtain ⟨middle, hmake, -⟩ := makeEdit_ok hfirst store
      rw [hmake] at hmade
      have htake : store.takeEdits analyzers (edit :: rest) = middle.takeEdits analyzers rest := by
        simp only [takeEdits, makeEdits, hmake]
      rw [htake]
      exact hmade.trans (notesAll_takeEdits hrest hothers hmade.tidy)

end DocumentStore

namespace DocumentBuilder

variable {builder : DocumentBuilder}

/-- Filling a member in leaves a table of tables. -/
theorem tabular_fillIn {members : List (String × Json)} (h : (Json.object members).Tabular)
    (key value : String) : (Json.object (fillIn members key value)).Tabular := by
  refine ⟨sorted_fillIn h.1 key value, Json.tabularMembers_iff.mpr fun member hmember => ?_⟩
  have hold := Json.tabularMembers_iff.mp h.2
  unfold fillIn at hmember
  split at hmember
  · exact hold member hmember
  · rcases Table.mem_insert hmember with rfl | hmember
    · trivial
    · exact hold member hmember

theorem tabular_prepare {document json : Json} {freshId : String} (h : document.Tabular)
    (hprepare : builder.prepare document freshId = .ok json) : json.Tabular := by
  obtain ⟨members, rfl, rfl⟩ := prepare_eq_ok hprepare
  exact tabular_fillIn (tabular_fillIn h _ _) _ _

/-- What a request is converted to puts in what was built of its document. -/
theorem fromTables_of_convertOne {freshId : String} {request : WriteRequest} {edit : Edit}
    (h : builder.convertOne freshId request = .ok edit)
    (htabular : ∀ document ∈ request.document?, document.Tabular) :
    ∀ built ∈ edit.documents, built.FromTables := by
  cases request with
  | create document =>
      obtain ⟨json, hprepare, h⟩ := bind_eq_ok.mp h
      obtain ⟨built, hbuild, h⟩ := bind_eq_ok.mp h
      obtain rfl := Except.ok.inj h
      exact List.forall_mem_singleton.mpr
        ⟨builder, json, tabular_prepare (htabular document rfl) hprepare, hbuild⟩
  | update document =>
      rw [convertOne] at h
      split at h
      · obtain ⟨json, hprepare, h⟩ := bind_eq_ok.mp h
        obtain ⟨built, hbuild, h⟩ := bind_eq_ok.mp h
        obtain rfl := Except.ok.inj h
        exact List.forall_mem_singleton.mpr
          ⟨builder, json, tabular_prepare (htabular document rfl) hprepare, hbuild⟩
      · cases h
  | delete id =>
      obtain rfl := Except.ok.inj h
      exact List.forall_mem_nil _

theorem fromTables_of_convert : ∀ {requests : List WriteRequest} {next : IdentifierSupply}
    {edits : List Edit}, builder.convert next requests = .ok edits →
      (∀ request ∈ requests, ∀ document ∈ request.document?, document.Tabular) →
        ∀ built ∈ edits.flatMap Edit.documents, built.FromTables
  | [], _, _, h, _ => by
      obtain rfl := Except.ok.inj h
      exact List.forall_mem_nil _
  | _ :: _, _, _, h, htabular => by
      obtain ⟨edit, hedit, h⟩ := bind_eq_ok.mp h
      obtain ⟨others, hothers, h⟩ := bind_eq_ok.mp h
      obtain rfl := Except.ok.inj h
      obtain ⟨hfirst, hrest⟩ := List.forall_mem_cons.mp htabular
      exact List.forall_mem_append.mpr
        ⟨fromTables_of_convertOne hedit hfirst, fromTables_of_convert hothers hrest⟩

end DocumentBuilder

/-! ### Noted with a commit -/

namespace DocumentStore

/-- **A store that is opened at a commit has noted what the committed one had.** -/
theorem notesAll_ofWriter {store next : DocumentStore} (h : store.Tidy)
    {writer : Storage.IndexWriter} (huserData : writer.last.userData = store.userData)
    {identityField : String} (hopen : ofWriter writer identityField = .ok next) :
    store.NotesAll [] next := by
  obtain ⟨catalog, hcatalog, hopen⟩ := bind_eq_ok.mp hopen
  obtain ⟨schemas, hschemas, hopen⟩ := bind_eq_ok.mp hopen
  obtain rfl := Except.ok.inj hopen
  obtain ⟨again, hagain, hsorted, hknows⟩ := FieldCatalog.ofText?_write h.catalog
  simp only [readUserData, huserData, store.find?_fieldInfos, hagain] at hcatalog
  obtain rfl := Except.ok.inj hcatalog
  simp only [readUserData, huserData, store.find?_schemas] at hschemas
  split at hschemas
  · rename_i read hread
    obtain rfl := Except.ok.inj hschemas
    obtain rfl := SchemaCatalog.eq_of_ofText?_write h.schemas hread
    exact ⟨⟨hsorted, h.schemas⟩, fun built hbuilt =>
      ⟨hbuilt.fromTables, fun info hinfo => (hknows _ _).mpr (hbuilt.knows info hinfo),
        hbuilt.describes⟩, List.forall_mem_nil _⟩
  · cases hschemas

end DocumentStore

end DocIndex
