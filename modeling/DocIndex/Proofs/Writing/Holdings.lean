/-
What a store holds of the documents that were written to it.

Every document that was built went into the index under the next number, and what it showed
of its fields went into the catalog under its content type.  A document that is deleted stays
on this list with a mark, as it stays in the index, and the catalog does not forget it either.
So the catalog is known from the list, and so is the answer to every lookup: both are told
here entry by entry, and a store keeps to its list through every edit (`Holds.takeEdits`).
-/
import DocIndex.Proofs.Index.Listing
import DocIndex.Proofs.Index.Reference
import DocIndex.Proofs.Schema.Catalog
import DocIndex.Proofs.Writing.Conversion

namespace DocIndex

/-! ### Holding documents -/

/-- A document that was written, with what it was built to and whether it is live. -/
structure Held where
  json : Json
  built : BuiltDocument
  fields : List InvertedIndex.AnalyzedField
  live : Bool

namespace Held

/-- The document as it stands on a shelf. -/
def shelved (entry : Held) : Shelved := ⟨entry.fields, entry.live⟩

/-- The document is what the builder and its analyzers make of the JSON. -/
structure Made (builder : DocumentBuilder) (entry : Held) : Prop where
  build : builder.build entry.json = .ok entry.built
  analyze : InvertedIndex.analyze builder.analyzers entry.built.document = .ok entry.fields

/-- The document, deleted if it is live and has a term. -/
def spare (field term : String) (entry : Held) : Held :=
  if Shelf.isDoomed field term entry.shelved then { entry with live := false } else entry

variable {builder : DocumentBuilder} {entry : Held} {field term : String}

@[simp] theorem spare_json : (entry.spare field term).json = entry.json := by
  unfold spare
  split <;> rfl

@[simp] theorem spare_built : (entry.spare field term).built = entry.built := by
  unfold spare
  split <;> rfl

theorem Made.mem_document (h : entry.Made builder) {field : Field} :
    field ∈ entry.built.document ↔ ∃ f ∈ entry.fields, f.field = field := by
  rw [← InvertedIndex.map_field_of_analyze h.analyze, List.mem_map]

theorem Made.spare (h : entry.Made builder) : (entry.spare field term).Made builder := by
  unfold Held.spare
  split
  · exact ⟨h.build, h.analyze⟩
  · exact h

theorem shelved_spare : (entry.spare field term).shelved
    = if Shelf.isDoomed field term entry.shelved then { entry.shelved with live := false }
      else entry.shelved := by
  unfold Held.spare
  split <;> rfl

end Held

/-- The document that a request asks to be put in. -/
def WriteRequest.document? : WriteRequest → Option Json
  | .create document | .update document => some document
  | .delete _ => none

namespace DocumentBuilder

variable (builder : DocumentBuilder)

/-- The document of a request, in the form in which it is built. -/
def preparedOf (freshId : String) (request : WriteRequest) : List Json :=
  (request.document?.bind fun document => (builder.prepare document freshId).toOption).toList

/-- The documents of a chunk of requests, in the form in which they are built. -/
def prepared (next : IdentifierSupply) : List WriteRequest → List Json
  | [] => []
  | request :: rest =>
    builder.preparedOf (Identifier.ofNat next) request ++ prepared (next + 1) rest

end DocumentBuilder

namespace DocumentStore

/-- The store without documents. -/
def empty (config : Config) : DocumentStore :=
  ⟨.empty config.sourceCompression, [], [], config.identityField, none⟩

/-- A directory without a commit is opened as the store without documents. -/
theorem openAt_of_unmarked {σ : Type} [Storage σ] {config : Config} {analyzers : Analyzers}
    {directory : σ} (h : Storage.hasFile directory Storage.GenerationMarker.fileName = false) :
    openAt config analyzers directory = .ok (empty config) := by
  have hload : Storage.IndexWriter.load analyzers directory = .ok (.initial, .empty) := by
    simp only [Storage.IndexWriter.load, h, Bool.false_eq_true, if_false]
  simp only [openAt, Storage.IndexWriter.openAt, hload]
  rfl

end DocumentStore

/-- A new store after some edits. -/
def DocumentBuilder.storeOf (builder : DocumentBuilder) (edits : List Edit) : DocumentStore :=
  (DocumentStore.empty builder.config).takeEdits builder.analyzers edits

namespace DocumentStore

/-- A store of the documents on a list, in the order of their numbers. -/
structure Holds (builder : DocumentBuilder) (store : DocumentStore) (entries : List Held) :
    Prop where
  made : ∀ entry ∈ entries, entry.Made builder
  sorted : Table.Sorted store.catalog
  /-- What is known of fields is what the documents showed of them. -/
  knows : ∀ contentType info, store.catalog.Knows contentType info ↔
    ∃ entry ∈ entries, entry.built.contentType = contentType ∧ info ∈ entry.built.infos
  refines : Refines store.writer.index (entries.map Held.shelved)

variable {builder : DocumentBuilder} {store : DocumentStore} {entries : List Held}

namespace Holds

theorem empty (config : Config) : (DocumentStore.empty config).Holds builder [] where
  made := by simp
  sorted := Table.sorted_nil
  knows := by simp [DocumentStore.empty, FieldCatalog.Knows]
  refines := Refines.empty

/-! ### Edits -/

/-- The store after a document was noted and put in, behind what it now holds. -/
theorem put (h : store.Holds builder entries) {json : Json} {built : BuiltDocument}
    {fields : List InvertedIndex.AnalyzedField}
    (hmade : Held.Made builder ⟨json, built, fields, true⟩)
    {next : DocumentStore} (hcatalog : next.catalog = (store.record built).catalog)
    (hindex : next.writer.index = (store.writer.index.insert fields).1) :
    next.Holds builder (entries ++ [⟨json, built, fields, true⟩]) where
  made := by
    intro entry hentry
    rcases List.mem_append.mp hentry with hentry | hentry
    · exact h.made entry hentry
    · rwa [List.mem_singleton.mp hentry]
  sorted := by
    rw [hcatalog]
    exact Table.sorted_alter h.sorted _ _
  knows := by
    intro contentType info
    rw [hcatalog, record, FieldCatalog.knows_merge, h.knows]
    simp [or_and_right, exists_or]
  refines := by
    rw [hindex, List.map_append]
    exact h.refines.add fields

theorem delete (h : store.Holds builder entries) (field term : String) {next : DocumentStore}
    (hcatalog : next.catalog = store.catalog)
    (hindex : next.writer.index = (store.writer.index.deleteTerm field term).1) :
    next.Holds builder (entries.map (Held.spare field term)) where
  made := by
    intro entry hentry
    obtain ⟨old, hold, rfl⟩ := List.mem_map.mp hentry
    exact (h.made old hold).spare
  sorted := hcatalog ▸ h.sorted
  knows := by
    intro contentType info
    rw [hcatalog, h.knows]
    simp
  refines := by
    have hshelf : (entries.map (Held.spare field term)).map Held.shelved
        = (entries.map Held.shelved).map fun document =>
          if Shelf.isDoomed field term document then { document with live := false }
          else document := by
      rw [List.map_map, List.map_map]
      exact List.map_congr_left fun entry _ => Held.shelved_spare
    rw [hindex, hshelf]
    exact (h.refines.deleteTerm field term).2

/-- What the builder makes of a document can be added. -/
theorem makeEdit_add (h : store.Holds builder entries) {json : Json} {built : BuiltDocument}
    (hbuild : builder.build json = .ok built) :
    ∃ next later, store.makeEdit builder.analyzers (.add built) = (.ok (), next) ∧
      next.Holds builder later ∧ later.map Held.json = entries.map Held.json ++ [json] := by
  obtain ⟨fields, hfields⟩ := DocumentBuilder.analyze_built hbuild
  have hmake : store.makeEdit builder.analyzers (.add built) = (.ok (), { store.record built with
      writer := { store.writer with
        index := (store.writer.index.insert fields).1
        pending := store.writer.pending ++ [.add built.document] } }) := by
    rw [DocumentStore.makeEdit, Storage.IndexWriter.add_eq _ hfields]
    rfl
  exact ⟨_, _, hmake, h.put ⟨hbuild, hfields⟩ rfl rfl, by simp⟩

/-- What the builder makes of a document can take the place of others. -/
theorem makeEdit_replace (h : store.Holds builder entries) {json : Json} {built : BuiltDocument}
    (hbuild : builder.build json = .ok built) :
    ∃ next later, store.makeEdit builder.analyzers (.replace built) = (.ok (), next) ∧
      next.Holds builder later ∧ later.map Held.json = entries.map Held.json ++ [json] := by
  obtain ⟨fields, hfields⟩ := DocumentBuilder.analyze_built hbuild
  have hmake : store.makeEdit builder.analyzers (.replace built)
      = (.ok (), { store.record built with
        writer := { store.writer with
          index := ((store.writer.index.deleteTerm store.identityField built.id).1.insert fields).1
          pending := store.writer.pending ++
            [.deleteTerm store.identityField built.id, .add built.document] } }) := by
    rw [DocumentStore.makeEdit, Storage.IndexWriter.update_eq _ _ _ hfields]
    rfl
  have hdeleted : (store.makeEdit builder.analyzers (.delete built.id)).2.Holds builder
      (entries.map (Held.spare store.identityField built.id)) := h.delete _ _ rfl rfl
  exact ⟨_, _, hmake, hdeleted.put ⟨hbuild, hfields⟩ rfl rfl, by simp [Function.comp_def]⟩

/-- What a request is converted to can be made, and the document of the request is held then. -/
theorem makeEdit (h : store.Holds builder entries) {freshId : String} {request : WriteRequest}
    {edit : Edit} (hedit : builder.convertOne freshId request = .ok edit) :
    ∃ next later, store.makeEdit builder.analyzers edit = (.ok (), next) ∧
      next.Holds builder later ∧
      later.map Held.json = entries.map Held.json ++ builder.preparedOf freshId request := by
  cases request with
  | create document =>
      obtain ⟨json, hprepare, hedit⟩ := bind_eq_ok.mp hedit
      obtain ⟨built, hbuild, hedit⟩ := bind_eq_ok.mp hedit
      obtain rfl := Except.ok.inj hedit
      have hprepared : builder.preparedOf freshId (.create document) = [json] := by
        simp [DocumentBuilder.preparedOf, WriteRequest.document?, hprepare, Except.toOption]
      rw [hprepared]
      exact h.makeEdit_add hbuild
  | update document =>
      rw [DocumentBuilder.convertOne] at hedit
      split at hedit
      · obtain ⟨json, hprepare, hedit⟩ := bind_eq_ok.mp hedit
        obtain ⟨built, hbuild, hedit⟩ := bind_eq_ok.mp hedit
        obtain rfl := Except.ok.inj hedit
        have hprepared : builder.preparedOf freshId (.update document) = [json] := by
          simp [DocumentBuilder.preparedOf, WriteRequest.document?, hprepare, Except.toOption]
        rw [hprepared]
        exact h.makeEdit_replace hbuild
      · cases hedit
  | delete id =>
      obtain rfl := Except.ok.inj hedit
      exact ⟨_, _, rfl, h.delete store.identityField id rfl rfl,
        by simp [DocumentBuilder.preparedOf, WriteRequest.document?, Function.comp_def]⟩

/-- A store keeps to its list through the edits of a chunk of requests. -/
theorem takeEdits (h : store.Holds builder entries) {next : IdentifierSupply}
    {requests : List WriteRequest} {edits : List Edit}
    (hedits : builder.convert next requests = .ok edits) :
    ∃ later, (store.takeEdits builder.analyzers edits).Holds builder later ∧
      later.map Held.json = entries.map Held.json ++ builder.prepared next requests := by
  induction requests generalizing store entries next edits with
  | nil =>
      obtain rfl := Except.ok.inj hedits
      exact ⟨entries, h, (List.append_nil _).symm⟩
  | cons request rest ih =>
      obtain ⟨edit, hedit, hedits⟩ := bind_eq_ok.mp hedits
      obtain ⟨others, hothers, hedits⟩ := bind_eq_ok.mp hedits
      obtain rfl := Except.ok.inj hedits
      obtain ⟨middle, between, hmake, hmiddle, hjson⟩ := h.makeEdit hedit
      obtain ⟨later, hlater, hall⟩ := ih hmiddle hothers
      refine ⟨later, ?_, by rw [hall, hjson, DocumentBuilder.prepared, List.append_assoc]⟩
      rwa [DocumentStore.takeEdits, makeEdits, hmake]

/-- A new store holds the documents of the requests that were made of it. -/
theorem storeOf {next : IdentifierSupply} {requests : List WriteRequest} {edits : List Edit}
    (hedits : builder.convert next requests = .ok edits) :
    ∃ entries, (builder.storeOf edits).Holds builder entries ∧
      entries.map Held.json = builder.prepared next requests := by
  have hnew : (DocumentStore.empty builder.config).Holds builder [] := .empty builder.config
  exact hnew.takeEdits hedits

/-! ### Answers -/

theorem mem_live (h : store.Holds builder entries) {doc : DocId} :
    doc ∈ store.writer.index.live ↔ ∃ entry, entries[doc]? = some entry ∧ entry.live = true := by
  rw [h.refines.mem_live]
  simp only [List.getElem?_map, Option.map_eq_some_iff]
  constructor
  · rintro ⟨_, ⟨entry, hentry, rfl⟩, hlive⟩
    exact ⟨entry, hentry, hlive⟩
  · rintro ⟨entry, hentry, hlive⟩
    exact ⟨entry.shelved, ⟨entry, hentry, rfl⟩, hlive⟩

/-- A lookup finds the live documents that satisfy it on their own. -/
theorem mem_matching (h : store.Holds builder entries) {lookup : Lookup} {doc : DocId} :
    doc ∈ store.writer.index.matching lookup ↔ ∃ entry, entries[doc]? = some entry ∧
      entry.live = true ∧ InvertedIndex.satisfies entry.fields lookup = true := by
  rw [h.refines.matching, Shelf.matching, Shelf.mem_idsWhere]
  simp only [List.getElem?_map, Option.map_eq_some_iff, Bool.and_eq_true]
  constructor
  · rintro ⟨_, ⟨entry, hentry, rfl⟩, hlive, hsatisfies⟩
    exact ⟨entry, hentry, hlive, hsatisfies⟩
  · rintro ⟨entry, hentry, hlive, hsatisfies⟩
    exact ⟨entry.shelved, ⟨entry, hentry, rfl⟩, hlive, hsatisfies⟩

/-- A live document is found if it satisfies the lookup on its own. -/
theorem mem_matching_iff (h : store.Holds builder entries) {doc : DocId} {entry : Held}
    (hentry : entries[doc]? = some entry) (hlive : entry.live = true) (lookup : Lookup) :
    doc ∈ store.writer.index.matching lookup ↔
      InvertedIndex.satisfies entry.fields lookup = true := by
  rw [h.mem_matching]
  constructor
  · rintro ⟨other, hother, -, hsatisfies⟩
    obtain rfl := Option.some.inj (hentry.symm.trans hother)
    exact hsatisfies
  · exact fun hsatisfies => ⟨entry, hentry, hlive, hsatisfies⟩

/-- A lookup that each document satisfies by its JSON alone finds the live documents that do. -/
theorem mem_matching_of_satisfies (h : store.Holds builder entries) {lookup : Lookup}
    (test : Json → Prop) (htest : ∀ entry ∈ entries,
      InvertedIndex.satisfies entry.fields lookup = true ↔ test entry.json) {doc : DocId} :
    doc ∈ store.writer.index.matching lookup ↔ doc ∈ store.writer.index.live ∧
      ∃ json, (entries.map Held.json)[doc]? = some json ∧ test json := by
  rw [h.mem_matching, h.mem_live]
  simp only [List.getElem?_map, Option.map_eq_some_iff]
  constructor
  · rintro ⟨entry, hentry, hlive, hsatisfies⟩
    exact ⟨⟨entry, hentry, hlive⟩, entry.json, ⟨entry, hentry, rfl⟩,
      (htest entry (List.mem_of_getElem? hentry)).mp hsatisfies⟩
  · rintro ⟨⟨entry, hentry, hlive⟩, _, ⟨other, hother, rfl⟩, hjson⟩
    obtain rfl : entry = other := Option.some.inj (hentry.symm.trans hother)
    exact ⟨entry, hentry, hlive, (htest entry (List.mem_of_getElem? hentry)).mpr hjson⟩

/-- What is observed of a field without a scope is what some document showed of it. -/
theorem mem_observations (h : store.Holds builder entries) {field : String} {info : FieldInfo} :
    info ∈ store.catalog.observations field none ↔
      info.fieldName = field ∧ ∃ entry ∈ entries, info ∈ entry.built.infos := by
  rw [FieldCatalog.mem_observations h.sorted]
  simp only [h.knows]
  refine and_congr_right fun _ => ?_
  constructor
  · rintro ⟨_, entry, hentry, -, hinfo⟩
    exact ⟨entry, hentry, hinfo⟩
  · rintro ⟨entry, hentry, hinfo⟩
    exact ⟨_, entry, hentry, rfl, hinfo⟩

end Holds

end DocumentStore

end DocIndex
