/-
Deleting and updating by identity.

A deletion goes by terms, and a request by identities.  They come to the same if every document
that is held has its identity as the only term of the identity field; this is carried through
the list of the documents that a store holds, because an edit adds a document that was built or
takes marks off.
-/
import DocIndex.Proofs.Document.Identity
import DocIndex.Proofs.Index.Listing
import DocIndex.Proofs.Writing.Holdings

namespace DocIndex

open DocumentBuilder (searchedAs standard)

/-- A field with one exact term is searched for that term alone. -/
theorem InvertedIndex.hasTerm_of_filter {fields : List AnalyzedField} {name term : String}
    (h : (fields.map AnalyzedField.field).filter (searchedAs name) = [.term name term])
    (test : String → Bool) : hasTerm fields name test = test term := by
  have hsearched : ∀ f ∈ fields, searchedAs name f.field = true → f.field = .term name term := by
    intro f hf hname
    have hmem : f.field ∈ (fields.map AnalyzedField.field).filter (searchedAs name) :=
      List.mem_filter.mpr ⟨List.mem_map_of_mem hf, hname⟩
    rw [h] at hmem
    exact List.mem_singleton.mp hmem
  rw [Bool.eq_iff_iff, hasTerm, List.any_eq_true]
  constructor
  · rintro ⟨f, hf, hhas⟩
    obtain ⟨hterms, hplaced⟩ := Bool.and_eq_true_iff.mp hhas
    obtain ⟨hnamed, -⟩ := Bool.and_eq_true_iff.mp hterms
    obtain ⟨hindexed, hname⟩ := Bool.and_eq_true_iff.mp hnamed
    have hfield := hsearched f hf <| by
      rw [searchedAs, hindexed, ← beq_iff_eq.mp hname, beq_self_eq_true, Bool.and_self]
    simpa [AnalyzedField.placedTerms, hfield, Field.term] using hplaced
  · intro htest
    have hmem : Field.term name term ∈ (fields.map AnalyzedField.field).filter (searchedAs name) :=
      h ▸ List.mem_cons_self
    obtain ⟨f, hf, hfield⟩ := List.mem_map.mp (List.mem_filter.mp hmem).1
    refine ⟨f, hf, ?_⟩
    simp [AnalyzedField.hasTermsOf, AnalyzedField.placedTerms, hfield, Field.term,
      FieldValue.kind, FieldKind.isLexical, htest]

/-- The identity that a request deletes. -/
def DocumentBuilder.target? (builder : DocumentBuilder) : WriteRequest → Option String
  | .create _ => none
  | .update document => builder.identity? document
  | .delete id => some id

namespace Held

variable {builder : DocumentBuilder} {entry : Held}

/-- A document with its identity as the only term of the identity field. -/
def Identified (builder : DocumentBuilder) (entry : Held) : Prop :=
  entry.built.document.filter (searchedAs builder.config.identityField)
    = [.term builder.config.identityField entry.built.id]

/-- A document is spared by deleting another identity. -/
theorem live_spare (hmade : entry.Made builder) (hid : entry.Identified builder) (id : String) :
    (entry.spare builder.config.identityField id).live = true ↔
      entry.live = true ∧ entry.built.id ≠ id := by
  have hterm : InvertedIndex.hasTerm entry.fields builder.config.identityField
      (fun other => other == id) = (entry.built.id == id) := by
    refine InvertedIndex.hasTerm_of_filter ?_ _
    rw [InvertedIndex.map_field_of_analyze hmade.analyze]
    exact hid
  have hdoomed : Shelf.isDoomed builder.config.identityField id entry.shelved
      = (entry.live && entry.built.id == id) := congrArg (entry.live && ·) hterm
  rw [spare, hdoomed]
  by_cases hsame : entry.built.id = id <;> cases hlive : entry.live <;> simp [hsame, hlive]

theorem Made.identity (h : entry.Made builder) :
    builder.identity? entry.json = some entry.built.id := by
  obtain ⟨_, _, _, _, hid, -, -, hbuilt⟩ := DocumentBuilder.build_eq_ok h.build
  rw [hid, hbuilt]

end Held

namespace DocumentBuilder

variable {builder : DocumentBuilder}

/-- A document that is prepared for a chunk is one of a request. -/
theorem exists_of_mem_prepared {json : Json} : ∀ {requests : List WriteRequest}
    {next : IdentifierSupply}, json ∈ builder.prepared next requests →
      ∃ request ∈ requests, ∃ document freshId, request.document? = some document ∧
        builder.prepare document freshId = .ok json
  | [], _, h => by cases h
  | request :: rest, next, h => by
      rcases List.mem_append.mp h with h | h
      · obtain ⟨document, hdocument, hprepare⟩ :=
          Option.bind_eq_some_iff.mp (Option.mem_toList.mp h)
        refine ⟨request, List.mem_cons_self, document, Identifier.ofNat next, hdocument, ?_⟩
        cases hresult : builder.prepare document (Identifier.ofNat next) with
        | ok made =>
            rw [hresult] at hprepare
            exact congrArg _ (Option.some.inj hprepare)
        | error e =>
            rw [hresult] at hprepare
            cases hprepare
      · obtain ⟨other, hother, hrest⟩ := exists_of_mem_prepared h
        exact ⟨other, List.mem_cons_of_mem _ hother, hrest⟩

end DocumentBuilder

namespace DocumentStore

theorem makeEdit_add_index {analyzers : Analyzers} {built : BuiltDocument}
    {fields : List InvertedIndex.AnalyzedField}
    (h : InvertedIndex.analyze analyzers built.document = .ok fields) (store : DocumentStore) :
    ∃ next, store.makeEdit analyzers (.add built) = (.ok (), next) ∧
      next.catalog = (store.record built).catalog ∧
      next.writer.index = (store.writer.index.insert fields).1 := by
  rw [makeEdit, Storage.IndexWriter.add_eq _ h]
  exact ⟨_, rfl, rfl, rfl⟩

theorem makeEdit_replace_index {analyzers : Analyzers} {built : BuiltDocument}
    {fields : List InvertedIndex.AnalyzedField}
    (h : InvertedIndex.analyze analyzers built.document = .ok fields) (store : DocumentStore) :
    ∃ next, store.makeEdit analyzers (.replace built) = (.ok (), next) ∧
      next.catalog = (store.record built).catalog ∧
      next.writer.index
        = ((store.makeEdit analyzers (.delete built.id)).2.writer.index.insert fields).1 := by
  rw [makeEdit, Storage.IndexWriter.update_eq _ _ _ h]
  exact ⟨_, rfl, rfl, rfl⟩

end DocumentStore

namespace DocumentStore.Holds

variable {builder : DocumentBuilder} {store : DocumentStore} {entries : List Held}

/-- A deletion by identity leaves the live documents of the others. -/
theorem mem_live_delete (h : store.Holds builder entries)
    (hfield : store.identityField = builder.config.identityField)
    (hids : ∀ entry ∈ entries, entry.Identified builder) (id : String) {doc : DocId} :
    doc ∈ (store.makeEdit builder.analyzers (.delete id)).2.writer.index.live ↔
      ∃ entry, entries[doc]? = some entry ∧ entry.live = true ∧ entry.built.id ≠ id := by
  have hdeleted : (store.makeEdit builder.analyzers (.delete id)).2.Holds builder
      (entries.map (Held.spare builder.config.identityField id)) :=
    hfield ▸ h.delete store.identityField id rfl rfl
  rw [hdeleted.mem_live]
  simp only [List.getElem?_map, Option.map_eq_some_iff]
  constructor
  · rintro ⟨_, ⟨entry, hentry, rfl⟩, hlive⟩
    have hmem := List.mem_of_getElem? hentry
    exact ⟨entry, hentry, (Held.live_spare (h.made entry hmem) (hids entry hmem) id).mp hlive⟩
  · rintro ⟨entry, hentry, hlive⟩
    have hmem := List.mem_of_getElem? hentry
    exact ⟨_, ⟨entry, hentry, rfl⟩,
      (Held.live_spare (h.made entry hmem) (hids entry hmem) id).mpr hlive⟩

/-- A document that is put in is live under the next number. -/
theorem mem_live_put (h : store.Holds builder entries) {built : BuiltDocument} {json : Json}
    {fields : List InvertedIndex.AnalyzedField}
    (hmade : Held.Made builder ⟨json, built, fields, true⟩) {next : DocumentStore}
    (hcatalog : next.catalog = (store.record built).catalog)
    (hindex : next.writer.index = (store.writer.index.insert fields).1) {doc : DocId} :
    doc ∈ next.writer.index.live ↔ doc ∈ store.writer.index.live ∨ doc = entries.length := by
  rw [(h.put hmade hcatalog hindex).mem_live, h.mem_live]
  constructor
  · rintro ⟨entry, hentry, hlive⟩
    by_cases hdoc : doc < entries.length
    · rw [List.getElem?_append_left hdoc] at hentry
      exact Or.inl ⟨entry, hentry, hlive⟩
    · have hbound := (List.getElem?_eq_some_iff.mp hentry).1
      rw [List.length_append] at hbound
      exact Or.inr (Nat.le_antisymm (Nat.le_of_lt_succ hbound) (Nat.le_of_not_lt hdoc))
  · rintro (⟨entry, hentry, hlive⟩ | rfl)
    · have hdoc := (List.getElem?_eq_some_iff.mp hentry).1
      exact ⟨entry, (List.getElem?_append_left hdoc).trans hentry, hlive⟩
    · exact ⟨_, List.getElem?_concat_length, rfl⟩

/-- What is left of the live documents, and the document that is put in. -/
theorem mem_live_makeEdit (h : store.Holds builder entries)
    (hfield : store.identityField = builder.config.identityField)
    (hids : ∀ entry ∈ entries, entry.Identified builder) {freshId : String}
    {request : WriteRequest} {edit : Edit} (hedit : builder.convertOne freshId request = .ok edit) :
    ∃ next, store.makeEdit builder.analyzers edit = (.ok (), next) ∧
      ∀ doc, doc ∈ next.writer.index.live ↔
        (∃ entry, entries[doc]? = some entry ∧ entry.live = true ∧
          ∀ id ∈ builder.target? request, entry.built.id ≠ id) ∨
        (request.document?.isSome = true ∧ doc = entries.length) := by
  cases request with
  | create document =>
      obtain ⟨json, -, hedit⟩ := bind_eq_ok.mp hedit
      obtain ⟨built, hbuild, hedit⟩ := bind_eq_ok.mp hedit
      obtain rfl := Except.ok.inj hedit
      obtain ⟨fields, hfields⟩ := DocumentBuilder.analyze_built hbuild
      obtain ⟨next, hmake, hcatalog, hindex⟩ := makeEdit_add_index hfields store
      refine ⟨next, hmake, fun doc => ?_⟩
      rw [h.mem_live_put ⟨hbuild, hfields⟩ hcatalog hindex, h.mem_live]
      simp [DocumentBuilder.target?, WriteRequest.document?]
  | update document =>
      rw [DocumentBuilder.convertOne] at hedit
      split at hedit
      · rename_i hstated
        obtain ⟨id, hid⟩ := Option.isSome_iff_exists.mp hstated
        obtain ⟨json, hprepare, hedit⟩ := bind_eq_ok.mp hedit
        obtain ⟨built, hbuild, hedit⟩ := bind_eq_ok.mp hedit
        obtain rfl := Except.ok.inj hedit
        obtain ⟨fields, hfields⟩ := DocumentBuilder.analyze_built hbuild
        have hmade : Held.Made builder ⟨json, built, fields, true⟩ := ⟨hbuild, hfields⟩
        have hsame : built.id = id := Option.some.inj <|
          hmade.identity.symm.trans (DocumentBuilder.identity?_prepare hid hprepare)
        obtain ⟨next, hmake, hcatalog, hindex⟩ := makeEdit_replace_index hfields store
        have hdeleted : (store.makeEdit builder.analyzers (.delete built.id)).2.Holds builder
            (entries.map (Held.spare store.identityField built.id)) := h.delete _ _ rfl rfl
        refine ⟨next, hmake, fun doc => ?_⟩
        rw [hdeleted.mem_live_put hmade hcatalog hindex,
          h.mem_live_delete hfield hids, List.length_map, hsame]
        simp [DocumentBuilder.target?, WriteRequest.document?, hid]
      · cases hedit
  | delete id =>
      obtain rfl := Except.ok.inj hedit
      refine ⟨_, rfl, fun doc => (h.mem_live_delete hfield hids id).trans ?_⟩
      simp [DocumentBuilder.target?, WriteRequest.document?]

end DocumentStore.Holds

namespace WriteRequest

/-- A request whose document, if it has one, is a table that hides nothing at a path. -/
def HidesNothing (path : String) (request : WriteRequest) : Prop :=
  ∀ document ∈ request.document?, document.IsTable ∧ document.hiddenAt path = []

end WriteRequest

namespace DocumentBuilder

variable {builder : DocumentBuilder}

theorem identityField_storeOf {next : IdentifierSupply} {requests : List WriteRequest}
    {edits : List Edit} (h : builder.convert next requests = .ok edits) :
    (builder.storeOf edits).identityField = builder.config.identityField :=
  (DocumentStore.takeEdits_made (analysable_of_convert h) _).identityField

/--
**The identity and the content type of a document are the only terms of their names**, unless
more is hidden there, in a member without a name, or the content type is given as something
other than a text.  So if no document hides an identity, a request takes out the live documents
of its identity and no others.
-/
theorem identifies_documents (hid : builder.IsExact builder.config.identityField)
    (htype : builder.IsExact builder.config.contentTypeField) :
    (∀ (document json : Json) (freshId : String) (built : BuiltDocument), document.IsTable →
      builder.prepare document freshId = .ok json → builder.build json = .ok built →
        (built.document.filter (searchedAs builder.config.identityField)
            = [.term builder.config.identityField built.id] ↔
          document.hiddenAt builder.config.identityField = []) ∧
        (document.StatesText builder.config.contentTypeField →
          (built.document.filter (searchedAs builder.config.contentTypeField)
              = [.term builder.config.contentTypeField built.contentType] ↔
            document.hiddenAt builder.config.contentTypeField = []))) ∧
    ∀ (next : IdentifierSupply) (requests : List WriteRequest) (edits : List Edit),
      builder.convert next requests = .ok edits →
      (∀ request ∈ requests, request.HidesNothing builder.config.identityField) →
      ∀ (freshId : String) (request : WriteRequest) (edit : Edit),
        builder.convertOne freshId request = .ok edit →
        ∃ later, (builder.storeOf edits).makeEdit builder.analyzers edit = (.ok (), later) ∧
          ∀ doc, doc ∈ later.writer.index.live ↔
            (doc ∈ (builder.storeOf edits).writer.index.live ∧ ∀ id ∈ builder.target? request,
              ((builder.prepared next requests)[doc]?).bind builder.identity? ≠ some id) ∨
            (request.document?.isSome = true ∧ doc = (builder.prepared next requests).length) := by
  refine ⟨fun document json freshId built htable hprepare hbuild =>
    build_exact hid htype htable hprepare hbuild, ?_⟩
  intro next requests edits hedits hplain freshId request edit hedit
  obtain ⟨entries, hholds, hjson⟩ := DocumentStore.Holds.storeOf hedits
  have hids : ∀ entry ∈ entries, entry.Identified builder := by
    intro entry hentry
    obtain ⟨own, hown, document, fresh, hdocument, hprepare⟩ :=
      exists_of_mem_prepared (hjson ▸ List.mem_map_of_mem hentry)
    obtain ⟨htable, hnothing⟩ := hplain own hown document hdocument
    exact (build_exact hid htype htable hprepare (hholds.made entry hentry).build).1.mpr hnothing
  obtain ⟨later, hmake, hlive⟩ :=
    hholds.mem_live_makeEdit (identityField_storeOf hedits) hids hedit
  refine ⟨later, hmake, fun doc => ?_⟩
  rw [hlive doc, hholds.mem_live, ← hjson, List.length_map]
  refine or_congr_left ?_
  constructor
  · rintro ⟨entry, hentry, hlive, hother⟩
    refine ⟨⟨entry, hentry, hlive⟩, fun id htarget => ?_⟩
    have hown := (hholds.made entry (List.mem_of_getElem? hentry)).identity
    simpa [hentry, hown] using hother id htarget
  · rintro ⟨⟨entry, hentry, hlive⟩, hother⟩
    refine ⟨entry, hentry, hlive, fun id htarget => ?_⟩
    have hown := (hholds.made entry (List.mem_of_getElem? hentry)).identity
    simpa [hentry, hown] using hother id htarget

/-- A document with a part that has an identity of its own, and a document of that identity. -/
def album : List WriteRequest :=
  [.create (.object [("$id", .text "A"), ("part", .object [("$id", .text "B")])]),
    .create (.object [("$id", .text "B")])]

/-- The edits that they are converted to. -/
def albumEdits : List Edit := ((standard.convert 0 album).toOption).getD []

theorem identifies_documents_album :
    standard.convert 0 album = .ok albumEdits ∧
      (standard.storeOf albumEdits).writer.index.live = [0, 1] ∧
      (∃ json built,
        standard.prepare (.object [("$id", .text "A"), ("part", .object [("$id", .text "B")])]) "F"
          = .ok json ∧
        standard.build json = .ok built ∧
        built.document.filter (searchedAs "$id") = [.term "$id" "A"] ∧
        built.document.filter (searchedAs "$contentType") = [.term "$contentType" "document"]) ∧
      ∃ later, (standard.storeOf albumEdits).makeEdit standard.analyzers (.delete "B")
          = (.ok (), later) ∧
        ∀ doc, doc ∈ later.writer.index.live ↔ doc = 0 := by
  have hlive : (standard.storeOf albumEdits).writer.index.live = [0, 1] := by decide +kernel
  have hid : standard.IsExact standard.config.identityField := ⟨by decide, by decide, by decide⟩
  have htype : standard.IsExact standard.config.contentTypeField :=
    ⟨by decide, by decide, by decide⟩
  have htable : (Json.object
      [("$id", .text "A"), ("part", .object [("$id", .text "B")])]).IsTable := by decide
  obtain ⟨hterms, hremoves⟩ := identifies_documents hid htype
  obtain ⟨hidentity, hcontent⟩ := hterms _ _ "F" _ htable rfl rfl
  have hplain : ∀ request ∈ album, request.HidesNothing "$id" := by
    intro request hrequest document hdocument
    rcases List.mem_cons.mp hrequest with rfl | hrequest
    · obtain rfl := Option.some.inj hdocument
      exact ⟨htable, rfl⟩
    · obtain rfl := List.mem_singleton.mp hrequest
      obtain rfl := Option.some.inj hdocument
      exact ⟨by decide, rfl⟩
  obtain ⟨later, hmake, hleft⟩ := hremoves 0 album albumEdits rfl hplain "" (.delete "B") _ rfl
  refine ⟨rfl, hlive, ⟨_, _, rfl, rfl, hidentity.mpr rfl, (hcontent ?_).mpr rfl⟩, later, hmake, ?_⟩
  · intro value hvalue
    cases hvalue
  · intro doc
    rw [hleft doc, hlive]
    constructor
    · rintro (⟨hdoc, hother⟩ | ⟨hadded, -⟩)
      · rcases List.mem_pair.mp hdoc with rfl | rfl
        · rfl
        · exact absurd rfl (hother "B" rfl)
      · cases hadded
    · rintro rfl
      refine Or.inl ⟨List.mem_cons_self, fun id htarget => ?_⟩
      obtain rfl : "B" = id := Option.some.inj htarget
      exact (by decide : some "A" ≠ some "B")

/-- A document with a second identity, in a member without a name. -/
def impostor : List WriteRequest :=
  [.create (.object [("", .object [("$id", .text "B")]), ("$id", .text "A")])]

/-- The edits that it is converted to. -/
def impostorEdits : List Edit := ((standard.convert 0 impostor).toOption).getD []

/-- A document is found, and so deleted, by an identity that stands in a member without a name. -/
theorem deleted_by_hidden_identity :
    standard.convert 0 impostor = .ok impostorEdits ∧
      (standard.prepared 0 impostor).map standard.identity? = [some "A"] ∧
      (∃ built, impostorEdits = [.add built] ∧ built.id = "A" ∧
        built.document.filter (searchedAs "$id") = [.term "$id" "B", .term "$id" "A"]) ∧
      (standard.storeOf impostorEdits).writer.index.live = [0] ∧
      ∃ later, (standard.storeOf impostorEdits).makeEdit standard.analyzers (.delete "B")
          = (.ok (), later) ∧
        later.writer.index.live = [] :=
  ⟨rfl, rfl, ⟨_, rfl, rfl, rfl⟩, by decide +kernel, _, rfl, by decide +kernel⟩

end DocumentBuilder

end DocIndex
