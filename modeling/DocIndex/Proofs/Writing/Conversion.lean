/-
What requests are converted to, and what the edits make of a store.

A document that states its identity is converted to the same edit whatever identifiers are
handed out, and the size of the batches plays no part in it.  What was built with the
analyzers of the index can be analysed, so that making an edit never fails, and a list of
edits can be cut into chunks anywhere.
-/
import DocIndex.Proofs.Storage.Replaying
import DocIndex.Writing.Store

namespace DocIndex

/-! ### Converting -/

namespace DocumentBuilder

variable {builder : DocumentBuilder}

/-- A request whose document, if it has one, states an identity. -/
def Identified (builder : DocumentBuilder) : WriteRequest → Prop
  | .create document | .update document => builder.lacksIdentity document = false
  | .delete _ => True

/-- A request that states an identity and can be converted. -/
structure Convertible (builder : DocumentBuilder) (request : WriteRequest) : Prop where
  identified : builder.Identified request
  converts : ∃ freshId edit, builder.convertOne freshId request = .ok edit

theorem prepare_congr {json : Json} (h : builder.lacksIdentity json = false) (a b : String) :
    builder.prepare json a = builder.prepare json b := by
  cases json with
  | object members =>
      have hpresent : (present? members builder.config.identityField).isSome = true := by
        simpa [lacksIdentity, Option.isNone_iff_eq_none, ← Option.isSome_iff_ne_none] using h
      simp [prepare, fillIn, hpresent]
  | null => rfl
  | bool b => rfl
  | int n => rfl
  | double x => rfl
  | text s => rfl
  | array items => rfl

theorem convertOne_congr {request : WriteRequest} (h : builder.Identified request)
    (a b : String) : builder.convertOne a request = builder.convertOne b request := by
  cases request with
  | create document => rw [convertOne, convertOne, prepare_congr h a b]
  | update document => rw [convertOne, convertOne, prepare_congr h a b]
  | delete id => rfl

/-- The edit that a request is converted to. -/
def editOf? (builder : DocumentBuilder) (request : WriteRequest) : Option Edit :=
  (builder.convertOne "" request).toOption

/-- The edits that requests are converted to. -/
def editsOf (builder : DocumentBuilder) (requests : List WriteRequest) : List Edit :=
  requests.filterMap builder.editOf?

theorem Convertible.convertOne_eq {request : WriteRequest} (h : builder.Convertible request) :
    ∃ edit, builder.editOf? request = some edit ∧
      ∀ freshId, builder.convertOne freshId request = .ok edit := by
  obtain ⟨known, edit, hedit⟩ := h.converts
  have hall : ∀ freshId, builder.convertOne freshId request = .ok edit := fun freshId => by
    rw [convertOne_congr h.identified freshId known, hedit]
  exact ⟨edit, by rw [editOf?, hall]; rfl, hall⟩

/-- Converting convertible requests gives their edits, whatever identifiers are handed out. -/
theorem convert_eq {requests : List WriteRequest}
    (h : ∀ request ∈ requests, builder.Convertible request) (next : IdentifierSupply) :
    builder.convert next requests = .ok (builder.editsOf requests) := by
  induction requests generalizing next with
  | nil => rfl
  | cons request rest ih =>
      obtain ⟨edit, hknown, hedit⟩ := (h request List.mem_cons_self).convertOne_eq
      have hrest := ih (fun r hr => h r (List.mem_cons_of_mem _ hr)) (next + 1)
      rw [editsOf, List.filterMap_cons, hknown, convert, hedit, hrest]
      rfl

/-! ### The size of the batches -/

/-- The same builder, with another size of batches. -/
def withBatchSize (builder : DocumentBuilder) (size : Nat) : DocumentBuilder :=
  { builder with config := { builder.config with batchSize := size } }

mutual

theorem visit_withBatchSize (size : Nat) (place : Place) :
    ∀ json : Json, (builder.withBatchSize size).visit place json = builder.visit place json
  | .null => rfl
  | .bool _ => rfl
  | .int _ => rfl
  | .double _ => rfl
  | .text _ => rfl
  | .object members => by
      rw [visit, visit, visitMembers_withBatchSize]
  | .array items => by
      rw [visit, visit, visitItems_withBatchSize]
      rfl

theorem visitMembers_withBatchSize (size : Nat) (place : Place) :
    ∀ members : List (String × Json),
      (builder.withBatchSize size).visitMembers place members = builder.visitMembers place members
  | [] => rfl
  | (key, value) :: rest => by
      rw [visitMembers, visitMembers, visit_withBatchSize, visitMembers_withBatchSize]

theorem visitItems_withBatchSize (size : Nat) (place : Place) :
    ∀ items : List Json,
      (builder.withBatchSize size).visitItems place items = builder.visitItems place items
  | [] => rfl
  | item :: rest => by
      rw [visitItems, visitItems, visit_withBatchSize, visitItems_withBatchSize]

end

theorem build_withBatchSize (size : Nat) (json : Json) :
    (builder.withBatchSize size).build json = builder.build json := by
  cases json with
  | object members =>
      have hvisit := @visitMembers_withBatchSize builder size
        ⟨builder.contentType (.object members), ""⟩ members
      simp only [build]
      rw [← hvisit]
      rfl
  | null => rfl
  | bool b => rfl
  | int n => rfl
  | double x => rfl
  | text s => rfl
  | array items => rfl

theorem convertOne_withBatchSize (size : Nat) (freshId : String) (request : WriteRequest) :
    (builder.withBatchSize size).convertOne freshId request
      = builder.convertOne freshId request := by
  have hbuild : (builder.withBatchSize size).build = builder.build :=
    funext (build_withBatchSize size)
  cases request with
  | create document =>
      simp only [convertOne, hbuild]
      rfl
  | update document =>
      simp only [convertOne, hbuild]
      rfl
  | delete id => rfl

theorem editsOf_withBatchSize (size : Nat) (requests : List WriteRequest) :
    (builder.withBatchSize size).editsOf requests = builder.editsOf requests := by
  have hedit : (builder.withBatchSize size).editOf? = builder.editOf? :=
    funext fun request => congrArg Except.toOption (convertOne_withBatchSize size "" request)
  rw [editsOf, editsOf, hedit]

theorem Convertible.withBatchSize {request : WriteRequest} (h : builder.Convertible request)
    (size : Nat) : (builder.withBatchSize size).Convertible request where
  identified := by
    have hidentified := h.identified
    cases request <;> exact hidentified
  converts := by
    obtain ⟨freshId, edit, hedit⟩ := h.converts
    exact ⟨freshId, edit, by rw [convertOne_withBatchSize, hedit]⟩

end DocumentBuilder

/-! ### Edits that can be made -/

namespace Edit

/-- The changes to the index that an edit makes. -/
def changes (identityField : String) : Edit → List Change
  | add doc => [.add doc.document]
  | replace doc => [.deleteTerm identityField doc.id, .add doc.document]
  | delete id => [.deleteTerm identityField id]

/-- The document that an edit puts in, if it puts one in. -/
def documents : Edit → List BuiltDocument
  | add built | replace built => [built]
  | delete _ => []

/-- An edit whose document, if it has one, can be analysed. -/
def Analysable (analyzers : Analyzers) : Edit → Prop
  | add doc | replace doc => ∃ fields, InvertedIndex.analyze analyzers doc.document = .ok fields
  | delete _ => True

end Edit

theorem InvertedIndex.analyze_ok {analyzers : Analyzers} {doc : Document} :
    (∃ fields, analyze analyzers doc = .ok fields) ↔
      ∀ field ∈ doc, ∃ analyzed, analyzeField analyzers field = .ok analyzed :=
  exists_mapM_ok

namespace DocumentBuilder

variable {builder : DocumentBuilder}

theorem analyzeField_ok {fields : List Field} (h : builder.unknownAnalyzer? fields = none)
    {field : Field} (hfield : field ∈ fields) :
    ∃ analyzed, InvertedIndex.analyzeField builder.analyzers field = .ok analyzed := by
  have hknown := List.findSome?_eq_none_iff.mp h field hfield
  unfold InvertedIndex.analyzeField
  cases hvalue : field.value with
  | text text name =>
      simp only [hvalue, ite_eq_left_iff, Bool.not_eq_true, reduceCtorEq, imp_false,
        Bool.not_eq_false] at hknown
      obtain ⟨analyzer, hanalyzer⟩ := Option.isSome_iff_exists.mp hknown
      by_cases hindexed : field.indexed = true
      · exact ⟨⟨field, analyzer.analyze text⟩, by simp [hindexed, hanalyzer]⟩
      · exact ⟨⟨field, []⟩, by simp [hindexed]⟩
  | term value => exact ⟨_, rfl⟩
  | long value => exact ⟨_, rfl⟩
  | double value => exact ⟨_, rfl⟩
  | stored bytes => exact ⟨_, rfl⟩

/-- What a document is built to. -/
theorem build_eq_ok {json : Json} {built : BuiltDocument} (h : builder.build json = .ok built) :
    ∃ members id projections, json = .object members ∧ builder.identity? json = some id ∧
      builder.visitMembers ⟨builder.contentType json, ""⟩ members = .ok projections ∧
      builder.unknownAnalyzer? (projections.flatMap Projection.fields) = none ∧
      built = {
        id
        contentType := builder.contentType json
        document := projections.flatMap Projection.fields ++ [builder.sourceOf json]
        infos := (projections.flatMap Projection.infos).foldl FieldInfos.add []
        schema := .infer json } := by
  cases json with
  | object members =>
      simp only [build] at h
      split at h
      · rename_i id hid
        obtain ⟨_, hid', h⟩ := bind_eq_ok.mp h
        obtain rfl := Except.ok.inj hid'
        obtain ⟨projections, hvisit, h⟩ := bind_eq_ok.mp h
        split at h
        · simp at h
        · rename_i hknown
          exact ⟨members, id, projections, rfl, hid, hvisit, hknown, (Except.ok.inj h).symm⟩
      · obtain ⟨_, hid, -⟩ := bind_eq_ok.mp h
        simp at hid
  | null => simp [build] at h
  | bool b => simp [build] at h
  | int n => simp [build] at h
  | double x => simp [build] at h
  | text s => simp [build] at h
  | array items => simp [build] at h

/-- What was built can be analysed with the analyzers of the builder. -/
theorem analyze_built {json : Json} {built : BuiltDocument} (h : builder.build json = .ok built) :
    ∃ fields, InvertedIndex.analyze builder.analyzers built.document = .ok fields := by
  obtain ⟨_, _, _, rfl, -, -, hknown, rfl⟩ := build_eq_ok h
  refine InvertedIndex.analyze_ok.mpr fun field hfield => ?_
  rcases List.mem_append.mp hfield with hfield | hfield
  · exact analyzeField_ok hknown hfield
  · rw [List.mem_singleton.mp hfield]
    exact ⟨_, rfl⟩

theorem analysable_of_convertOne {freshId : String} {request : WriteRequest} {edit : Edit}
    (h : builder.convertOne freshId request = .ok edit) : edit.Analysable builder.analyzers := by
  cases request with
  | create document =>
      simp only [convertOne] at h
      obtain ⟨prepared, -, h⟩ := bind_eq_ok.mp h
      obtain ⟨built, hbuilt, h⟩ := bind_eq_ok.mp h
      obtain rfl := Except.ok.inj h
      exact analyze_built hbuilt
  | update document =>
      simp only [convertOne] at h
      split at h
      · obtain ⟨prepared, -, h⟩ := bind_eq_ok.mp h
        obtain ⟨built, hbuilt, h⟩ := bind_eq_ok.mp h
        obtain rfl := Except.ok.inj h
        exact analyze_built hbuilt
      · simp at h
  | delete id =>
      obtain rfl := Except.ok.inj h
      trivial

theorem analysable_of_convert {requests : List WriteRequest} : ∀ {next : IdentifierSupply}
    {edits : List Edit}, builder.convert next requests = .ok edits →
      ∀ edit ∈ edits, edit.Analysable builder.analyzers := by
  induction requests with
  | nil =>
      intro next edits h
      obtain rfl := Except.ok.inj h
      simp
  | cons request rest ih =>
      intro next edits h
      obtain ⟨edit, hedit, h⟩ := bind_eq_ok.mp h
      obtain ⟨others, hothers, h⟩ := bind_eq_ok.mp h
      obtain rfl := Except.ok.inj h
      exact List.forall_mem_cons.mpr ⟨analysable_of_convertOne hedit, ih hothers⟩

theorem analysable_editsOf (requests : List WriteRequest) :
    ∀ edit ∈ builder.editsOf requests, edit.Analysable builder.analyzers := by
  intro edit hedit
  obtain ⟨request, -, hrequest⟩ := List.mem_filterMap.mp hedit
  unfold editOf? at hrequest
  cases hone : builder.convertOne "" request with
  | error e => simp [hone, Except.toOption] at hrequest
  | ok made =>
      obtain rfl : made = edit := by simpa [hone, Except.toOption] using hrequest
      exact analysable_of_convertOne hone

end DocumentBuilder

/-! ### Making edits -/

namespace DocumentStore

variable {analyzers : Analyzers}

/-- Whether or not the writer is another one, the same is known. -/
theorem withWriter_catalog (store : DocumentStore)
    (result : Except Error (Storage.IndexWriter × DocId)) :
    (store.withWriter result).2.catalog = store.catalog := by
  cases result <;> rfl

theorem withWriter_schemas (store : DocumentStore)
    (result : Except Error (Storage.IndexWriter × DocId)) :
    (store.withWriter result).2.schemas = store.schemas := by
  cases result <;> rfl

/-- What edits that succeed make of a store, given the changes that they make to the index. -/
structure Made (analyzers : Analyzers) (store next : DocumentStore) (changes : List Change) :
    Prop where
  identityField : next.identityField = store.identityField
  failure : next.failure = store.failure
  last : next.writer.last = store.writer.last
  compression : next.writer.compression = store.writer.compression
  pending : next.writer.pending = store.writer.pending ++ changes
  index : store.writer.index.replay analyzers changes = .ok next.writer.index

theorem Made.refl (store : DocumentStore) : Made analyzers store store [] :=
  ⟨rfl, rfl, rfl, rfl, (List.append_nil _).symm, rfl⟩

theorem Made.trans {store middle next : DocumentStore} {first second : List Change}
    (h : Made analyzers store middle first) (h' : Made analyzers middle next second) :
    Made analyzers store next (first ++ second) where
  identityField := h'.identityField.trans h.identityField
  failure := h'.failure.trans h.failure
  last := h'.last.trans h.last
  compression := h'.compression.trans h.compression
  pending := by rw [h'.pending, h.pending, List.append_assoc]
  index := by rw [InvertedIndex.replay_append h.index, h'.index]

theorem makeEdit_ok {edit : Edit} (h : edit.Analysable analyzers) (store : DocumentStore) :
    ∃ next, store.makeEdit analyzers edit = (.ok (), next) ∧
      Made analyzers store next (edit.changes store.identityField) := by
  cases edit with
  | add doc =>
      obtain ⟨fields, hfields⟩ := h
      have hmake : store.makeEdit analyzers (.add doc) = (.ok (), { store.record doc with
          writer := { store.writer with
            index := (store.writer.index.insert fields).1
            pending := store.writer.pending ++ [.add doc.document] } }) := by
        rw [makeEdit, Storage.IndexWriter.add_eq _ hfields]
        rfl
      refine ⟨_, hmake, rfl, rfl, rfl, rfl, rfl, ?_⟩
      simp [Edit.changes, InvertedIndex.replay, InvertedIndex.apply, InvertedIndex.add, hfields,
        Except.map]
  | replace doc =>
      obtain ⟨fields, hfields⟩ := h
      have hmake : store.makeEdit analyzers (.replace doc) = (.ok (), { store.record doc with
          writer := { store.writer with
            index := ((store.writer.index.deleteTerm store.identityField doc.id).1.insert fields).1
            pending := store.writer.pending ++
              [.deleteTerm store.identityField doc.id, .add doc.document] } }) := by
        rw [makeEdit, Storage.IndexWriter.update_eq _ _ _ hfields]
        rfl
      refine ⟨_, hmake, rfl, rfl, rfl, rfl, rfl, ?_⟩
      simp [Edit.changes, InvertedIndex.replay, InvertedIndex.apply, InvertedIndex.add, hfields,
        Except.map]
  | delete id => exact ⟨_, rfl, rfl, rfl, rfl, rfl, rfl, rfl⟩

/-- Edits that can be analysed are all made. -/
theorem makeEdits_ok : ∀ {edits : List Edit}, (∀ edit ∈ edits, edit.Analysable analyzers) →
    ∀ store : DocumentStore, ∃ next, store.makeEdits analyzers edits = (.ok (), next) ∧
      Made analyzers store next (edits.flatMap (Edit.changes store.identityField))
  | [], _, store => ⟨store, rfl, Made.refl store⟩
  | edit :: rest, h, store => by
      obtain ⟨middle, hfirst, hmade⟩ := makeEdit_ok (h edit List.mem_cons_self) store
      obtain ⟨next, hrest, hmade'⟩ :=
        makeEdits_ok (fun e he => h e (List.mem_cons_of_mem _ he)) middle
      refine ⟨next, by rw [makeEdits, hfirst]; exact hrest, ?_⟩
      rw [hmade.identityField] at hmade'
      exact hmade.trans hmade'

theorem takeEdits_made {edits : List Edit} (h : ∀ edit ∈ edits, edit.Analysable analyzers)
    (store : DocumentStore) : Made analyzers store (store.takeEdits analyzers edits)
      (edits.flatMap (Edit.changes store.identityField)) := by
  obtain ⟨next, hmake, hmade⟩ := makeEdits_ok h store
  have htake : store.takeEdits analyzers edits = next := by rw [takeEdits, hmake]
  rw [htake]
  exact hmade

theorem makeEdits_append {first second : List Edit}
    (h : ∀ edit ∈ first, edit.Analysable analyzers) :
    ∀ store : DocumentStore, store.makeEdits analyzers (first ++ second)
      = (store.takeEdits analyzers first).makeEdits analyzers second := by
  induction first with
  | nil => intro store; rfl
  | cons edit rest ih =>
      intro store
      obtain ⟨middle, hfirst, -⟩ := makeEdit_ok (h edit List.mem_cons_self) store
      have hrest := ih (fun e he => h e (List.mem_cons_of_mem _ he)) middle
      simp only [takeEdits, List.cons_append, makeEdits, hfirst] at hrest ⊢
      exact hrest

/-- Edits can be made in chunks. -/
theorem takeEdits_append {first second : List Edit}
    (h : ∀ edit ∈ first, edit.Analysable analyzers) (store : DocumentStore) :
    store.takeEdits analyzers (first ++ second)
      = (store.takeEdits analyzers first).takeEdits analyzers second := by
  rw [takeEdits, makeEdits_append h]
  rfl

/-! ### Stores with one content -/

/-- Stores that hold the same, whatever of it was committed. -/
structure Agrees (a b : DocumentStore) : Prop where
  index : a.writer.index = b.writer.index
  catalog : a.catalog = b.catalog
  schemas : a.schemas = b.schemas
  identityField : a.identityField = b.identityField
  failure : a.failure = b.failure

theorem Agrees.makeEdit {a b : DocumentStore} (h : Agrees a b) {edit : Edit}
    (hedit : edit.Analysable analyzers) :
    Agrees (a.makeEdit analyzers edit).2 (b.makeEdit analyzers edit).2 := by
  obtain ⟨hindex, hcatalog, hschemas, hidentity, hfailure⟩ := h
  cases edit with
  | add doc =>
      obtain ⟨fields, hfields⟩ := hedit
      simp only [DocumentStore.makeEdit, Storage.IndexWriter.add_eq _ hfields, withWriter, record]
      exact ⟨by rw [hindex], by rw [hcatalog], by rw [hschemas], hidentity, hfailure⟩
  | replace doc =>
      obtain ⟨fields, hfields⟩ := hedit
      simp only [DocumentStore.makeEdit, Storage.IndexWriter.update_eq _ _ _ hfields, withWriter,
        record]
      exact ⟨by rw [hindex, hidentity], by rw [hcatalog], by rw [hschemas], hidentity, hfailure⟩
  | delete id =>
      refine ⟨?_, hcatalog, hschemas, hidentity, hfailure⟩
      simp only [DocumentStore.makeEdit, Storage.IndexWriter.deleteTerm, hindex, hidentity]

theorem Agrees.takeEdits : ∀ {edits : List Edit}, (∀ edit ∈ edits, edit.Analysable analyzers) →
    ∀ {a b : DocumentStore}, Agrees a b →
      Agrees (a.takeEdits analyzers edits) (b.takeEdits analyzers edits)
  | [], _, _, _, h => h
  | edit :: rest, hall, a, b, h => by
      have hedit := hall edit List.mem_cons_self
      have hfirst := h.makeEdit hedit
      obtain ⟨nextA, hA, -⟩ := makeEdit_ok hedit a
      obtain ⟨nextB, hB, -⟩ := makeEdit_ok hedit b
      rw [hA, hB] at hfirst
      have hrest := hfirst.takeEdits fun e he => hall e (List.mem_cons_of_mem _ he)
      simpa only [DocumentStore.takeEdits, makeEdits, hA, hB] using hrest

end DocumentStore

end DocIndex
