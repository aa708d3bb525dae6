/-
What a chunk that fails leaves behind.

A document is noted before it is analysed.  So if an edit fails, the index, what is pending and
the last commit are as the edits in front of it left them, while what is known of fields and
schemas already counts its document in.  No commit takes that back, not even the one that is
refused for the failure.  What the index holds is what was made, and what is known is what was
tried.
-/
import DocIndex.Proofs.Schema.Catalog
import DocIndex.Proofs.Writing.Refusals

namespace DocIndex

variable {analyzers : Analyzers}

/-! ### What cannot be analysed -/

/-- Searched text for an analyzer that is not known. -/
def Field.NeedsUnknown (analyzers : Analyzers) (field : Field) (name : String) : Prop :=
  field.indexed = true ∧ (∃ text, field.value = .text text name) ∧
    Table.find? analyzers name = none

/-- Only an unknown analyzer keeps a document from being analysed. -/
theorem InvertedIndex.exists_of_analyze_eq_error {doc : Document} {e : Error}
    (h : analyze analyzers doc = .error e) :
    ∃ field ∈ doc, ∃ name, field.NeedsUnknown analyzers name ∧ e = .unknownAnalyzer name := by
  obtain ⟨field, hfield, herror⟩ := exists_of_mapM_eq_error h
  refine ⟨field, hfield, ?_⟩
  unfold analyzeField at herror
  split at herror
  · rename_i text name hvalue
    split at herror
    · rename_i hindexed
      split at herror
      · cases herror
      · rename_i hunknown
        exact ⟨name, ⟨hindexed, ⟨text, hvalue⟩, hunknown⟩, (Except.error.inj herror).symm⟩
    · cases herror
  · cases herror

/-! ### What is tried -/

/-- What is known of fields and of schemas. -/
abbrev Knowledge := FieldCatalog × SchemaCatalog

/-- What is known with a document. -/
def Knowledge.note (known : Knowledge) (built : BuiltDocument) : Knowledge :=
  (known.1.merge built.contentType built.infos, known.2.merge built.contentType built.schema)

/-- What is known of fields when documents were noted. -/
theorem Knowledge.knows_foldl_note {documents : List BuiltDocument} {known : Knowledge}
    {contentType : String} {info : FieldInfo} :
    (documents.foldl note known).1.Knows contentType info ↔ known.1.Knows contentType info ∨
      ∃ built ∈ documents, built.contentType = contentType ∧ info ∈ built.infos := by
  induction documents generalizing known with
  | nil => simp
  | cons built rest ih =>
      rw [List.foldl_cons, ih, note, FieldCatalog.knows_merge, List.exists_mem_cons_iff, or_assoc]

/-- The documents of edits, up to the first that fails and with its own. -/
def Edit.documentsTried (analyzers : Analyzers) : List Edit → List BuiltDocument
  | [] => []
  | edit :: rest =>
    match edit.error? analyzers with
    | some _ => edit.documents
    | none => edit.documents ++ documentsTried analyzers rest

/-- The documents that a delivery tries to put in. -/
def Delivery.documentsTried (analyzers : Analyzers) : Delivery → List BuiltDocument
  | edits all => Edit.documentsTried analyzers all
  | failed _ | commit _ | nothing => []

/-! ### What is known -/

namespace DocumentStore

/-- What a store knows. -/
def known (store : DocumentStore) : Knowledge := (store.catalog, store.schemas)

/-- Whether or not an edit can be made, its document is noted. -/
theorem known_makeEdit (store : DocumentStore) (edit : Edit) :
    (store.makeEdit analyzers edit).2.known = edit.documents.foldl Knowledge.note store.known := by
  cases edit with
  | add built =>
      exact Prod.ext (withWriter_catalog (store.record built) _)
        (withWriter_schemas (store.record built) _)
  | replace built =>
      exact Prod.ext (withWriter_catalog (store.record built) _)
        (withWriter_schemas (store.record built) _)
  | delete id => rfl

/-- What is known after edits is what was known before and what was tried. -/
theorem known_makeEdits : ∀ (edits : List Edit) (store : DocumentStore),
    (store.makeEdits analyzers edits).2.known
      = (Edit.documentsTried analyzers edits).foldl Knowledge.note store.known
  | [], _ => rfl
  | edit :: rest, store => by
      have hfirst := @known_makeEdit analyzers store edit
      cases herror : edit.error? analyzers with
      | some e =>
          obtain ⟨built, -, -, hmake⟩ := makeEdit_error herror store
          rw [hmake] at hfirst
          simp only [makeEdits, Edit.documentsTried, herror, hmake, hfirst]
      | none =>
          obtain ⟨middle, hmake, -⟩ := makeEdit_ok (Edit.analysable_of_error? herror) store
          rw [hmake] at hfirst
          simp only [makeEdits, Edit.documentsTried, herror, hmake, known_makeEdits rest middle,
            hfirst, List.foldl_append]

theorem known_takeEdits (edits : List Edit) (store : DocumentStore) :
    (store.takeEdits analyzers edits).known
      = (Edit.documentsTried analyzers edits).foldl Knowledge.note store.known := by
  rw [← known_makeEdits edits store, takeEdits]
  split <;> rename_i hmake <;> rw [hmake]
  rfl

/-- A commit changes nothing in what is known, whether or not it is refused. -/
theorem known_answerCommit {σ : Type} [Storage σ] (store : DocumentStore) (segment : String)
    (now : Moment) (directory : σ) :
    (store.answerCommit segment now directory).2.1.known = store.known := by
  unfold answerCommit
  split
  · rfl
  · split <;> rfl

end DocumentStore

namespace WritePipeline

variable {σ : Type} [Storage σ] {settings : WriteSettings} {start p : WritePipeline σ}
  {deliveries : List Delivery}

/-- Whatever arrives, what is known is what was known before and what was tried. -/
theorem Delivered.known (h : Delivered settings start deliveries p) :
    p.store.known
      = (deliveries.flatMap (Delivery.documentsTried settings.analyzers)).foldl Knowledge.note
        start.store.known := by
  induction h with
  | start => rfl
  | @deliver deliveries p delivery _ ih =>
      rw [List.flatMap_append, List.foldl_append, ← ih, List.flatMap_singleton]
      cases delivery with
      | edits all => exact p.store.known_takeEdits all
      | failed e => rfl
      | commit ticket => exact p.store.known_answerCommit _ settings.now p.directory
      | nothing => rfl
  | between _ hstore _ _ ih => rw [hstore, ih]

/-- **What is known of fields is what was known before and what the documents that were tried
show.**  It makes no difference whether a document failed. -/
theorem Delivered.knows (h : Delivered settings start deliveries p) {contentType : String}
    {info : FieldInfo} : p.store.catalog.Knows contentType info ↔
      start.store.catalog.Knows contentType info ∨
        ∃ built ∈ deliveries.flatMap (Delivery.documentsTried settings.analyzers),
          built.contentType = contentType ∧ info ∈ built.infos := by
  have hcatalog := congrArg Prod.fst h.known
  rw [show p.store.catalog = _ from hcatalog, Knowledge.knows_foldl_note]
  rfl

end WritePipeline

/-! ### Where a chunk fails -/

namespace DocumentStore

/-- A chunk fails where one of its edits does, behind edits that are all made. -/
theorem exists_of_makeEdits_eq_error {store next : DocumentStore} {edits : List Edit} {e : Error}
    (h : store.makeEdits analyzers edits = (.error e, next)) : ∃ k edit middle,
      edits[k]? = some edit ∧ store.makeEdits analyzers (edits.take k) = (.ok (), middle) ∧
        middle.makeEdit analyzers edit = (.error e, next) := by
  induction edits generalizing store with
  | nil => simp [makeEdits] at h
  | cons first rest ih =>
      rw [makeEdits] at h
      split at h
      · rename_i middle hmake
        obtain ⟨k, edit, last, hedit, hfront, hfails⟩ := ih h
        refine ⟨k + 1, edit, last, hedit, ?_, hfails⟩
        simp only [List.take_succ_cons, makeEdits, hmake, hfront]
      · rename_i hmake
        exact ⟨0, first, store, rfl, rfl, hmake.trans h⟩

/-- An edit that fails has a document that cannot be analysed, and only notes it. -/
theorem makeEdit_eq_error {store next : DocumentStore} {edit : Edit} {e : Error}
    (h : store.makeEdit analyzers edit = (.error e, next)) : ∃ built, edit.documents = [built] ∧
      InvertedIndex.analyze analyzers built.document = .error e ∧ next = store.record built := by
  cases herror : edit.error? analyzers with
  | none =>
      obtain ⟨made, hmake, -⟩ := makeEdit_ok (Edit.analysable_of_error? herror) store
      exact absurd (hmake.symm.trans h) (by simp)
  | some e' =>
      obtain ⟨built, hdocuments, hanalyze, hmake⟩ := makeEdit_error herror store
      obtain ⟨herror', rfl⟩ := Prod.mk.inj (hmake.symm.trans h)
      obtain rfl := Except.error.inj herror'
      exact ⟨built, hdocuments, hanalyze, rfl⟩

/--
**A chunk that fails leaves what its edits made up to the one that failed, and what that one's
document shows.**  Some text of that document is for an analyzer that is not known, which is the
error.  The index and what is pending, the identity field and the failure that is held are those
of the edits before it.  What is known of fields is what was known then or is shown by the
document that failed, and its schema is merged into those that were known then.
-/
theorem makeEdits_failed {store next : DocumentStore} {edits : List Edit} {e : Error}
    (h : store.makeEdits analyzers edits = (.error e, next)) : ∃ k edit built middle,
      edits[k]? = some edit ∧ edit.documents = [built] ∧
      store.makeEdits analyzers (edits.take k) = (.ok (), middle) ∧
      (∃ field ∈ built.document, ∃ name, field.NeedsUnknown analyzers name ∧
        e = .unknownAnalyzer name) ∧
      next.writer = middle.writer ∧ next.identityField = middle.identityField ∧
      next.failure = middle.failure ∧
      next.catalog = middle.catalog.merge built.contentType built.infos ∧
      next.schemas = middle.schemas.merge built.contentType built.schema ∧
      ∀ contentType info, next.catalog.Knows contentType info ↔
        middle.catalog.Knows contentType info ∨
          built.contentType = contentType ∧ info ∈ built.infos := by
  obtain ⟨k, edit, middle, hedit, hfront, hfails⟩ := exists_of_makeEdits_eq_error h
  obtain ⟨built, hdocuments, hanalyze, rfl⟩ := makeEdit_eq_error hfails
  exact ⟨k, edit, built, middle, hedit, hdocuments, hfront,
    InvertedIndex.exists_of_analyze_eq_error hanalyze, rfl, rfl, rfl, rfl, rfl,
    fun _ _ => FieldCatalog.knows_merge⟩

/-- A builder that reads the names of persons with an analyzer of its own. -/
def klingonBuilder : DocumentBuilder where
  config := .default
  fields := (FieldConfiguration.ofConfig .default).set ⟨"person", "name"⟩ (.text "klingon")
  analyzers := Table.insert Analyzers.builtIn "klingon" .standard

/-- A document without text, and a person. -/
def personBehindDocument : List Edit :=
  klingonBuilder.editsOf [.create (.object [("$id", .text "A")]),
    .create (.object [("$contentType", .text "person"), ("$id", .text "B"), ("name", .text "x")])]

/-- In a new index, the person fails and is not put in, but its content type is known. -/
theorem makeEdits_failed_person : ∃ middle next,
    Traffic.newIndex.store.makeEdits Analyzers.builtIn (personBehindDocument.take 1)
        = (.ok (), middle) ∧
      Traffic.newIndex.store.makeEdits Analyzers.builtIn personBehindDocument
        = (.error (.unknownAnalyzer "klingon"), next) ∧
      next.writer = middle.writer ∧ next.catalog ≠ middle.catalog ∧
      next.schemas ≠ middle.schemas := by
  refine ⟨_, _, rfl, rfl, rfl, by decide, fun h => ?_⟩
  exact absurd (congrArg List.length h) (by decide)

/-- The index is that of the edits before, and what the person shows is merged into what was known
then. -/
theorem makeEdits_failed_klingon :
    ∃ (k : Nat) (built : BuiltDocument) (middle next : DocumentStore),
    Traffic.newIndex.store.makeEdits Analyzers.builtIn personBehindDocument
        = (.error (.unknownAnalyzer "klingon"), next) ∧
      Traffic.newIndex.store.makeEdits Analyzers.builtIn (personBehindDocument.take k)
        = (.ok (), middle) ∧
      next.writer = middle.writer ∧
      next.catalog = middle.catalog.merge built.contentType built.infos := by
  obtain ⟨next, hfails⟩ : ∃ next, Traffic.newIndex.store.makeEdits Analyzers.builtIn
      personBehindDocument = (.error (.unknownAnalyzer "klingon"), next) := ⟨_, rfl⟩
  obtain ⟨k, _, built, middle, -, -, hfront, -, hwriter, -, -, hcatalog, -⟩ :=
    makeEdits_failed hfails
  exact ⟨k, built, middle, next, hfails, hfront, hwriter, hcatalog⟩

end DocumentStore

end DocIndex
