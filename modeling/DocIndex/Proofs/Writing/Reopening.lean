/-
Directories that open as an index with a given content.

Opening a directory replays its segments, so what it gives depends on nothing but the files that
the last commit names.  A commit leaves the segments before it as they were and puts at most one
behind them, which holds the pending changes; what the directory opens as is then what was
committed before, revised by these changes.
-/
import DocIndex.Proofs.Index.Listing
import DocIndex.Proofs.Schema.Reread
import DocIndex.Proofs.Storage.Replaying
import DocIndex.Writing.Store

namespace DocIndex

open Storage (CommitPoint Commit Extends IndexFile IndexWriter Reliable Segments)

variable {σ : Type} [Storage σ]

/-! ### Opening -/

/-- A directory that opens at a commit, with an index of a kind. -/
structure Opens (analyzers : Analyzers) (d : σ) (last : CommitPoint) (kind : InvertedIndex → Prop) :
    Prop where
  loads : ∃ index, IndexWriter.load analyzers d = .ok (last, index) ∧ kind index
  catalog : ∃ catalog, DocumentStore.readUserData last.userData DocumentStore.fieldInfosKey
    FieldCatalog.ofText? [] = .ok catalog
  schemas : ∃ schemas, DocumentStore.readUserData last.userData DocumentStore.schemasKey
    SchemaCatalog.ofText? [] = .ok schemas

namespace Opens

variable {analyzers : Analyzers} {d : σ} {last : CommitPoint} {kind : InvertedIndex → Prop}

/-- A directory without a marker opens as an index without documents. -/
theorem initial (h : Storage.hasFile d Storage.GenerationMarker.fileName = false)
    (hkind : kind .empty) : Opens analyzers d .initial kind where
  loads := ⟨.empty, by rw [IndexWriter.load, h]; rfl, hkind⟩
  catalog := ⟨[], rfl⟩
  schemas := ⟨[], rfl⟩

/-- Opening the directory gives a store without pending changes. -/
theorem openAt (h : Opens analyzers d last kind) (config : Config) :
    ∃ store, DocumentStore.openAt config analyzers d = .ok store ∧ kind store.writer.index ∧
      store.writer.pending = [] ∧ store.writer.last = last ∧
      store.writer.compression = config.sourceCompression ∧
      store.identityField = config.identityField ∧ store.failure = none := by
  obtain ⟨index, hload, hindex⟩ := h.loads
  obtain ⟨catalog, hcatalog⟩ := h.catalog
  obtain ⟨schemas, hschemas⟩ := h.schemas
  refine ⟨⟨⟨index, [], last, config.sourceCompression⟩, catalog, schemas, config.identityField,
    none⟩, ?_, hindex, rfl, rfl, rfl, rfl, rfl⟩
  simp only [DocumentStore.openAt, IndexWriter.openAt, hload, Except.map, bind, Except.bind,
    DocumentStore.ofWriter, hcatalog, hschemas]
  rfl

end Opens

/-- A directory that opens at a commit, with the given entries. -/
structure Reopens (config : Config) (analyzers : Analyzers) (d : σ) (last : CommitPoint)
    (entries : List Entry) : Prop where
  loads : ∃ index, IndexWriter.load analyzers d = .ok (last, index) ∧ index.Lists config entries
  catalog : ∃ catalog, DocumentStore.readUserData last.userData DocumentStore.fieldInfosKey
    FieldCatalog.ofText? [] = .ok catalog
  schemas : ∃ schemas, DocumentStore.readUserData last.userData DocumentStore.schemasKey
    SchemaCatalog.ofText? [] = .ok schemas

namespace Reopens

variable {config : Config} {analyzers : Analyzers} {d : σ} {last : CommitPoint}
  {entries : List Entry}

/-- A directory opens with entries if it opens with an index that lists them. -/
theorem iff_opens : Reopens config analyzers d last entries ↔
    Opens analyzers d last fun index => index.Lists config entries :=
  ⟨fun h => ⟨h.loads, h.catalog, h.schemas⟩, fun h => ⟨h.loads, h.catalog, h.schemas⟩⟩

/-- A directory without a marker opens as an index without documents. -/
theorem initial (h : Storage.hasFile d Storage.GenerationMarker.fileName = false) :
    Reopens config analyzers d .initial [] :=
  iff_opens.mpr (.initial h InvertedIndex.Lists.empty)

/-- Opening the directory gives a store without pending changes. -/
theorem openAt (h : Reopens config analyzers d last entries) :
    ∃ store, DocumentStore.openAt config analyzers d = .ok store ∧
      store.writer.index.Lists config entries ∧ store.writer.pending = [] ∧
      store.writer.last = last ∧ store.writer.compression = config.sourceCompression ∧
      store.identityField = config.identityField ∧ store.failure = none :=
  (iff_opens.mp h).openAt config

end Reopens

/-! ### Committing -/

/--
A store whose commit can be read back: the segment is not too long for the frame of its block,
the generation fits a word, the text of the schemas is parsed as it was written, and a clock
shows the time.
-/
structure DocumentStore.Recoverable (store : DocumentStore) (now : Moment) : Prop where
  segment : (Storage.Record.writeList Storage.Record.writeChange store.writer.pending).length
    < 256 ^ 4
  generation : store.writer.last.generation < uint64Max
  schemas : Json.parseWritten? store.schemas.toStored.write = some store.schemas.toStored
  time : now.Regular

namespace DocumentStore

variable (store : DocumentStore)

theorem sorted_userData : Table.Sorted store.userData := Table.sorted_ofEntries _

theorem readUserData_ok {α : Type} {userData : Table String String} {key text : String}
    {ofText? : String → Option α} (hfind : Table.find? userData key = some text)
    (hread : (ofText? text).isSome) (missing : α) :
    ∃ value, readUserData userData key ofText? missing = .ok value := by
  obtain ⟨value, hvalue⟩ := Option.isSome_iff_exists.mp hread
  exact ⟨value, by simp only [readUserData, hfind, hvalue]⟩

theorem userData_eq : store.userData
    = Table.insert (Table.insert [] fieldInfosKey store.catalog.toStored.write) schemasKey
      store.schemas.toStored.write := by
  simp only [userData, Table.ofEntries, List.foldl_cons, List.foldl_nil]

theorem find?_fieldInfos :
    Table.find? store.userData fieldInfosKey = some store.catalog.toStored.write := by
  have hne : fieldInfosKey ≠ schemasKey := by decide
  rw [userData_eq, Table.find?_insert_ne _ hne, Table.find?_insert_self]

theorem find?_schemas :
    Table.find? store.userData schemasKey = some store.schemas.toStored.write := by
  rw [userData_eq, Table.find?_insert_self]

end DocumentStore

/-- **After a commit the directory opens with what the pending changes make of its index.** -/
theorem Opens.answerCommit {analyzers : Analyzers} {usable : σ → Prop} {d : σ}
    (hr : Reliable σ usable) (hd : usable d) {store : DocumentStore}
    {kind later : InvertedIndex → Prop} {segment : String} {now : Moment}
    (hfailure : store.failure = none) (hsegments : Segments store.writer.last.segments)
    (hnew : Storage.Segment.fileName segment ∉ store.writer.last.segments)
    (h : Opens analyzers d store.writer.last kind)
    (hreplays : ∀ index, kind index → ∃ next,
      index.replay analyzers (store.writer.pending.map Change.narrowed) = .ok next ∧ later next)
    (hcodec : ∀ data, store.writer.compression.Restores data) (hstore : store.Recoverable now) :
    ∃ (commit : Commit) (next : σ),
      store.answerCommit segment now d = (.ok commit.generation,
          { store with
            writer := { store.writer with pending := [], last := .ofCommit commit } }, next) ∧
        usable next ∧ commit.generation = store.writer.last.generation + 1 ∧
        commit.userData = store.userData ∧ Segments commit.segments ∧
        (∀ name ∈ commit.segments, name ∈ store.writer.last.segments ∨
          name = Storage.Segment.fileName segment) ∧
        Storage.Published next commit ∧ Opens analyzers next (.ofCommit commit) later := by
  obtain ⟨names, next, hrun, husable, hmarker, hfile, hkept, hextends⟩ :=
    Storage.commit_written hr hd hsegments hnew store.userData now
  have hpublished : Storage.Published next
      ⟨store.writer.last.generation + 1, names, store.userData, now⟩ :=
    ⟨hmarker, hfile, hstore.generation, store.sorted_userData, hstore.time⟩
  refine ⟨_, next, ?_, husable, rfl, rfl, hextends.segments hsegments, hextends.mem, hpublished,
    ?_, ?_, ?_⟩
  · simp only [DocumentStore.answerCommit, hfailure, hrun]
    rfl
  · obtain ⟨index, hload, hindex⟩ := h.loads
    obtain ⟨last, hreplay, hlast⟩ := hreplays index hindex
    have hold : IndexWriter.replaySegments analyzers next .empty store.writer.last.segments
        = .ok index := by
      rw [IndexWriter.replaySegments_congr _ hkept]
      exact IndexWriter.replaySegments_of_load hload
    have hreplayed : IndexWriter.replaySegments analyzers next .empty names = .ok last := by
      rcases hextends with ⟨hnone, rfl⟩ | ⟨rfl, hread⟩
      · -- No segment was written, because nothing is pending.
        rw [hnone] at hreplay
        exact hold.trans hreplay
      · have hdecode := Storage.Segment.decode_encode hstore.segment (hcodec _)
        exact IndexWriter.replaySegments_snoc hread hdecode hold hreplay
    exact ⟨last, hpublished.load hr husable hreplayed, hlast⟩
  · exact DocumentStore.readUserData_ok store.find?_fieldInfos store.catalog.isSome_ofText? _
  · exact DocumentStore.readUserData_ok store.find?_schemas
      (SchemaCatalog.isSome_ofText? hstore.schemas) _

namespace Reopens

variable {config : Config} {analyzers : Analyzers} {usable : σ → Prop} {d : σ}

/-- **After a commit the directory opens with the entries that the index lists.** -/
theorem answerCommit (hr : Reliable σ usable) (hd : usable d) {store : DocumentStore}
    {committed current : List Entry} {segment : String} {now : Moment}
    (hfailure : store.failure = none) (hsegments : Segments store.writer.last.segments)
    (hnew : Storage.Segment.fileName segment ∉ store.writer.last.segments)
    (h : Reopens config analyzers d store.writer.last committed)
    (hrevises : RevisesAll analyzers config store.writer.pending committed current)
    (hcodec : ∀ data, store.writer.compression.Restores data) (hstore : store.Recoverable now) :
    ∃ names next,
      let last : CommitPoint := ⟨store.writer.last.generation + 1, names, store.userData⟩
      store.answerCommit segment now d = (.ok last.generation,
          { store with writer := { store.writer with pending := [], last } }, next) ∧
        usable next ∧ Segments names ∧
        (∀ name ∈ names, name ∈ store.writer.last.segments ∨
          name = Storage.Segment.fileName segment) ∧
        Reopens config analyzers next last current := by
  obtain ⟨⟨generation, names, userData, createdAt⟩, next, hanswer, husable, hgeneration, huserData,
    hnames, hfrom, -, hopens⟩ :=
    (iff_opens.mp h).answerCommit hr hd hfailure hsegments hnew
      (fun index hlists => hlists.replay hrevises.narrowed) hcodec hstore
  obtain rfl : generation = store.writer.last.generation + 1 := hgeneration
  obtain rfl : userData = store.userData := huserData
  exact ⟨names, next, hanswer, husable, hnames, hfrom, iff_opens.mpr hopens⟩

end Reopens

end DocIndex
