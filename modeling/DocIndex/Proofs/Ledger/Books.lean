/-
Documents that are known of, whatever becomes of the index.

An index is written to, committed, opened again with the same settings or others, copied and
restored, and books are kept of the edits that made it: those in the index, those in its last
commit, and those in every snapshot.  Three things go together in this.  A commit writes the
changes of its edits and what was noted of their documents in one step; a snapshot copies both;
and opening a directory reads both.  So wherever the documents come back from, what is known of
them comes with them.
-/
import DocIndex.Proofs.Ledger.Sources
import DocIndex.Proofs.Writing.Noting

namespace DocIndex

open Storage (Commit CommitPoint Copy IndexWriter Published Reliable Replaceable Segments
  SnapshotReader SnapshotTarget)

/-! ### Journals -/

/-- An edit, with the field that documents are updated and deleted by. -/
structure Booking where
  identityField : String
  edit : Edit

/-- The edits that made an index, in their order. -/
abbrev Journal := List Booking

namespace Journal

/-- The changes that the edits made. -/
def changes (journal : Journal) : List Change :=
  journal.flatMap fun booking => booking.edit.changes booking.identityField

/-- The documents that were put in, at the places of their numbers. -/
def documents (journal : Journal) : List BuiltDocument :=
  journal.flatMap fun booking => booking.edit.documents

/-- The changes make an index, if integers are told apart as the words that are kept of them. -/
def Makes (journal : Journal) (analyzers : Analyzers) (index : InvertedIndex) : Prop :=
  ∃ changes : List Change, changes.map Change.narrowed = journal.changes.map Change.narrowed ∧
    InvertedIndex.empty.replay analyzers changes = .ok index

/-- The edits of a chunk behind those of a journal. -/
def add (journal : Journal) (identityField : String) (edits : List Edit) : Journal :=
  journal ++ edits.map (Booking.mk identityField)

variable {journal : Journal} {analyzers : Analyzers} {index : InvertedIndex}

theorem changes_add (journal : Journal) (identityField : String) (edits : List Edit) :
    (journal.add identityField edits).changes
      = journal.changes ++ edits.flatMap (Edit.changes identityField) := by
  rw [changes, add, List.flatMap_append, List.flatMap_map]
  rfl

theorem documents_add (journal : Journal) (identityField : String) (edits : List Edit) :
    (journal.add identityField edits).documents
      = journal.documents ++ edits.flatMap Edit.documents := by
  rw [documents, add, List.flatMap_append, List.flatMap_map]
  rfl

/-- An index that is changed further is made of a longer journal. -/
theorem Makes.add (h : journal.Makes analyzers index) {identityField : String} {edits : List Edit}
    {next : InvertedIndex}
    (hreplay : index.replay analyzers (edits.flatMap (Edit.changes identityField)) = .ok next) :
    (journal.add identityField edits).Makes analyzers next := by
  obtain ⟨changes, hchanges, hmade⟩ := h
  refine ⟨changes ++ edits.flatMap (Edit.changes identityField), ?_, ?_⟩
  · rw [changes_add, List.map_append, List.map_append, hchanges]
  · exact (InvertedIndex.replay_append hmade).trans hreplay

/-- What the documents of a journal keep, its changes keep. -/
theorem keptBy_changes (journal : Journal) : Change.keptBy journal.changes
    = journal.documents.map fun built => built.document.flatMap InvertedIndex.keptOf := by
  induction journal with
  | nil => rfl
  | cons booking rest ih =>
      obtain ⟨identityField, edit⟩ := booking
      have hchanges : changes (⟨identityField, edit⟩ :: rest)
          = edit.changes identityField ++ changes rest := List.flatMap_cons
      have hdocuments : documents (⟨identityField, edit⟩ :: rest)
          = edit.documents ++ documents rest := List.flatMap_cons
      rw [hchanges, hdocuments, Change.keptBy_append, ih, List.map_append]
      cases edit <;> rfl

/-- A live document is one of those that were put in. -/
theorem Makes.exists_document (h : journal.Makes analyzers index) {doc : DocId}
    (hdoc : doc ∈ index.live) : ∃ built, journal.documents[doc]? = some built := by
  obtain ⟨changes, hchanges, hmade⟩ := h
  obtain ⟨next, hnext, hkeeps⟩ :=
    InvertedIndex.Keeps.replay (InvertedIndex.analysable_of_replay hmade) .empty
  obtain rfl := Except.ok.inj (hnext.symm.trans hmade)
  obtain ⟨row, hrow, -⟩ := hkeeps.exists_row hdoc
  rw [List.nil_append, ← Change.keptBy_narrowed, hchanges, Change.keptBy_narrowed,
    keptBy_changes, List.getElem?_map, Option.map_eq_some_iff] at hrow
  obtain ⟨built, hbuilt, -⟩ := hrow
  exact ⟨built, hbuilt⟩

end Journal

/-! ### Directories and their snapshots -/

/-- A store that was just opened at a commit, all of whose documents are noted in it. -/
structure DocumentStore.Opened (store : DocumentStore) (config : Config) (analyzers : Analyzers)
    (last : CommitPoint) (journal : Journal) : Prop where
  last : store.writer.last = last
  pending : store.writer.pending = []
  identityField : store.identityField = config.identityField
  failure : store.failure = none
  makes : journal.Makes analyzers store.writer.index
  tidy : store.Tidy
  notes : ∀ built ∈ journal.documents, store.Notes built

section Directories

variable {σ τ : Type} [Storage σ] {usable : σ → Prop}
  {source : τ → Except Error SnapshotReader} {next : IdentifierSupply}

/-- A directory that rests at a commit of a journal, or at no commit. -/
structure Rests (usable : σ → Prop) (d : σ) (last : CommitPoint) (next : IdentifierSupply)
    (committed : Option Journal) : Prop where
  usable : usable d
  segments : Segments last.segments
  /-- No identifier that is still to be handed out names a segment. -/
  fresh : ∀ n, next ≤ n → Storage.Segment.fileName (Identifier.ofNat n) ∉ last.segments
  changes : Storage.changesOf d last.segments
    = .ok ((committed.getD []).changes.map Change.narrowed)
  unmarked : committed = none →
    Storage.hasFile d Storage.GenerationMarker.fileName = false ∧ last = .initial
  /-- The commit carries what was noted of the documents. -/
  published : ∀ journal ∈ committed, ∃ commit store, Published d commit ∧ last = .ofCommit commit ∧
    last.userData = DocumentStore.userData store ∧ store.Tidy ∧
      ∀ built ∈ journal.documents, store.Notes built

/-- A snapshot that gives a copy of a directory at a commit of a journal back. -/
def Copied (usable : σ → Prop) (source : τ → Except Error SnapshotReader)
    (next : IdentifierSupply) (filled : τ) (journal : Journal) : Prop :=
  ∃ (d : σ) (commit : Commit) (copy : Copy) (reader : SnapshotReader),
    Rests usable d (.ofCommit commit) next (some journal) ∧ Published d commit ∧
      copy.Of d commit.inUtc ∧ copy.generation = commit.generation ∧
      copy.segmentsFile.2 = commit.toBytes ∧ source filled = .ok reader ∧ reader.Gives copy

namespace Rests

variable {d : σ} {last : CommitPoint} {committed : Option Journal}

theorem initial (hd : usable d)
    (hempty : Storage.hasFile d Storage.GenerationMarker.fileName = false) :
    Rests usable d .initial next none where
  usable := hd
  segments := List.forall_mem_nil _
  fresh := fun _ _ => List.not_mem_nil
  changes := rfl
  unmarked := fun _ => ⟨hempty, rfl⟩
  published := fun _ h => by cases h

theorem later (h : Rests usable d last next committed) {following : IdentifierSupply}
    (hle : next ≤ following) : Rests usable d last following committed :=
  { h with fresh := fun n hn => h.fresh n (Nat.le_trans hle hn) }

/-- What is loaded is the last commit, with an index that its journal makes. -/
theorem of_load (hr : Reliable σ usable) (h : Rests usable d last next committed)
    {analyzers : Analyzers} {point : CommitPoint} {index : InvertedIndex}
    (hload : IndexWriter.load analyzers d = .ok (point, index)) :
    point = last ∧ (committed.getD []).Makes analyzers index := by
  have hpoint : point = last := by
    cases committed with
    | none =>
        obtain ⟨hempty, rfl⟩ := h.unmarked rfl
        rw [IndexWriter.load, hempty, if_neg Bool.false_ne_true] at hload
        exact (Prod.mk.inj (Except.ok.inj hload)).1.symm
    | some journal =>
        obtain ⟨commit, _, hpublished, rfl, -⟩ := h.published journal rfl
        rw [Storage.load_of_committed (hpublished.committed hr h.usable)] at hload
        obtain ⟨made, -, heq⟩ := map_eq_ok.mp hload
        exact (Prod.mk.inj heq).1.symm
  subst hpoint
  obtain ⟨changes, hchanges, hmade⟩ :=
    IndexWriter.changesOf_replaySegments (IndexWriter.replaySegments_of_load hload)
  obtain rfl := Except.ok.inj (h.changes.symm.trans hchanges)
  refine ⟨rfl, _, ?_, hmade⟩
  rw [List.map_map]
  exact List.map_congr_left fun change _ => change.narrowed_narrowed

/-- **A store that is opened has noted all documents of the last commit.** -/
theorem of_openAt (hr : Reliable σ usable) (h : Rests usable d last next committed)
    {config : Config} {analyzers : Analyzers} {store : DocumentStore}
    (hopen : DocumentStore.openAt config analyzers d = .ok store) :
    store.Opened config analyzers last (committed.getD []) := by
  obtain ⟨writer, hwriter, hopen⟩ := bind_eq_ok.mp hopen
  obtain ⟨⟨point, index⟩, hload, rfl⟩ := map_eq_ok.mp hwriter
  obtain ⟨rfl, hmakes⟩ := h.of_load hr hload
  have hnoted : store.Tidy ∧ ∀ built ∈ (committed.getD []).documents, store.Notes built := by
    cases committed with
    | none =>
        obtain ⟨-, rfl⟩ := h.unmarked rfl
        obtain rfl := Except.ok.inj hopen
        exact ⟨⟨Table.sorted_nil, .nil⟩, List.forall_mem_nil _⟩
    | some journal =>
        obtain ⟨_, noted, -, -, huserData, htidy, hnotes⟩ := h.published journal rfl
        have hall := DocumentStore.notesAll_ofWriter htidy huserData hopen
        exact ⟨hall.tidy, fun built hbuilt => hall.remembers built (hnotes built hbuilt)⟩
  obtain ⟨catalog, -, hopen⟩ := bind_eq_ok.mp hopen
  obtain ⟨schemas, -, hopen⟩ := bind_eq_ok.mp hopen
  obtain rfl := Except.ok.inj hopen
  exact ⟨rfl, rfl, rfl, rfl, hmakes, hnoted.1, hnoted.2⟩

/-- A snapshot of a directory with a commit is taken. -/
theorem snapshot [SnapshotTarget τ] (hr : Reliable σ usable) {journal : Journal}
    (h : Rests usable d last next (some journal)) {target : τ}
    (hback : ∀ (copy : Copy) commit, copy.Of d commit → copy.HandedBack target source) :
    ∃ generation filled, (Storage.snapshot d).runFrom target = (.ok generation, filled) ∧
      Copied usable source next filled journal := by
  obtain ⟨commit, _, hpublished, rfl, -⟩ := h.published journal rfl
  obtain ⟨copy, hof, hgeneration, hbytes⟩ := Copy.exists_of (hpublished.committed hr h.usable)
    (Storage.readable_of_changesOf h.changes)
  obtain ⟨filled, reader, hhand, hsource, hgives⟩ := hback copy _ hof
  exact ⟨copy.generation, filled, hof.runFrom_snapshot hhand, d, commit, copy, reader, h,
    hpublished, hof, hgeneration, hbytes, hsource, hgives⟩

end Rests

namespace Copied

variable {filled : τ} {journal : Journal}

theorem later (h : Copied usable source next filled journal) {following : IdentifierSupply}
    (hle : next ≤ following) : Copied usable source following filled journal := by
  obtain ⟨d, commit, copy, reader, hrests, hrest⟩ := h
  exact ⟨d, commit, copy, reader, hrests.later hle, hrest⟩

/-- A directory that is restored from a snapshot rests at the commit of that. -/
theorem restore (hr : Replaceable σ usable) (h : Copied usable source next filled journal)
    {other : σ} (hother : usable other) :
    ∃ generation restored last,
      (Storage.restore (source filled)).runFrom other = (.ok generation, restored) ∧
        Rests usable restored last next (some journal) := by
  obtain ⟨d, commit, copy, reader, hrests, hpublished, hof, hgeneration, hbytes, hsource, hgives⟩ :=
    h
  obtain ⟨restored, hrun, husable, hreproduces⟩ :=
    hpublished.restore_ok hr hother hrests.segments hof hgeneration hbytes hgives
  have hread : ∀ name, name ∈ commit.segments ∨ name = commit.fileName ∨
      name = Storage.GenerationMarker.fileName →
        Storage.read restored name = Storage.read d name := fun name hname =>
    hreproduces.read name ((hreproduces.lists name).mpr hname)
  obtain ⟨hagain, -⟩ :=
    hpublished.load_congr hr.toReliable hrests.usable hr.toReliable husable hread
  refine ⟨commit.generation, restored, .ofCommit commit, by rw [hsource, hrun], husable,
    hrests.segments, hrests.fresh, ?_, (by cases ·), fun _ hjournal => ?_⟩
  · exact (Storage.changesOf_congr fun name hname => hread name (.inl hname)).trans
      hrests.changes
  · obtain ⟨_, store, -, -, hnoted⟩ := hrests.published _ hjournal
    exact ⟨commit, store, hagain, rfl, hnoted⟩

end Copied

end Directories

/-! ### Commits -/

/--
A store whose commit can be read back: the segment is not too long for the frame of its block and
its codec is lossless on it, the generation fits a word, and a clock shows the time.
-/
structure DocumentStore.Preservable (store : DocumentStore) (now : Moment) : Prop where
  segment : (Storage.Record.writeList Storage.Record.writeChange store.writer.pending).length
    < 256 ^ 4
  codec : store.writer.compression.Restores
    (Storage.Record.writeList Storage.Record.writeChange store.writer.pending)
  generation : store.writer.last.generation < uint64Max
  time : now.Regular

/-- **After a commit the directory rests at a longer journal**, with what was noted of it. -/
theorem Rests.answerCommit {σ : Type} [Storage σ] {usable : σ → Prop} {d : σ}
    (hr : Reliable σ usable) {store : DocumentStore} {next : IdentifierSupply}
    {committed : Option Journal} {journal : Journal} {now : Moment}
    (h : Rests usable d store.writer.last next committed) (hfailure : store.failure = none)
    (hpending : ((committed.getD []).changes ++ store.writer.pending).map Change.narrowed
      = journal.changes.map Change.narrowed)
    (htidy : store.Tidy) (hnotes : ∀ built ∈ journal.documents, store.Notes built)
    (hstore : store.Preservable now) :
    ∃ (commit : Commit) (directory : σ),
      store.answerCommit (Identifier.ofNat next) now d
        = (.ok commit.generation, { store with
            writer := { store.writer with pending := [], last := .ofCommit commit } },
          directory) ∧
      Rests usable directory (.ofCommit commit) (next + 1) (some journal) := by
  obtain ⟨names, directory, hrun, husable, hmarker, hfile, hkept, hextends⟩ :=
    Storage.commit_written hr h.usable h.segments (h.fresh _ (Nat.le_refl _)) store.userData now
  let commit : Commit := ⟨store.writer.last.generation + 1, names, store.userData, now⟩
  have hpublished : Published directory commit :=
    ⟨hmarker, hfile, hstore.generation, store.sorted_userData, hstore.time⟩
  have hchanges : Storage.changesOf directory names
      = .ok (journal.changes.map Change.narrowed) := by
    have hcommitted := (Storage.changesOf_congr hkept).trans h.changes
    rw [hextends.changesOf_narrowed hstore.segment hstore.codec hcommitted, ← hpending,
      List.map_append]
  refine ⟨commit, directory, ?_, husable, hextends.segments h.segments, fun m hm hmem => ?_,
    hchanges, (by cases ·), ?_⟩
  · simp only [DocumentStore.answerCommit, hfailure, hrun]
    rfl
  · rcases hextends.mem _ hmem with hold | hnew
    · exact h.fresh m (Nat.le_of_succ_le hm) hold
    · exact (Nat.ne_of_gt hm) (Identifier.ofNat_injective (Storage.segment_injective hnew))
  · intro _ hjournal
    obtain rfl := Option.some.inj hjournal
    exact ⟨commit, store, hpublished, rfl, rfl, htidy, hnotes⟩

end DocIndex
