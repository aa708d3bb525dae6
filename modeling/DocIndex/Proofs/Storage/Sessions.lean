/-
Sessions: a writer over a directory, call after call.

Whatever was called so far, the committed changes and the pending ones make the index in memory.
Calls keep two facts that give this: the directory loads as the last commit left it, and from
there the pending changes make the index.  A call that changes the index moves the second one on
by its own changes.  A commit begins both anew, since what it leaves in the directory makes the
index that was there in memory, and opening the directory or rolling back returns to it.

A rollback gives up all that a writer knows before it reads the last commit.  If that fails it says
so, and from then on the writer counts from the beginning: its first commit is generation 1 and
has only the segment of what was done since, whatever was committed before.  If the directory can
be read again and the rollback is repeated in time, nothing is lost.  Both cases are one: a writer
goes on from a point if its index is what its pending changes make of the index there, and then
its next commit adds these changes to what the point holds.
-/
import DocIndex.Proofs.Storage.Replaying

namespace DocIndex.Storage

/-! ### Calls -/

/-- A call on a writer over a directory. -/
inductive Call where
  /-- A document is added, replaced or deleted; the call may fail. -/
  | revise (revision : Revision)
  | commit (segment : String) (userData : Table String String) (now : Moment)
  | rollback
  /-- The writer is given up and the directory opened again. -/
  | reopen (compression : Compression)

/-- A writer over a directory, and what the last commit left. -/
structure Session (σ : Type) where
  writer : IndexWriter
  directory : σ
  /-- The last commit, and the index that was in memory when it was made. -/
  settled : CommitPoint × InvertedIndex

namespace Session

variable {σ : Type} [Storage σ]

/-- The session that begins when a directory is opened. -/
def opening (analyzers : Analyzers) (compression : Compression) (d : σ) :
    Except Error (Session σ) :=
  (IndexWriter.openAt analyzers compression d).map fun writer =>
    ⟨writer, d, writer.last, writer.index⟩

/-- The session after a call. -/
def after (analyzers : Analyzers) (session : Session σ) : Call → Session σ
  | .revise revision => { session with writer := (session.writer.attempt analyzers revision).1 }
  | .commit segment userData now =>
    match (session.writer.commit segment userData now).runFrom session.directory with
    | (.ok writer, directory) => ⟨writer, directory, writer.last, writer.index⟩
    | (.error _, directory) => { session with directory }
  | .rollback => { session with writer := (session.writer.rollback analyzers session.directory).2 }
  | .reopen compression =>
    match IndexWriter.openAt analyzers compression session.directory with
    | .ok writer => { session with writer }
    | .error _ => session

/-- The session after calls, one after the other. -/
def afterAll (analyzers : Analyzers) (session : Session σ) (calls : List Call) : Session σ :=
  calls.foldl (after analyzers) session

/-- A call whose commit, if it is one, has a new segment and can be read back. -/
def Sound (session : Session σ) : Call → Prop
  | .commit segment userData now =>
    Segment.fileName segment ∉ session.writer.last.segments ∧
      session.writer.Committable userData now
  | .revise _ | .rollback | .reopen _ => True

/-- Calls each of which is sound when it is made. -/
def AllSound (analyzers : Analyzers) : Session σ → List Call → Prop
  | _, [] => True
  | session, call :: rest =>
    session.Sound call ∧ AllSound analyzers (session.after analyzers call) rest

/-! ### What every call keeps -/

/-- A session whose directory holds the last commit, and whose pending changes make its index. -/
structure Exact (usable : σ → Prop) (analyzers : Analyzers) (session : Session σ) : Prop where
  usable : usable session.directory
  segments : Segments session.writer.last.segments
  last : session.writer.last = session.settled.1
  loads : IndexWriter.load analyzers session.directory = .ok session.settled
  index : session.settled.2.replay analyzers session.writer.pending = .ok session.writer.index

namespace Exact

variable {usable : σ → Prop} {analyzers : Analyzers} {session : Session σ}

/-- A writer that was just opened has nothing pending. -/
theorem opening {d : σ} {compression : Compression} (hd : usable d)
    (hopen : Session.opening analyzers compression d = .ok session)
    (hsegments : Segments session.writer.last.segments) : session.Exact usable analyzers := by
  cases hload : IndexWriter.load analyzers d with
  | error e => simp [Session.opening, IndexWriter.openAt, hload, Except.map] at hopen
  | ok loaded =>
      simp only [Session.opening, IndexWriter.openAt, hload, Except.map] at hopen
      obtain rfl := Except.ok.inj hopen
      exact ⟨hd, hsegments, rfl, hload, rfl⟩

/-- Opening the directory gives what the last commit left. -/
theorem openAt (h : session.Exact usable analyzers) (compression : Compression) :
    IndexWriter.openAt analyzers compression session.directory
      = .ok ⟨session.settled.2, [], session.settled.1, compression⟩ := by
  rw [IndexWriter.openAt, h.loads]
  rfl

/-- So does rolling back. -/
theorem rollback (h : session.Exact usable analyzers) :
    session.writer.rollback analyzers session.directory
      = (.ok (), ⟨session.settled.2, [], session.settled.1, session.writer.compression⟩) := by
  simp only [IndexWriter.rollback, h.openAt]

/-- The committed changes and the pending ones make the index. -/
theorem replays (h : session.Exact usable analyzers) :
    ∃ committed, changesOf session.directory session.writer.last.segments = .ok committed ∧
      InvertedIndex.empty.replay analyzers (committed ++ session.writer.pending)
        = .ok session.writer.index := by
  have hsegments := IndexWriter.replaySegments_of_load h.loads
  rw [← h.last] at hsegments
  obtain ⟨committed, hcommitted, hreplay⟩ := IndexWriter.changesOf_replaySegments hsegments
  exact ⟨committed, hcommitted, (InvertedIndex.replay_append hreplay).trans h.index⟩

/-- A commit succeeds, and the directory loads as the index in memory from then on. -/
theorem commit (hr : Reliable σ usable) (h : session.Exact usable analyzers) {segment : String}
    {userData : Table String String} {now : Moment}
    (hsound : session.Sound (.commit segment userData now)) :
    ∃ names next,
      let writer := { session.writer with
        pending := [], last := ⟨session.writer.last.generation + 1, names, userData⟩ }
      (session.writer.commit segment userData now).runFrom session.directory
          = (.ok writer, next) ∧
        Exact usable analyzers ⟨writer, next, writer.last, writer.index⟩ := by
  obtain ⟨hnew, hcommittable⟩ := hsound
  obtain ⟨committed, hcommitted, hreplay⟩ := h.replays
  obtain ⟨names, next, hrun, husable, hsegments, -, hload⟩ :=
    IndexWriter.commit_loads hr h.usable h.segments hcommitted hreplay hnew hcommittable
  exact ⟨names, next, hrun, husable, hsegments, rfl, hload, rfl⟩

/-- Changes that are made in the index and are pending keep a session exact. -/
theorem revised (h : session.Exact usable analyzers) {changes : List Change}
    {writer : IndexWriter} (hrevised : session.writer.Revised analyzers changes writer) :
    Exact usable analyzers { session with writer } where
  usable := h.usable
  segments := by
    show Segments writer.last.segments
    rw [hrevised.last]
    exact h.segments
  last := hrevised.last.trans h.last
  loads := h.loads
  index := by
    show session.settled.2.replay analyzers writer.pending = _
    rw [hrevised.pending, InvertedIndex.replay_append h.index]
    exact hrevised.index

/-- Every call keeps a session exact. -/
theorem after (hr : Reliable σ usable) (h : session.Exact usable analyzers) {call : Call}
    (hsound : session.Sound call) : (session.after analyzers call).Exact usable analyzers := by
  cases call with
  | revise revision => exact h.revised (IndexWriter.revised_attempt session.writer revision)
  | commit segment userData now =>
      obtain ⟨names, next, hrun, hexact⟩ := h.commit hr hsound
      simp only [Session.after, hrun]
      exact hexact
  | rollback =>
      simp only [Session.after, h.rollback]
      exact ⟨h.usable, h.last ▸ h.segments, rfl, h.loads, rfl⟩
  | reopen compression =>
      simp only [Session.after, h.openAt]
      exact ⟨h.usable, h.last ▸ h.segments, rfl, h.loads, rfl⟩

/-- So does every run. -/
theorem afterAll (hr : Reliable σ usable) : ∀ {calls : List Call} {session : Session σ},
    session.Exact usable analyzers → session.AllSound analyzers calls →
      (session.afterAll analyzers calls).Exact usable analyzers
  | [], _, h, _ => h
  | _ :: _, _, h, ⟨hsound, hrest⟩ => (h.after hr hsound).afterAll hr hrest

end Exact

/-! ### Runs -/

/--
**The index is what the committed and the pending changes make**, at every point of a session.
The directory can be opened at every point, with the index, the user data and the generation of
the last commit, and rolling back gives the very same.  A commit succeeds, raises the generation
by one and leaves a directory that opens with the index that was in memory.
-/
theorem afterAll_exact {usable : σ → Prop} (hr : Reliable σ usable) {analyzers : Analyzers}
    {compression : Compression} {d : σ} (hd : usable d) {start : Session σ}
    (hopen : opening analyzers compression d = .ok start)
    (hsegments : Segments start.writer.last.segments) {calls : List Call}
    (hsound : start.AllSound analyzers calls) :
    let session := start.afterAll analyzers calls
    (∃ committed, changesOf session.directory session.writer.last.segments = .ok committed ∧
      InvertedIndex.empty.replay analyzers (committed ++ session.writer.pending)
        = .ok session.writer.index) ∧
    (∀ compression, IndexWriter.openAt analyzers compression session.directory
      = .ok ⟨session.settled.2, [], session.settled.1, compression⟩) ∧
    session.writer.rollback analyzers session.directory
      = (.ok (), ⟨session.settled.2, [], session.settled.1, session.writer.compression⟩) ∧
    ∀ segment userData now, session.Sound (.commit segment userData now) → ∃ names next,
      let last : CommitPoint := ⟨session.writer.last.generation + 1, names, userData⟩
      (session.writer.commit segment userData now).runFrom session.directory
          = (.ok { session.writer with pending := [], last }, next) ∧
        ∀ compression, IndexWriter.openAt analyzers compression next
          = .ok ⟨session.writer.index, [], last, compression⟩ := by
  intro session
  have hexact : session.Exact usable analyzers :=
    (Exact.opening hd hopen hsegments).afterAll hr hsound
  refine ⟨hexact.replays, hexact.openAt, hexact.rollback, fun segment userData now hcommit => ?_⟩
  obtain ⟨names, next, hrun, hnext⟩ := hexact.commit hr hcommit
  exact ⟨names, next, hrun, hnext.openAt⟩

/--
A document is committed, its deletion is given up, and a document for an unknown analyzer is not
added.
-/
def givenUpDeletion : List Call :=
  [.revise (.add [.term "$id" "1"]), .commit "a" [("k", "v")] ⟨0, 0, 0⟩,
    .revise (.deleteTerm "$id" "1"), .revise (.add [.text "name" "x" "unknown"]), .rollback,
    .commit "b" [] ⟨0, 0, 0⟩]

theorem afterAll_exact_givenUpDeletion :
    ∃ start, opening [] .lz4 Directory.inMemory = .ok start ∧
      let session := start.afterAll [] givenUpDeletion
      (∃ committed, changesOf session.directory session.writer.last.segments = .ok committed ∧
        InvertedIndex.empty.replay [] (committed ++ session.writer.pending)
          = .ok session.writer.index) ∧
      IndexWriter.openAt [] .lz4 session.directory
        = .ok ⟨session.settled.2, [], session.settled.1, .lz4⟩ := by
  let start : Session Directory := ⟨.empty .lz4, .inMemory, .initial, .empty⟩
  have hsegments : Segments start.writer.last.segments := List.forall_mem_nil _
  have htime : Moment.Regular ⟨0, 0, 0⟩ := ⟨by decide, Or.inl (by decide)⟩
  have hfirst : InWords [.add [.term "$id" "1"]] ∧
      (Record.writeList Record.writeChange [.add [.term "$id" "1"]]).length < 256 ^ 4 := by
    decide +kernel
  -- The second commit is made by the writer that the rollback loads.
  have hsecond : let writer := (start.afterAll [] (givenUpDeletion.take 5)).writer
      writer.last = ⟨1, [Segment.fileName "a"], [("k", "v")]⟩ ∧ writer.pending = [] ∧
        writer.compression = .lz4 := by
    decide +kernel
  obtain ⟨hlast, hpending, hcompression⟩ := hsecond
  have hsound : start.AllSound [] givenUpDeletion := by
    refine ⟨trivial, ⟨List.not_mem_nil, hfirst.1, hfirst.2, Compression.restores_lz4 _, by decide,
      by decide, htime⟩, trivial, trivial, trivial, ⟨?_, ?_, ?_, ?_, ?_, by decide, htime⟩, trivial⟩
    · exact hlast ▸ by decide
    · exact hpending ▸ rfl
    · exact hpending ▸ by decide
    · exact hcompression ▸ Compression.restores_lz4 _
    · exact hlast ▸ by decide
  obtain ⟨hreplays, hopens, -⟩ := afterAll_exact reliable_inMemory ⟨rfl, Table.sorted_nil⟩
    (show opening [] .lz4 Directory.inMemory = .ok start from rfl) hsegments hsound
  exact ⟨start, rfl, hreplays, hopens .lz4⟩

end Session

/-! ## Rolling back when the last commit cannot be read -/

variable {σ : Type} [Storage σ] {usable : σ → Prop} {analyzers : Analyzers}

namespace IndexWriter

/-! ### Calls in a row -/

/-- The writer after calls, one after the other. -/
def attemptAll (writer : IndexWriter) (analyzers : Analyzers) (revisions : List Revision) :
    IndexWriter :=
  revisions.foldl (fun writer revision => (writer.attempt analyzers revision).1) writer

/-- Whether calls succeed or not, their changes are made and are pending. -/
theorem exists_revised_attemptAll : ∀ (revisions : List Revision) (writer : IndexWriter),
    ∃ changes, writer.Revised analyzers changes (writer.attemptAll analyzers revisions)
  | [], writer => ⟨[], .refl writer⟩
  | revision :: rest, writer => by
      obtain ⟨changes, hrest⟩ :=
        exists_revised_attemptAll rest (writer.attempt analyzers revision).1
      exact ⟨_, (writer.revised_attempt revision).trans hrest⟩

/-! ### Going on from a point -/

/-- A writer with the changes pending that make its index of the one at a point. -/
structure Follows (analyzers : Analyzers) (point : CommitPoint × InvertedIndex)
    (writer : IndexWriter) : Prop where
  last : writer.last = point.1
  index : point.2.replay analyzers writer.pending = .ok writer.index

/-- A writer still follows after further calls. -/
theorem Follows.attemptAll {point : CommitPoint × InvertedIndex} {writer : IndexWriter}
    (h : writer.Follows analyzers point) (revisions : List Revision) :
    (writer.attemptAll analyzers revisions).Follows analyzers point := by
  obtain ⟨changes, hrevised⟩ := @exists_revised_attemptAll analyzers revisions writer
  refine ⟨hrevised.last.trans h.last, ?_⟩
  rw [hrevised.pending, InvertedIndex.replay_append h.index, hrevised.index]

/--
The next commit of a writer counts on from a point: it names only segments there and its own, and
the directory then opens with what the pending changes make of the index there.
-/
def CommitsOnto (analyzers : Analyzers) (point : CommitPoint × InvertedIndex) (d : σ)
    (writer : IndexWriter) : Prop :=
  ∀ segment userData now, Segment.fileName segment ∉ writer.last.segments →
    writer.Committable userData now → ∃ names index next,
      let last : CommitPoint := ⟨point.1.generation + 1, names, userData⟩
      point.2.replay analyzers writer.pending = .ok index ∧
      (∀ name ∈ names, name ∈ point.1.segments ∨ name = Segment.fileName segment) ∧
      (writer.commit segment userData now).runFrom d
        = (.ok { writer with pending := [], last }, next) ∧
      ∀ compression, openAt analyzers compression next = .ok ⟨index, [], last, compression⟩

/-- A writer that follows a point whose segments are there commits onto it. -/
theorem Follows.commitsOnto (hr : Reliable σ usable) {d : σ} (hd : usable d)
    {point : CommitPoint × InvertedIndex} {writer : IndexWriter}
    (h : writer.Follows analyzers point) (hsegments : Segments point.1.segments)
    (hpoint : replaySegments analyzers d .empty point.1.segments = .ok point.2) :
    writer.CommitsOnto analyzers point d := by
  intro segment userData now hnew hcommittable
  obtain ⟨committed, hcommitted, hreplay⟩ := changesOf_replaySegments hpoint
  have hall : InvertedIndex.empty.replay analyzers (committed ++ writer.pending)
      = .ok writer.index := (InvertedIndex.replay_append hreplay).trans h.index
  rw [← h.last] at hsegments hcommitted
  obtain ⟨names, next, hrun, -, -, hnames, hload⟩ :=
    commit_loads hr hd hsegments hcommitted hall hnew hcommittable
  rw [h.last] at hnames hrun hload
  refine ⟨names, writer.index, next, h.index, hnames, hrun, fun compression => ?_⟩
  rw [openAt, hload]
  rfl

/-! ### A rollback that fails -/

/-- If the last commit cannot be read, nothing is left of what the writer knew. -/
theorem rollback_of_load_eq_error {d : σ} {e : Error} (h : load analyzers d = .error e)
    (writer : IndexWriter) :
    writer.rollback analyzers d = (.error e, .empty writer.compression) := by
  simp only [rollback, openAt, h, Except.map]

/-- A new writer follows the point before the first commit. -/
theorem follows_empty (compression : Compression) :
    (empty compression).Follows analyzers (.initial, .empty) := ⟨rfl, rfl⟩

end IndexWriter

namespace Session

/-- Whatever a writer knows, rolling back takes it to the last commit of a session. -/
theorem Exact.follows_rollback {session : Session σ} (h : session.Exact usable analyzers)
    (writer : IndexWriter) : ∃ again,
      writer.rollback analyzers session.directory = (.ok (), again) ∧
        again.Follows analyzers session.settled := by
  refine ⟨⟨session.settled.2, [], session.settled.1, writer.compression⟩, ?_, rfl, rfl⟩
  simp only [IndexWriter.rollback, h.openAt]

/--
**A rollback that fails forgets what was committed.**  Whatever was called so far, if the last
commit cannot be read, rolling back returns the error and leaves an empty writer.  Whatever is
called then, a commit succeeds on any directory that can be written, as generation 1, and from
then on the directory opens with what was done since that rollback and with nothing else.  If
instead the rollback is repeated on the directory as it was, the writer is at the last commit again,
and commits go on from there.
-/
theorem rollback_failed (hr : Reliable σ usable) {compression : Compression} {d : σ} (hd : usable d)
    {start : Session σ} (hopen : opening analyzers compression d = .ok start)
    (hsegments : Segments start.writer.last.segments) {calls : List Call}
    (hsound : start.AllSound analyzers calls) {broken : σ} {e : Error}
    (hbroken : IndexWriter.load analyzers broken = .error e) :
    let session := start.afterAll analyzers calls
    let lost := IndexWriter.empty session.writer.compression
    session.writer.rollback analyzers broken = (.error e, lost) ∧
    ∀ revisions,
      let writer := lost.attemptAll analyzers revisions
      (∀ next, usable next → writer.CommitsOnto analyzers (.initial, .empty) next) ∧
      ∃ again, writer.rollback analyzers session.directory = (.ok (), again) ∧
        ∀ later, (again.attemptAll analyzers later).CommitsOnto analyzers session.settled
          session.directory := by
  intro session lost
  have hexact : session.Exact usable analyzers :=
    (Exact.opening hd hopen hsegments).afterAll hr hsound
  have hsettled : Segments session.settled.1.segments := hexact.last ▸ hexact.segments
  refine ⟨IndexWriter.rollback_of_load_eq_error hbroken _, fun revisions => ⟨?_, ?_⟩⟩
  · intro next hnext
    have hempty : lost.Follows analyzers (.initial, .empty) := IndexWriter.follows_empty _
    exact (hempty.attemptAll revisions).commitsOnto hr hnext (List.forall_mem_nil _) rfl
  · obtain ⟨again, hrollback, hfollows⟩ :=
      hexact.follows_rollback (lost.attemptAll analyzers revisions)
    refine ⟨again, hrollback, fun later => ?_⟩
    exact (hfollows.attemptAll later).commitsOnto hr hexact.usable hsettled
      (IndexWriter.replaySegments_of_load hexact.loads)

/-- A new directory in memory. -/
def inMemory : Session Directory := ⟨.empty .lz4, .inMemory, .initial, .empty⟩

/-- A document is committed. -/
def oneCommit : List Call := [.revise (.add [.term "$id" "A"]), .commit "a" [] ⟨0, 0, 0⟩]

/-- The session then. -/
def committedOnce : Session Directory := inMemory.afterAll [] oneCommit

/-- Its directory while the marker is cut short. -/
def cutMarker : Directory :=
  { committedOnce.directory with
    files := Table.insert committedOnce.directory.files GenerationMarker.fileName [0] }

theorem load_cutMarker : IndexWriter.load [] cutMarker = .error (.damaged .generationMarker) := by
  have hread : Storage.read cutMarker GenerationMarker.fileName = .ok [0] := by
    show Directory.read cutMarker _ = _
    simp [Directory.read, cutMarker]
  have hfile : Storage.hasFile cutMarker GenerationMarker.fileName = true := by
    show Directory.hasFile cutMarker _ = true
    simp [Directory.hasFile, Table.contains, cutMarker]
  rw [IndexWriter.load, if_pos hfile, hread]
  rfl

/-- The documents that a directory opens with. -/
def documentsIn (d : Directory) : Option DocSet :=
  (IndexWriter.load [] d).toOption.map fun loaded => loaded.2.live

/-- The marker is put back before the next commit, but that one is the first again, and the document
is gone. -/
theorem rollback_failed_drops :
    let (result, lost) := committedOnce.writer.rollback [] cutMarker
    let (written, next) := (lost.commit "b" [] ⟨0, 0, 0⟩).runFrom committedOnce.directory
    result = .error (.damaged .generationMarker) ∧
      documentsIn committedOnce.directory = some [0] ∧
      written.toOption.map (fun writer => writer.last.generation) = some 1 ∧
      documentsIn next = some [] := by
  rw [IndexWriter.rollback_of_load_eq_error load_cutMarker]
  refine ⟨rfl, ?_, ?_, ?_⟩
  · decide +kernel
  · decide +kernel
  · decide +kernel

/-- Rolling back once more, on the directory as it was, returns to the commit. -/
theorem rollback_failed_repeated :
    let lost := IndexWriter.empty committedOnce.writer.compression
    committedOnce.writer.rollback [] cutMarker = (.error (.damaged .generationMarker), lost) ∧
      lost.CommitsOnto [] (.initial, .empty) Directory.inMemory ∧
      ∃ again, lost.rollback [] committedOnce.directory = (.ok (), again) ∧
        again.CommitsOnto [] committedOnce.settled committedOnce.directory := by
  have hsegments : Segments inMemory.writer.last.segments := List.forall_mem_nil _
  have hpending : InWords [.add [.term "$id" "A"]] ∧
      (Record.writeList Record.writeChange [.add [.term "$id" "A"]]).length < 256 ^ 4 := by
    decide +kernel
  have htime : Moment.Regular ⟨0, 0, 0⟩ := ⟨by decide, Or.inl (by decide)⟩
  have hsound : inMemory.AllSound [] oneCommit :=
    ⟨trivial, ⟨List.not_mem_nil, hpending.1, hpending.2, Compression.restores_lz4 _, by decide,
      by decide, htime⟩, trivial⟩
  have hempty : Directory.inMemory.medium = .memory ∧ Table.Sorted Directory.inMemory.files :=
    ⟨rfl, Table.sorted_nil⟩
  obtain ⟨hfailed, hafter⟩ := rollback_failed reliable_inMemory hempty
    (show opening [] .lz4 Directory.inMemory = .ok inMemory from rfl) hsegments hsound
    load_cutMarker
  obtain ⟨hlost, again, hagain, hkept⟩ := hafter []
  exact ⟨hfailed, hlost _ hempty, again, hagain, hkept []⟩

end Session

end DocIndex.Storage
