/-
Runs of a writer whose directory may fail at any operation.

A trial keeps a record of its own of what was called: the changes that were made, the last commit
that succeeded, and the ones tried since that did not.  At every point the directory opens as one
of these commits, with all the changes up to it.  The pending changes are always those since the
last commit that succeeded, whatever became of the tries in between, so that each of them begins
with what that commit has.
-/
import DocIndex.Proofs.Storage.Crashes

namespace DocIndex.Storage

/-! ### Calls -/

/-- A writer over a directory that may fail, and what was called so far. -/
structure Trial (σ : Type) where
  writer : IndexWriter
  directory : Unreliable σ
  /-- The changes that calls have made. -/
  history : List Change
  /-- The last commit that succeeded; before the first one, what was opened. -/
  settled : Snapshot
  /-- The commits that failed since. -/
  tried : List Snapshot
  /-- The names that segments were given. -/
  used : List String

namespace Trial

/-- A call on a writer, which may fail. -/
inductive Call where
  | revise (revision : Revision)
  | commit (segment : String) (userData : Table String String) (now : Moment)

variable {σ : Type} [Storage σ]

/-- The trial that begins when a directory is opened in which nothing was committed yet. -/
def opening (analyzers : Analyzers) (compression : Compression) (d : σ) (fates : List Bool) :
    Except Error (Trial σ) :=
  (IndexWriter.openAt analyzers compression d).map fun writer =>
    ⟨writer, ⟨d, fates⟩, [], ⟨[], writer.last.generation, writer.last.userData⟩, [], []⟩

/-- The trial after a call. -/
def after (analyzers : Analyzers) (trial : Trial σ) : Call → Trial σ
  | .revise revision =>
    let made := trial.writer.attempt analyzers revision
    { trial with writer := made.1, history := trial.history ++ made.2 }
  | .commit segment userData now =>
    let snapshot : Snapshot := ⟨trial.history, trial.settled.generation + 1, userData⟩
    let used := segment :: trial.used
    match (trial.writer.commit segment userData now).runFrom trial.directory with
    | (.ok writer, directory) =>
      { trial with writer, directory, used, settled := snapshot, tried := [] }
    | (.error _, directory) => { trial with directory, used, tried := trial.tried ++ [snapshot] }

/-- The trial after calls, one after the other. -/
def afterAll (analyzers : Analyzers) (trial : Trial σ) (calls : List Call) : Trial σ :=
  calls.foldl (after analyzers) trial

/-- A call whose commit, if it is one, has a segment of a new name and can be read back. -/
def Sound (trial : Trial σ) : Call → Prop
  | .commit segment userData now => segment ∉ trial.used ∧ trial.writer.Committable userData now
  | .revise _ => True

/-- Calls each of which is sound when it is made. -/
def AllSound (analyzers : Analyzers) : Trial σ → List Call → Prop
  | _, [] => True
  | trial, call :: rest => trial.Sound call ∧ AllSound analyzers (trial.after analyzers call) rest

/-! ### What every call keeps -/

/--
A trial whose directory shows one of its commits, and whose writer knows the last one that
succeeded and has every change since.
-/
structure Safe (usable : σ → Prop) (analyzers : Analyzers) (trial : Trial σ) : Prop where
  generation : trial.writer.last.generation = trial.settled.generation
  history : trial.history = trial.settled.changes ++ trial.writer.pending
  index : InvertedIndex.empty.replay analyzers trial.history = .ok trial.writer.index
  named : Named trial.used trial.writer.last.segments
  tried : ∀ snapshot ∈ trial.tried,
    trial.settled.changes <+: snapshot.changes ∧ snapshot.changes <+: trial.history
  intact : Intact usable trial.used trial.writer.last.segments trial.settled.changes
    (trial.settled :: trial.tried) trial.directory.inner

namespace Safe

variable {usable : σ → Prop} {analyzers : Analyzers} {trial : Trial σ}

/-- Nothing was called yet. -/
theorem opening {compression : Compression} {d : σ} {fates : List Bool} (hd : usable d)
    (hempty : Storage.hasFile d GenerationMarker.fileName = false)
    (hopen : Trial.opening analyzers compression d fates = .ok trial) :
    trial.Safe usable analyzers := by
  have hload : IndexWriter.openAt analyzers compression d = .ok (.empty compression) := by
    rw [IndexWriter.openAt, IndexWriter.load, hempty]
    rfl
  rw [Trial.opening, hload] at hopen
  obtain rfl := Except.ok.inj hopen
  have hnone : ∀ {α : Type} {p : α → Prop}, ∀ item ∈ ([] : List α), p item :=
    List.forall_mem_nil _
  exact ⟨rfl, rfl, rfl, hnone, hnone, hd, rfl, _, List.mem_cons_self, .initial hempty⟩

/-- Every commit begins with the last one that succeeded, and has no change that was not made. -/
theorem prefixes (h : trial.Safe usable analyzers) {snapshot : Snapshot}
    (hsnapshot : snapshot ∈ trial.settled :: trial.tried) :
    trial.settled.changes <+: snapshot.changes ∧ snapshot.changes <+: trial.history := by
  rcases List.mem_cons.mp hsnapshot with rfl | htried
  · exact ⟨List.prefix_rfl, h.history ▸ List.prefix_append _ _⟩
  · exact h.tried snapshot htried

/-- The directory opens as one of the commits. -/
theorem opens (hr : Reliable σ usable) (h : trial.Safe usable analyzers) :
    ∃ snapshot ∈ trial.settled :: trial.tried, ∃ index segments,
      InvertedIndex.empty.replay analyzers snapshot.changes = .ok index ∧
        IndexWriter.load analyzers trial.directory.inner
          = .ok (⟨snapshot.generation, segments, snapshot.userData⟩, index) := by
  obtain ⟨snapshot, hsnapshot, hshows⟩ := h.intact.shows
  obtain ⟨later, hlater⟩ := (h.prefixes hsnapshot).2
  obtain ⟨index, hreplay, -⟩ := InvertedIndex.replay_of_append (hlater ▸ h.index)
  obtain ⟨segments, hload⟩ := hshows.load hr h.intact.usable hreplay
  exact ⟨snapshot, hsnapshot, index, segments, hreplay, hload⟩

/-- A call that changes the index leaves the directory alone. -/
theorem revise (h : trial.Safe usable analyzers) (revision : Revision) :
    (trial.after analyzers (.revise revision)).Safe usable analyzers := by
  have hrevised := @IndexWriter.revised_attempt analyzers trial.writer revision
  obtain ⟨hlast, -, hpending, hindex⟩ := hrevised
  refine ⟨?_, ?_, ?_, ?_, fun snapshot hsnapshot => ?_, ?_⟩
  · exact (congrArg CommitPoint.generation hlast).trans h.generation
  · show trial.history ++ _ = trial.settled.changes ++ (trial.writer.attempt _ _).1.pending
    rw [hpending, h.history, List.append_assoc]
  · exact (InvertedIndex.replay_append h.index).trans hindex
  · exact hlast ▸ h.named
  · obtain ⟨hsettled, hhistory⟩ := h.tried snapshot hsnapshot
    exact ⟨hsettled, hhistory.trans (List.prefix_append _ _)⟩
  · exact hlast ▸ h.intact

/-- A commit that succeeds becomes the last one; one that fails is one of those that were tried. -/
theorem commit (hr : Reliable σ usable) (h : trial.Safe usable analyzers) {segment : String}
    {userData : Table String String} {now : Moment}
    (hsound : trial.Sound (.commit segment userData now)) :
    (trial.after analyzers (.commit segment userData now)).Safe usable analyzers := by
  obtain ⟨hnew, hcommittable⟩ := hsound
  let snapshot : Snapshot := ⟨trial.history, trial.settled.generation + 1, userData⟩
  have hsnapshot : snapshot = ⟨trial.settled.changes ++ trial.writer.pending,
      trial.writer.last.generation + 1, userData⟩ := by
    rw [← h.history, h.generation]
  have hmem : snapshot ∈ trial.settled :: (trial.tried ++ [snapshot]) :=
    List.mem_cons_of_mem _ (List.mem_append_right _ List.mem_cons_self)
  have hintact : Intact usable trial.used trial.writer.last.segments trial.settled.changes
      (trial.settled :: (trial.tried ++ [snapshot])) trial.directory.inner :=
    h.intact.mono (fun _ => id) fun other hother =>
      List.cons_subset_cons _ (List.subset_append_left _ _) hother
  have hcommit := ensures_commit hr hintact h.named hnew hcommittable (hsnapshot ▸ hmem)
    trial.directory.fates
  match hrun : (trial.writer.commit segment userData now).runFrom trial.directory with
  | (.ok writer, directory) =>
      have hafter : trial.after analyzers (.commit segment userData now) = { trial with
          writer, directory, used := segment :: trial.used, settled := snapshot, tried := [] } := by
        simp only [Trial.after, hrun]
        rfl
      rw [hafter]
      simp only [hrun] at hcommit
      obtain ⟨names, rfl, hnames, hcomplete⟩ := hcommit
      have hwhole := hcomplete.whole
      rw [← h.history] at hwhole
      have hshows : Shows (segment :: trial.used) directory.inner snapshot :=
        hsnapshot ▸ .commit hcomplete.published hnames hcomplete.whole
      exact ⟨congrArg (· + 1) h.generation, (List.append_nil _).symm, h.index, hnames,
        List.forall_mem_nil _, hcomplete.usable, hwhole, snapshot, List.mem_cons_self,
        hshows⟩
  | (.error e, directory) =>
      have hafter : trial.after analyzers (.commit segment userData now) = { trial with
          directory, used := segment :: trial.used, tried := trial.tried ++ [snapshot] } := by
        simp only [Trial.after, hrun]
        rfl
      rw [hafter]
      simp only [hrun] at hcommit
      have hnamed := h.named.mono fun _ => List.mem_cons_of_mem segment
      have hsettled : trial.settled.changes <+: trial.history :=
        h.history ▸ List.prefix_append _ _
      refine ⟨h.generation, h.history, h.index, hnamed, fun other hother => ?_, hcommit⟩
      rcases List.mem_append.mp hother with htried | hlast
      · exact h.tried other htried
      · obtain rfl := List.mem_singleton.mp hlast
        exact ⟨hsettled, List.prefix_rfl⟩

/-- Every call keeps a trial safe. -/
theorem after (hr : Reliable σ usable) (h : trial.Safe usable analyzers) {call : Call}
    (hsound : trial.Sound call) : (trial.after analyzers call).Safe usable analyzers := by
  cases call with
  | revise revision => exact h.revise revision
  | commit segment userData now => exact h.commit hr hsound

/-- What was committed once stays committed. -/
theorem settled_after (h : trial.Safe usable analyzers) (call : Call) :
    trial.settled.changes <+: (trial.after analyzers call).settled.changes := by
  cases call with
  | revise revision => exact List.prefix_rfl
  | commit segment userData now =>
      unfold Trial.after
      dsimp only
      split
      · exact h.history ▸ List.prefix_append _ _
      · exact List.prefix_rfl

/-- Every run keeps a trial safe, and what was committed in it. -/
theorem afterAll (hr : Reliable σ usable) : ∀ {calls : List Call} {trial : Trial σ},
    trial.Safe usable analyzers → trial.AllSound analyzers calls →
      (trial.afterAll analyzers calls).Safe usable analyzers ∧
        trial.settled.changes <+: (trial.afterAll analyzers calls).settled.changes
  | [], _, h, _ => ⟨h, List.prefix_rfl⟩
  | call :: _, _, h, ⟨hsound, hrest⟩ => by
      obtain ⟨hsafe, hprefix⟩ := (h.after hr hsound).afterAll hr hrest
      exact ⟨hsafe, (h.settled_after call).trans hprefix⟩

end Safe

/-! ### Runs -/

theorem allSound_append {analyzers : Analyzers} {first second : List Call} :
    ∀ {trial : Trial σ}, trial.AllSound analyzers (first ++ second) →
      trial.AllSound analyzers first ∧
        (trial.afterAll analyzers first).AllSound analyzers second := by
  induction first with
  | nil => exact fun h => ⟨trivial, h⟩
  | cons call rest ih =>
      intro trial ⟨hcall, hrest⟩
      obtain ⟨hfirst, hsecond⟩ := ih hrest
      exact ⟨⟨hcall, hfirst⟩, hsecond⟩

/--
**A directory always opens as the last commit that succeeded or as a whole later one**, whichever
operations failed and wherever the process stopped.  The index in memory is what all changes so
far make; what the directory opens as has the generation and the user data of a commit and is
what the changes up to it make, and these begin with all that had been committed at any earlier
point of the run.
-/
theorem afterAll_opens {usable : σ → Prop} (hr : Reliable σ usable) {analyzers : Analyzers}
    {compression : Compression} {d : σ} (hd : usable d)
    (hempty : Storage.hasFile d GenerationMarker.fileName = false) {fates : List Bool}
    {start : Trial σ} (hopen : opening analyzers compression d fates = .ok start)
    {calls : List Call} (hsound : start.AllSound analyzers calls) :
    let trial := start.afterAll analyzers calls
    InvertedIndex.empty.replay analyzers trial.history = .ok trial.writer.index ∧
      ∃ snapshot ∈ trial.settled :: trial.tried, ∃ index segments,
        InvertedIndex.empty.replay analyzers snapshot.changes = .ok index ∧
        (∀ compression, IndexWriter.openAt analyzers compression trial.directory.inner
          = .ok ⟨index, [], ⟨snapshot.generation, segments, snapshot.userData⟩, compression⟩) ∧
        ∀ before after, calls = before ++ after →
          (start.afterAll analyzers before).settled.changes <+: snapshot.changes := by
  intro trial
  have hstart : start.Safe usable analyzers := Safe.opening hd hempty hopen
  obtain ⟨hsafe, -⟩ := hstart.afterAll hr hsound
  obtain ⟨snapshot, hsnapshot, index, segments, hreplay, hload⟩ := hsafe.opens hr
  refine ⟨hsafe.index, snapshot, hsnapshot, index, segments, hreplay, fun compression => ?_, ?_⟩
  · rw [IndexWriter.openAt, hload]
    rfl
  · rintro before after rfl
    obtain ⟨hfirst, hsecond⟩ := allSound_append hsound
    obtain ⟨hmiddle, -⟩ := hstart.afterAll hr hfirst
    obtain ⟨-, hprefix⟩ := hmiddle.afterAll hr hsecond
    have htrial : trial = (start.afterAll analyzers before).afterAll analyzers after :=
      List.foldl_append
    rw [← htrial] at hprefix
    exact hprefix.trans (hsafe.prefixes hsnapshot).1

/-- A commit fails after its marker is written, and the process stops while it is tried again. -/
def interrupted : List Call :=
  [.revise (.add [.term "$id" "1"]), .commit "a" [] ⟨0, 0, 0⟩,
    .revise (.add [.term "$id" "2"]), .commit "b" [("k", "v")] ⟨0, 0, 0⟩]

theorem afterAll_opens_interrupted :
    ∃ start, opening [] .lz4 Directory.inMemory [true, true, true, true, false, true, true]
        = .ok start ∧
      let trial := start.afterAll [] interrupted
      ∃ snapshot ∈ trial.settled :: trial.tried, ∃ index segments,
        InvertedIndex.empty.replay [] snapshot.changes = .ok index ∧
          IndexWriter.openAt [] .lz4 trial.directory.inner
            = .ok ⟨index, [], ⟨snapshot.generation, segments, snapshot.userData⟩, .lz4⟩ := by
  let start : Trial Directory := ⟨.empty .lz4,
    ⟨.inMemory, [true, true, true, true, false, true, true]⟩, [], ⟨[], 0, []⟩, [], []⟩
  have htime : Moment.Regular ⟨0, 0, 0⟩ := ⟨by decide, Or.inl (by decide)⟩
  have hfirst : InWords [.add [.term "$id" "1"]] ∧
      (Record.writeList Record.writeChange [.add [.term "$id" "1"]]).length < 256 ^ 4 := by
    decide +kernel
  -- The second commit has the changes of the first one again.
  have hsecond : let writer := (start.afterAll [] (interrupted.take 3)).writer
      writer.last = .initial ∧ writer.compression = .lz4 ∧ InWords writer.pending ∧
        (Record.writeList Record.writeChange writer.pending).length < 256 ^ 4 := by
    decide +kernel
  obtain ⟨hlast, hcompression, hwords, hsize⟩ := hsecond
  have hsound : start.AllSound [] interrupted := by
    refine ⟨trivial, ⟨List.not_mem_nil, hfirst.1, hfirst.2, Compression.restores_lz4 _, by decide,
      by decide, htime⟩, trivial, ⟨?_, hwords, hsize, ?_, ?_, by decide, htime⟩, trivial⟩
    · decide +kernel
    · exact hcompression ▸ Compression.restores_lz4 _
    · exact hlast ▸ by decide
  obtain ⟨-, snapshot, hsnapshot, index, segments, hreplay, hopens, -⟩ :=
    afterAll_opens reliable_inMemory ⟨rfl, Table.sorted_nil⟩ rfl
      (show opening [] .lz4 Directory.inMemory [true, true, true, true, false, true, true]
        = .ok start from rfl) hsound
  exact ⟨start, rfl, snapshot, hsnapshot, index, segments, hreplay, hopens .lz4⟩

end Trial

end DocIndex.Storage
