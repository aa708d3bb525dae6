/-
Commits that are cut short.

A directory shows a snapshot if its marker names a commit with the changes of the snapshot in its
segments, or if it has no marker and the snapshot is the one before all commits.  A commit first
writes files that no such commit needs, so that the directory shows what it showed before, unless
the marker already names the generation of this commit, because an earlier try got that far.  The
new segments file then takes the place of that of the earlier try in one step.  From when the
marker is written the directory shows what is committed.

A try that failed leaves the writer as it was, with all of its changes pending, so the next one
writes them again.  Hence whatever the directory shows begins with everything that was committed.
-/
import DocIndex.Proofs.Storage.Replaying
import DocIndex.Proofs.Storage.Unreliable

namespace DocIndex.Storage

variable {σ : Type} [Storage σ]

/-! ### What other files leave alone -/

/-- Segments whose names were made from the given ones. -/
def Named (used : List String) (names : List String) : Prop :=
  ∀ name ∈ names, ∃ base ∈ used, name = Segment.fileName base

namespace Named

variable {used names : List String}

theorem mono {more : List String} (h : Named used names) (hmore : ∀ base ∈ used, base ∈ more) :
    Named more names := by
  intro name hname
  obtain ⟨base, hbase, rfl⟩ := h name hname
  exact ⟨base, hmore base hbase, rfl⟩

theorem segments (h : Named used names) : Segments names := by
  intro name hname
  obtain ⟨base, -, rfl⟩ := h name hname
  exact ⟨base, rfl⟩

/-- Segments with new names are none of them. -/
theorem notMem (h : Named used names) {files : List String}
    (hnew : ∀ file ∈ files, ∃ base ∉ used, file = Segment.fileName base) :
    ∀ name ∈ names, name ∉ files := by
  intro name hname hfile
  obtain ⟨base, hbase, rfl⟩ := h name hname
  obtain ⟨other, hother, heq⟩ := hnew _ hfile
  exact hother (segment_injective heq ▸ hbase)

end Named

namespace Spares

variable {files : List String} {d next : σ}

/-- The changes in segments stay the same. -/
theorem changesOf (h : Spares files d next) {names : List String} (hsegments : Segments names)
    (hnot : ∀ name ∈ names, name ∉ files) :
    Storage.changesOf next names = Storage.changesOf d names := by
  refine changesOf_congr fun name hname => ?_
  obtain ⟨base, rfl⟩ := hsegments name hname
  exact h _ (.segment base) (hnot _ hname)

/-- They stay the same if no segment at all has changed. -/
theorem changesOf_of_others (h : Spares files d next)
    (hothers : ∀ base, Segment.fileName base ∉ files) {names : List String}
    (hsegments : Segments names) : Storage.changesOf next names = Storage.changesOf d names := by
  refine h.changesOf hsegments fun name hname => ?_
  obtain ⟨base, rfl⟩ := hsegments name hname
  exact hothers base

theorem published (h : Spares files d next) {commit : Commit} (hpublished : Published d commit)
    (hmarker : GenerationMarker.fileName ∉ files) (hfile : commit.fileName ∉ files) :
    Published next commit :=
  ⟨(h _ .marker hmarker).trans hpublished.marker,
    (h _ (.commit commit.generation) hfile).trans hpublished.file,
    hpublished.generation, hpublished.userData, hpublished.time⟩

theorem hasFile {usable : σ → Prop} (hr : Reliable σ usable) (hd : usable d) (hnext : usable next)
    (h : Spares files d next) {file : String} (hfile : IndexFile file) (hnot : file ∉ files) :
    Storage.hasFile next file = Storage.hasFile d file := by
  rw [Bool.eq_iff_iff, hr.hasFile hnext hfile, hr.hasFile hd hfile, h file hfile hnot]

end Spares

/-! ### What a directory shows -/

/-- The changes up to a commit, and what came with it. -/
structure Snapshot where
  changes : List Change
  generation : Nat
  userData : Table String String

/-- A directory that shows a snapshot, in segments whose names were made from the given ones. -/
inductive Shows (used : List String) (d : σ) : Snapshot → Prop
  | initial (hnone : Storage.hasFile d GenerationMarker.fileName = false) : Shows used d ⟨[], 0, []⟩
  | commit {commit : Commit} {changes : List Change} (hpublished : Published d commit)
      (hnamed : Named used commit.segments)
      (hstored : Storage.changesOf d commit.segments = .ok changes) :
      Shows used d ⟨changes, commit.generation, commit.userData⟩

namespace Shows

variable {usable : σ → Prop} {used : List String} {d next : σ} {snapshot : Snapshot}

theorem mono {more : List String} (h : Shows used d snapshot)
    (hmore : ∀ base ∈ used, base ∈ more) : Shows more d snapshot := by
  cases h with
  | initial hnone => exact .initial hnone
  | commit hpublished hnamed hstored => exact .commit hpublished (hnamed.mono hmore) hstored

/-- A directory opens as what it shows. -/
theorem load (hr : Reliable σ usable) (hd : usable d) (h : Shows used d snapshot)
    {analyzers : Analyzers} {index : InvertedIndex}
    (hreplay : InvertedIndex.empty.replay analyzers snapshot.changes = .ok index) :
    ∃ segments, IndexWriter.load analyzers d
      = .ok (⟨snapshot.generation, segments, snapshot.userData⟩, index) := by
  cases h with
  | initial hnone =>
      obtain rfl := Except.ok.inj hreplay
      exact ⟨[], by rw [IndexWriter.load, hnone]; rfl⟩
  | commit hpublished hnamed hstored =>
      exact ⟨_, hpublished.load hr hd (IndexWriter.replaySegments_eq hstored hreplay)⟩

/-- Segments with new names play no part in it. -/
theorem keep (hr : Reliable σ usable) (hd : usable d) (hnext : usable next)
    (h : Shows used d snapshot) {files : List String} (hspares : Spares files d next)
    (hnew : ∀ file ∈ files, ∃ base ∉ used, file = Segment.fileName base) :
    Shows used next snapshot := by
  have hmarker : GenerationMarker.fileName ∉ files := by
    intro hmem
    obtain ⟨base, -, heq⟩ := hnew _ hmem
    exact marker_ne_segment base heq
  cases h with
  | initial hnone =>
      exact .initial ((hspares.hasFile hr hd hnext .marker hmarker).trans hnone)
  | @commit commit changes hpublished hnamed hstored =>
      have hfile : commit.fileName ∉ files := by
        intro hmem
        obtain ⟨base, -, heq⟩ := hnew _ hmem
        exact commit_ne_segment commit.generation base heq
      have hkept := hspares.changesOf hnamed.segments (hnamed.notMem hnew)
      exact .commit (hspares.published hpublished hmarker hfile) hnamed (hkept.trans hstored)

/-- Neither does a segments file, unless the marker names its generation. -/
theorem writeCommit (hr : Reliable σ usable) (hd : usable d) (hnext : usable next)
    (h : Shows used d snapshot) {generation : Nat}
    (hspares : Spares [Commit.fileNameOf generation] d next) :
    Shows used next snapshot ∨
      Storage.read next GenerationMarker.fileName = .ok (GenerationMarker.encode generation) := by
  have hmarker : GenerationMarker.fileName ∉ [Commit.fileNameOf generation] :=
    List.mem_singleton.not.mpr (marker_ne_commit generation)
  cases h with
  | initial hnone =>
      exact .inl (.initial ((hspares.hasFile hr hd hnext .marker hmarker).trans hnone))
  | @commit commit changes hpublished hnamed hstored =>
      by_cases hsame : commit.generation = generation
      · refine .inr ?_
        rw [hspares _ .marker hmarker, hpublished.marker, hsame]
      · have hfile : commit.fileName ∉ [Commit.fileNameOf generation] :=
          List.mem_singleton.not.mpr (commit_ne_commit hsame)
        have hkept := hspares.changesOf_of_others (fun base hmem =>
          commit_ne_segment generation base (List.mem_singleton.mp hmem).symm) hnamed.segments
        exact .inl (.commit (hspares.published hpublished hmarker hfile) hnamed
          (hkept.trans hstored))

end Shows



/-! ### A commit that may be cut short -/

/-- A commit that can be read back once its segments are written. -/
structure Commit.Sound (commit : Commit) (used : List String) : Prop where
  generation : commit.generation ≤ uint64Max
  userData : Table.Sorted commit.userData
  time : commit.createdAt.Regular
  named : Named used commit.segments

/--
A directory that keeps what was committed, and shows one of the given snapshots.  The segments of
the last commit that succeeded hold their changes whatever the directory shows.
-/
structure Intact (usable : σ → Prop) (used segments : List String) (changes : List Change)
    (snapshots : List Snapshot) (d : σ) : Prop where
  usable : usable d
  stored : changesOf d segments = .ok changes
  shows : ∃ snapshot ∈ snapshots, Shows used d snapshot

/-- A directory that has everything of a commit but its marker. -/
structure Ready (usable : σ → Prop) (used segments : List String) (changes : List Change)
    (snapshots : List Snapshot) (commit : Commit) (all : List Change) (d : σ) : Prop where
  intact : Intact usable used segments changes snapshots d
  file : Storage.read d commit.fileName = .ok commit.toBytes
  whole : changesOf d commit.segments = .ok all

/-- A directory that has everything of a commit. -/
structure Complete (usable : σ → Prop) (segments : List String) (changes : List Change)
    (commit : Commit) (all : List Change) (d : σ) : Prop where
  usable : usable d
  stored : changesOf d segments = .ok changes
  published : Published d commit
  whole : changesOf d commit.segments = .ok all

section Committing

variable {usable : σ → Prop} {used segments : List String} {changes all : List Change}
  {snapshots : List Snapshot} {d next : σ} {commit : Commit}

theorem Intact.mono {more : List String} {others : List Snapshot}
    (h : Intact usable used segments changes snapshots d) (hmore : ∀ base ∈ used, base ∈ more)
    (hothers : ∀ snapshot ∈ snapshots, snapshot ∈ others) :
    Intact usable more segments changes others d := by
  obtain ⟨snapshot, hsnapshot, hshows⟩ := h.shows
  exact ⟨h.usable, h.stored, snapshot, hothers snapshot hsnapshot, hshows.mono hmore⟩

/-- New segments leave everything intact. -/
theorem Intact.keep (hr : Reliable σ usable) (hnext : usable next)
    (h : Intact usable used segments changes snapshots d) (hnamed : Named used segments)
    {files : List String} (hspares : Spares files d next)
    (hnew : ∀ file ∈ files, ∃ base ∉ used, file = Segment.fileName base) :
    Intact usable used segments changes snapshots next := by
  obtain ⟨snapshot, hsnapshot, hshows⟩ := h.shows
  exact ⟨hnext, (hspares.changesOf hnamed.segments (hnamed.notMem hnew)).trans h.stored,
    snapshot, hsnapshot, hshows.keep hr h.usable hnext hspares hnew⟩

/-- So does a segments file, which may make the directory show its commit. -/
theorem Intact.writeCommit (hr : Reliable σ usable) (hnext : usable next)
    (h : Intact usable used segments changes snapshots d) (hsegments : Segments segments)
    (hsound : commit.Sound used) (hwhole : changesOf d commit.segments = .ok all)
    (hmem : ⟨all, commit.generation, commit.userData⟩ ∈ snapshots)
    (hspares : Spares [commit.fileName] d next)
    (hread : Storage.read next commit.fileName = .ok commit.toBytes) :
    Ready usable used segments changes snapshots commit all next := by
  have hkept : ∀ {names}, Segments names → changesOf next names = changesOf d names :=
    hspares.changesOf_of_others fun base hmem =>
      commit_ne_segment commit.generation base (List.mem_singleton.mp hmem).symm
  have hwhole' := (hkept hsound.named.segments).trans hwhole
  obtain ⟨snapshot, hsnapshot, hshows⟩ := h.shows
  refine ⟨⟨hnext, (hkept hsegments).trans h.stored, ?_⟩, hread, hwhole'⟩
  rcases hshows.writeCommit hr h.usable hnext hspares with hshows | hmarker
  · exact ⟨snapshot, hsnapshot, hshows⟩
  · -- An earlier try has written the marker, and this commit takes its place.
    exact ⟨_, hmem, .commit ⟨hmarker, hread, hsound.generation, hsound.userData, hsound.time⟩
      hsound.named hwhole'⟩

/-- With its marker a commit is complete. -/
theorem Ready.writeMarker (hnext : usable next)
    (h : Ready usable used segments changes snapshots commit all d) (hsegments : Segments segments)
    (hsound : commit.Sound used) (hspares : Spares [GenerationMarker.fileName] d next)
    (hread : Storage.read next GenerationMarker.fileName
      = .ok (GenerationMarker.encode commit.generation)) :
    Complete usable segments changes commit all next := by
  have hkept : ∀ {names}, Segments names → changesOf next names = changesOf d names :=
    hspares.changesOf_of_others fun base hmem =>
      marker_ne_segment base (List.mem_singleton.mp hmem).symm
  have hfile : Storage.read next commit.fileName = .ok commit.toBytes :=
    (hspares _ (.commit commit.generation)
      (List.mem_singleton.not.mpr (marker_ne_commit commit.generation).symm)).trans h.file
  exact ⟨hnext, (hkept hsegments).trans h.intact.stored,
    ⟨hread, hfile, hsound.generation, hsound.userData, hsound.time⟩,
    (hkept hsound.named.segments).trans h.whole⟩

/-- Files of other commits play no part in one that is complete. -/
theorem Complete.keep (hnext : usable next)
    (h : Complete usable segments changes commit all d) (hsegments : Segments segments)
    (hnames : Segments commit.segments) {files : List String} (hspares : Spares files d next)
    (hothers : ∀ file ∈ files, ∃ generation ≠ commit.generation,
      file = Commit.fileNameOf generation) :
    Complete usable segments changes commit all next := by
  have hkept : ∀ {names}, Segments names → changesOf next names = changesOf d names := by
    refine hspares.changesOf_of_others fun base hmem => ?_
    obtain ⟨generation, -, heq⟩ := hothers _ hmem
    exact commit_ne_segment generation base heq.symm
  have hmarker : GenerationMarker.fileName ∉ files := by
    intro hmem
    obtain ⟨generation, -, heq⟩ := hothers _ hmem
    exact marker_ne_commit generation heq
  have hfile : commit.fileName ∉ files := by
    intro hmem
    obtain ⟨generation, hne, heq⟩ := hothers _ hmem
    exact commit_ne_commit hne heq.symm
  exact ⟨hnext, (hkept hsegments).trans h.stored, hspares.published h.published hmarker hfile,
    (hkept hnames).trans h.whole⟩

theorem Complete.intact (h : Complete usable segments changes commit all d)
    (hnamed : Named used commit.segments)
    (hmem : ⟨all, commit.generation, commit.userData⟩ ∈ snapshots) :
    Intact usable used segments changes snapshots d :=
  ⟨h.usable, h.stored, _, hmem, .commit h.published hnamed h.whole⟩

/-- The pending changes go into a segment of their own. -/
theorem ensures_writePending (hr : Reliable σ usable) {writer : IndexWriter} {segment : String}
    {userData : Table String String} {now : Moment}
    (h : Intact usable used writer.last.segments changes snapshots d)
    (hnamed : Named used writer.last.segments) (hnew : segment ∉ used)
    (hcommittable : writer.Committable userData now) :
    Ensures (writer.writePending segment) d
      (fun names next =>
        Intact usable (segment :: used) writer.last.segments changes snapshots next ∧
          Named (segment :: used) names ∧ changesOf next names = .ok (changes ++ writer.pending))
      (Intact usable (segment :: used) writer.last.segments changes snapshots) := by
  have hmore : ∀ base ∈ used, base ∈ segment :: used := fun _ => List.mem_cons_of_mem segment
  by_cases hpending : writer.pending = []
  · have hnone : writer.hasPending = false := by simp [IndexWriter.hasPending, hpending]
    rw [IndexWriter.writePending, if_neg (by rw [hnone]; exact Bool.false_ne_true)]
    refine .pure ⟨h.mono hmore fun _ => id, hnamed.mono hmore, ?_⟩
    rw [hpending, List.append_nil, h.stored]
  · have hsome : writer.hasPending = true := by simpa [IndexWriter.hasPending] using hpending
    rw [IndexWriter.writePending, if_pos hsome]
    have hwrite : Ensures (Storage.write (Segment.fileName segment)
        (Segment.encode writer.pending writer.compression)) d
        (fun _ next => Intact usable (segment :: used) writer.last.segments changes snapshots next ∧
          Storage.read next (Segment.fileName segment)
            = .ok (Segment.encode writer.pending writer.compression))
        (Intact usable (segment :: used) writer.last.segments changes snapshots) := by
      refine .write hr h.usable (.segment segment) (h.mono hmore fun _ => id)
        fun next hnext hspares hread => ⟨?_, hread⟩
      refine (h.keep hr hnext hnamed hspares fun file hfile => ?_).mono hmore fun _ => id
      exact ⟨segment, hnew, List.mem_singleton.mp hfile⟩
    refine hwrite.bind ?_
    rintro _ next ⟨hintact, hread⟩
    refine .pure ⟨hintact, ?_, ?_⟩
    · intro name hname
      rcases List.mem_append.mp hname with hold | hlast
      · exact hnamed.mono hmore name hold
      · exact ⟨segment, List.mem_cons_self, List.mem_singleton.mp hlast⟩
    · exact Extends.changesOf (.inr ⟨rfl, hread⟩) hcommittable hintact.stored

/-- **A commit is published as a whole or not at all.** -/
theorem ensures_publish (hr : Reliable σ usable)
    (h : Intact usable used segments changes snapshots d) (hnamed : Named used segments)
    (hsound : commit.Sound used) (hwhole : changesOf d commit.segments = .ok all)
    (hmem : ⟨all, commit.generation, commit.userData⟩ ∈ snapshots) :
    Ensures (IndexWriter.publish commit) d
      (fun _ => Complete usable segments changes commit all)
      (Intact usable used segments changes snapshots) := by
  have hfile : Ensures (Storage.write commit.fileName commit.toBytes) d
      (fun _ => Ready usable used segments changes snapshots commit all)
      (Intact usable used segments changes snapshots) :=
    .write hr h.usable (.commit commit.generation) h fun next hnext =>
      h.writeCommit hr hnext hnamed.segments hsound hwhole hmem
  have hsync : ∀ next, Ready usable used segments changes snapshots commit all next →
      Ensures Storage.sync next (fun _ => Ready usable used segments changes snapshots commit all)
        (Intact usable used segments changes snapshots) := by
    intro next hready
    refine .sync hr hready.intact.usable hready.intact fun last hlast hspares => ?_
    refine ⟨hready.intact.keep hr hlast hnamed hspares (List.forall_mem_nil _), ?_, ?_⟩
    · exact (hspares _ (.commit commit.generation) List.not_mem_nil).trans hready.file
    · rw [hspares.changesOf hsound.named.segments fun _ _ => List.not_mem_nil, hready.whole]
  have hmarker : ∀ next, Ready usable used segments changes snapshots commit all next →
      Ensures (Storage.write GenerationMarker.fileName (GenerationMarker.encode commit.generation))
        next (fun _ => Complete usable segments changes commit all)
        (Intact usable used segments changes snapshots) := fun next hready =>
    .write hr hready.intact.usable .marker hready.intact fun last hlast =>
      hready.writeMarker hlast hnamed.segments hsound
  have hagain : ∀ next, Complete usable segments changes commit all next →
      Ensures Storage.sync next (fun _ => Complete usable segments changes commit all)
        (Intact usable used segments changes snapshots) := fun next hcomplete =>
    .sync hr hcomplete.usable (hcomplete.intact hsound.named hmem) fun last hlast hspares =>
      hcomplete.keep hlast hnamed.segments hsound.named.segments hspares (List.forall_mem_nil _)
  exact hfile.bind fun _ next h => (hsync next h).bind fun _ next h =>
    (hmarker next h).bind fun _ next h => hagain next h

/-- The segments file of another commit can go. -/
theorem ensures_removeStale (hr : Reliable σ usable)
    (h : Complete usable segments changes commit all d) (hsegments : Segments segments)
    (hnamed : Named used commit.segments)
    (hmem : ⟨all, commit.generation, commit.userData⟩ ∈ snapshots) {generation : Nat}
    (hstale : generation ≠ commit.generation) :
    Ensures (IndexWriter.removeStale generation) d
      (fun _ => Complete usable segments changes commit all)
      (Intact usable used segments changes snapshots) := by
  refine Ensures.get.bind ?_
  rintro state _ ⟨hstate, rfl⟩
  by_cases hthere : (decide (0 < generation) &&
      Storage.hasFile state (Commit.fileNameOf generation)) = true
  · rw [if_pos hthere]
    have hfile : Storage.hasFile state.inner (Commit.fileNameOf generation) = true :=
      (Bool.and_eq_true_iff.mp hthere).2
    rw [hstate] at hfile
    refine .delete hr h.usable (.commit generation) hfile (h.intact hnamed hmem)
      fun last hlast hspares => ?_
    refine h.keep hlast hsegments hnamed.segments hspares fun file hfile => ?_
    exact ⟨generation, hstale, List.mem_singleton.mp hfile⟩
  · rw [if_neg hthere]
    exact .pure h

/--
**A commit leaves what was committed or what it commits**, wherever it is cut short; if it
succeeds, it leaves what it commits.
-/
theorem ensures_commit (hr : Reliable σ usable) {writer : IndexWriter} {segment : String}
    {userData : Table String String} {now : Moment}
    (h : Intact usable used writer.last.segments changes snapshots d)
    (hnamed : Named used writer.last.segments) (hnew : segment ∉ used)
    (hcommittable : writer.Committable userData now)
    (hmem : ⟨changes ++ writer.pending, writer.last.generation + 1, userData⟩ ∈ snapshots) :
    Ensures (writer.commit segment userData now) d
      (fun next last => ∃ names, next = { writer with
          pending := [], last := ⟨writer.last.generation + 1, names, userData⟩ } ∧
        Named (segment :: used) names ∧
        Complete usable writer.last.segments changes
          ⟨writer.last.generation + 1, names, userData, now⟩ (changes ++ writer.pending) last)
      (Intact usable (segment :: used) writer.last.segments changes snapshots) := by
  have hmore : ∀ base ∈ used, base ∈ segment :: used := fun _ => List.mem_cons_of_mem segment
  refine (ensures_writePending hr h hnamed hnew hcommittable).bind ?_
  rintro names next ⟨hintact, hnames, hwhole⟩
  have hsound : Commit.Sound ⟨writer.last.generation + 1, names, userData, now⟩ (segment :: used) :=
    ⟨hcommittable.generation, hcommittable.userData, hcommittable.time, hnames⟩
  refine (ensures_publish hr hintact (hnamed.mono hmore) hsound hwhole hmem).bind
    fun _ next hcomplete => ?_
  refine (ensures_removeStale hr hcomplete hnamed.segments hnames hmem
    (Nat.succ_ne_self _).symm).bind fun _ last hcomplete => ?_
  exact .pure ⟨names, rfl, hnames, hcomplete⟩

end Committing

end DocIndex.Storage
