/-
Restoring a directory from a snapshot.

Restoring clears a directory of whatever it lists, and then writes the files of the copy, the
segments file after the segments and the marker last.  So what was in the directory does not
matter: the files that are there in the end are those of the copy and the marker.  Opening a
directory reads no others, and reads of them only what a copy has.

A session leaves a directory that can be copied as soon as it has made a commit, since the marker
then names the last commit for good.
-/
import DocIndex.Proofs.Storage.Copies
import DocIndex.Proofs.Storage.Sessions
import DocIndex.Writing.Store

namespace DocIndex.Storage

/-! ### Directories whose files can be replaced -/

section Listing

variable {σ : Type} [Storage σ]

/-- A directory lists a file. -/
def Lists (d : σ) (name : String) : Prop := ∃ names, Storage.list d = .ok names ∧ name ∈ names

/-- A reliable storage that lists its files, each once, and that can be rid of any of them. -/
structure Replaceable (σ : Type) [Storage σ] (usable : σ → Prop) : Prop
    extends Reliable σ usable where
  list : ∀ {d}, usable d → ∃ names, Storage.list d = .ok names ∧ names.Nodup
  remove : ∀ {d}, usable d → ∀ {name}, Lists d name →
    ∃ next, (Storage.delete name : Step σ Unit).runFrom d = (.ok (), next) ∧ usable next ∧
      ∀ other, Lists next other ↔ Lists d other ∧ other ≠ name
  lists_write : ∀ {d}, usable d → ∀ {name}, IndexFile name → ∀ bytes other,
    Lists ((Storage.write name bytes : Step σ Unit).runFrom d).2 other
      ↔ other = name ∨ Lists d other
  lists_sync : ∀ {d}, usable d → ∀ other,
    Lists ((Storage.sync : Step σ Unit).runFrom d).2 other ↔ Lists d other

end Listing

theorem Directory.lists_iff {d : Directory} (h : d.medium = .memory) {name : String} :
    Lists d name ↔ name ∈ Table.keys d.files := by
  have hlist : Storage.list d = .ok (Table.keys d.files) := by
    show Except.ok d.list = _
    rw [Directory.list, h]
  simp [Lists, hlist]

/-- The files of a directory in memory can be replaced. -/
theorem replaceable_inMemory :
    Replaceable Directory fun d => d.medium = .memory ∧ Table.Sorted d.files where
  toReliable := reliable_inMemory
  list := by
    rintro d ⟨hmemory, hsorted⟩
    refine ⟨Table.keys d.files, ?_, Table.nodup_keys hsorted⟩
    show Except.ok d.list = _
    rw [Directory.list, hmemory]
  remove := by
    rintro d ⟨hmemory, hsorted⟩ name hname
    rw [Directory.lists_iff hmemory] at hname
    obtain ⟨bytes, hbytes⟩ := (Table.mem_keys_iff hsorted).mp hname
    refine ⟨{ d with files := Table.erase d.files name, locked := d.keepLock name }, ?_,
      ⟨hmemory, Table.sorted_erase hsorted _⟩, fun other => ?_⟩
    · show d.delete name = _
      simp [Directory.delete, Directory.read, hbytes]
    · rw [Directory.lists_iff hmemory, Directory.lists_iff (by exact hmemory)]
      exact Table.mem_keys_erase hsorted
  lists_write := by
    rintro d ⟨hmemory, hsorted⟩ name - bytes other
    have hwrite : (Storage.write name bytes : Step Directory Unit).runFrom d
        = (.ok (), { d with files := Table.insert d.files name bytes }) := by
      show d.write name bytes = _
      simp [Directory.write, hmemory]
    rw [hwrite, Directory.lists_iff hmemory, Directory.lists_iff (by exact hmemory)]
    exact Table.mem_keys_insert hsorted
  lists_sync := fun _ _ => Iff.rfl

/-! ### Restoring -/

section Restoring

variable {σ : Type} [Storage σ] {usable : σ → Prop} {d : σ}

/-- Deleting files that are listed leaves the others. -/
theorem deleteFiles_ok (hr : Replaceable σ usable) : ∀ {names : List String} {d : σ}, usable d →
    names.Nodup → (∀ name ∈ names, Lists d name) →
      ∃ next, (deleteFiles names : Step σ Unit).runFrom d = (.ok (), next) ∧ usable next ∧
        ∀ other, Lists next other ↔ Lists d other ∧ other ∉ names
  | [], d, hd, _, _ => ⟨d, rfl, hd, by simp⟩
  | name :: rest, d, hd, hnodup, hlisted => by
      obtain ⟨hnew, hrest⟩ := List.nodup_cons.mp hnodup
      obtain ⟨middle, hdelete, hmiddle, hleft⟩ := hr.remove hd (hlisted name List.mem_cons_self)
      have hstill : ∀ other ∈ rest, Lists middle other := fun other hother =>
        (hleft other).mpr ⟨hlisted other (List.mem_cons_of_mem _ hother),
          fun heq => hnew (heq ▸ hother)⟩
      obtain ⟨next, hrun, hnext, hlists⟩ := deleteFiles_ok hr hmiddle hrest hstill
      refine ⟨next, ?_, hnext, fun other => ?_⟩
      · rw [deleteFiles, runFrom_bind hdelete, hrun]
      · rw [hlists, hleft, List.mem_cons, not_or, and_assoc]

/-- A directory is cleared of all that it lists. -/
theorem clear_ok (hr : Replaceable σ usable) (hd : usable d) :
    ∃ names next, Storage.list d = .ok names ∧
      (deleteFiles names : Step σ Unit).runFrom d = (.ok (), next) ∧ usable next ∧
        ∀ other, ¬Lists next other := by
  obtain ⟨names, hlist, hnodup⟩ := hr.list hd
  obtain ⟨next, hrun, hnext, hleft⟩ := deleteFiles_ok hr hd hnodup fun name hname =>
    ⟨names, hlist, hname⟩
  refine ⟨names, next, hlist, hrun, hnext, fun other hother => ?_⟩
  obtain ⟨⟨listed, hlisted, hmem⟩, hnew⟩ := (hleft other).mp hother
  obtain rfl := Except.ok.inj (hlist.symm.trans hlisted)
  exact hnew hmem

/-- A directory after some files were written to it, whose content is given. -/
structure Written (usable : σ → Prop) (content : String → Except Error Bytes) (d : σ)
    (names : List String) (next : σ) : Prop where
  usable : usable next
  read : ∀ name ∈ names, Storage.read next name = content name
  kept : ∀ other, IndexFile other → other ∉ names → Storage.read next other = Storage.read d other
  lists : ∀ other, Lists next other ↔ other ∈ names ∨ Lists d other

variable {content : String → Except Error Bytes}

theorem Written.append {middle next : σ} {first second : List String}
    (hfirst : Written usable content d first middle)
    (hsecond : Written usable content middle second next)
    (hnames : ∀ name ∈ first, IndexFile name) :
    Written usable content d (first ++ second) next where
  usable := hsecond.usable
  read := by
    intro name hname
    by_cases hlater : name ∈ second
    · exact hsecond.read name hlater
    · have hearlier : name ∈ first := (List.mem_append.mp hname).resolve_right hlater
      rw [hsecond.kept name (hnames name hearlier) hlater, hfirst.read name hearlier]
  kept := by
    intro other hother hnew
    rw [List.mem_append, not_or] at hnew
    rw [hsecond.kept other hother hnew.2, hfirst.kept other hother hnew.1]
  lists := by
    intro other
    rw [hsecond.lists, hfirst.lists, List.mem_append, or_left_comm, or_assoc]

theorem write_ok (hr : Replaceable σ usable) (hd : usable d) {name : String} {bytes : Bytes}
    (hname : IndexFile name) (hcontent : content name = .ok bytes) :
    ∃ next, (Storage.write name bytes : Step σ Unit).runFrom d = (.ok (), next) ∧
      Written usable content d [name] next := by
  obtain ⟨next, hrun, hnext, hread, hothers⟩ := hr.write hd hname bytes
  have hlists := hr.lists_write hd hname bytes
  rw [hrun] at hlists
  refine ⟨next, hrun, hnext, ?_, fun other hother hne => ?_, fun other => ?_⟩
  · rw [List.forall_mem_singleton, hread, hcontent]
  · exact hothers other hother (by simpa using hne)
  · rw [hlists, List.mem_singleton]

theorem sync_ok (content : String → Except Error Bytes) (hr : Replaceable σ usable)
    (hd : usable d) :
    ∃ next, (Storage.sync : Step σ Unit).runFrom d = (.ok (), next) ∧
      Written usable content d [] next := by
  obtain ⟨next, hrun, hnext, hothers⟩ := hr.sync hd
  have hlists := hr.lists_sync hd
  rw [hrun] at hlists
  exact ⟨next, hrun, hnext, List.forall_mem_nil _, fun other hother _ => hothers other hother,
    by simpa using hlists⟩

/-- Files that a snapshot has are written, in whatever order and however often. -/
theorem writeFiles_ok (hr : Replaceable σ usable) {reader : SnapshotReader} :
    ∀ {names : List String} {d : σ}, usable d → (∀ name ∈ names, IndexFile name) →
      (∀ name ∈ names, ∃ bytes, reader.read name = .ok bytes ∧ content name = .ok bytes) →
        ∃ next, (writeFiles reader names : Step σ Unit).runFrom d = (.ok (), next) ∧
          Written usable content d names next
  | [], d, hd, _, _ => ⟨d, rfl, hd, List.forall_mem_nil _, fun _ _ _ => rfl, by simp⟩
  | name :: rest, d, hd, hnames, hreads => by
      obtain ⟨hname, hrest⟩ := List.forall_mem_cons.mp hnames
      obtain ⟨⟨bytes, hread, hcontent⟩, hothers⟩ := List.forall_mem_cons.mp hreads
      obtain ⟨middle, hwrite, hfirst⟩ := write_ok hr hd hname hcontent
      obtain ⟨next, hrun, hsecond⟩ := writeFiles_ok hr hfirst.usable hrest hothers
      refine ⟨next, ?_, hfirst.append hsecond (by simpa using hname)⟩
      rw [writeFiles, hread, liftM_ok_bind, runFrom_bind hwrite, hrun]

/-- What a directory that a copy is restored to holds. -/
structure Restored (usable : σ → Prop) (content : String → Except Error Bytes) (copy : Copy)
    (restored : σ) : Prop where
  usable : usable restored
  /-- Nothing but the files of the copy and the marker is there. -/
  lists : ∀ name, Lists restored name ↔ name ∈ copy.names ∨ name = GenerationMarker.fileName
  read : ∀ name, Lists restored name → Storage.read restored name = content name

/-- **A copy is restored over whatever a directory holds.** -/
theorem restore_ok (hr : Replaceable σ usable) (hd : usable d) {reader : SnapshotReader}
    {copy : Copy} (hgives : reader.Gives copy) (hsegments : Segments (copy.segments.map Prod.fst))
    (hfile : copy.segmentsFile.1 = Commit.fileNameOf copy.generation)
    (hgeneration : copy.generation ≤ uint64Max)
    (hcontent : ∀ file ∈ copy.segments ++ [copy.segmentsFile], content file.1 = .ok file.2)
    (hmarker : content GenerationMarker.fileName = .ok (GenerationMarker.encode copy.generation)) :
    ∃ restored, (restore (.ok reader) : Step σ Nat).runFrom d = (.ok copy.generation, restored) ∧
      Restored usable content copy restored := by
  -- A cleared directory lists nothing, so what is listed in the end was written after it.
  obtain ⟨names, d₁, hlist, hrun₁, h₁, hempty⟩ := clear_ok hr hd
  have hnames : ∀ name ∈ reader.files, IndexFile name := by
    intro name hname
    obtain ⟨base, rfl⟩ := hsegments name ((hgives.files name).mp hname)
    exact .segment base
  have hfiles : ∀ name ∈ reader.files,
      ∃ bytes, reader.read name = .ok bytes ∧ content name = .ok bytes := by
    intro name hname
    obtain ⟨file, hfile, rfl⟩ := List.mem_map.mp ((hgives.files name).mp hname)
    exact ⟨file.2, hgives.read file hfile, hcontent file (List.mem_append_left _ hfile)⟩
  have hsegmentsFile : IndexFile copy.segmentsFile.1 := hfile ▸ .commit copy.generation
  obtain ⟨d₂, hrun₂, h₂⟩ := writeFiles_ok hr h₁ hnames hfiles
  obtain ⟨d₃, hrun₃, h₃⟩ := sync_ok content hr h₂.usable
  obtain ⟨d₄, hrun₄, h₄⟩ := write_ok hr h₃.usable hsegmentsFile
    (hcontent copy.segmentsFile (List.mem_append_right _ List.mem_cons_self))
  obtain ⟨d₅, hrun₅, h₅⟩ := sync_ok content hr h₄.usable
  obtain ⟨d₆, hrun₆, h₆⟩ := write_ok hr h₅.usable .marker hmarker
  obtain ⟨d₇, hrun₇, h₇⟩ := sync_ok content hr h₆.usable
  have hwritten : Written usable content d₁
      (reader.files ++ ([copy.segmentsFile.1] ++ [GenerationMarker.fileName])) d₇ := by
    have h₆₇ := h₆.append h₇ (by simpa using .marker)
    have h₄₇ := (h₄.append h₅ (by simpa using hsegmentsFile)).append h₆₇
      (by simpa using hsegmentsFile)
    simpa using (h₂.append h₃ hnames).append h₄₇ (by simpa using hnames)
  have hlists : ∀ name, Lists d₇ name ↔ name ∈ copy.names ∨ name = GenerationMarker.fileName := by
    intro name
    simp [hwritten.lists, hempty, hgives.files, Copy.names, or_assoc]
  refine ⟨d₇, ?_, hwritten.usable, hlists, fun name hname => ?_⟩
  · have hget : (get : Step σ σ).runFrom d = (.ok d, d) := rfl
    have hnumber : (Commit.generationOfName? copy.segmentsFile.1).getD reader.generation
        = copy.generation := by
      rw [hfile, generationOfName?_fileNameOf hgeneration, Option.getD_some]
    simp only [restore, requireSegmentsFile, hgives.segmentsFile, liftM_ok_bind, hnumber]
    rw [runFrom_bind hget, hlist, liftM_ok_bind, runFrom_bind hrun₁, runFrom_bind hrun₂,
      runFrom_bind hrun₃, runFrom_bind hrun₄, runFrom_bind hrun₅, runFrom_bind hrun₆,
      runFrom_bind hrun₇]
    rfl
  · exact hwritten.read name (((hwritten.lists name).mp hname).resolve_right (hempty name))

end Restoring

/-! ### Opening -/

section Opening

variable {σ : Type} [Storage σ] {usable : σ → Prop} {d : σ}

/-- Directories that hold the same files of a commit are loaded alike. -/
theorem Published.load_congr {σ' : Type} [Storage σ'] {usable' : σ' → Prop} {next : σ'}
    {commit : Commit} (h : Published d commit) (hr : Reliable σ usable) (hd : usable d)
    (hr' : Reliable σ' usable') (hnext : usable' next)
    (hread : ∀ name, name ∈ commit.segments ∨ name = commit.fileName ∨
      name = GenerationMarker.fileName → Storage.read next name = Storage.read d name) :
    Published next commit ∧
      ∀ analyzers, IndexWriter.load analyzers next = IndexWriter.load analyzers d := by
  have hpublished : Published next commit :=
    ⟨(hread _ (.inr (.inr rfl))).trans h.marker, (hread _ (.inr (.inl rfl))).trans h.file,
      h.generation, h.userData, h.time⟩
  refine ⟨hpublished, fun analyzers => ?_⟩
  have hsegments : IndexWriter.replaySegments analyzers next .empty commit.segments
      = IndexWriter.replaySegments analyzers d .empty commit.segments :=
    IndexWriter.replaySegments_congr .empty fun name hname => hread name (.inl hname)
  rw [load_of_committed (h.committed hr hd), load_of_committed (hpublished.committed hr' hnext),
    Commit.inUtc_segments, hsegments]

/-- Directories that hold the same files of a commit are opened alike. -/
theorem Published.openAt_congr {σ' : Type} [Storage σ'] {usable' : σ' → Prop} {next : σ'}
    {commit : Commit} (h : Published d commit) (hr : Reliable σ usable) (hd : usable d)
    (hr' : Reliable σ' usable') (hnext : usable' next)
    (hread : ∀ name, name ∈ commit.segments ∨ name = commit.fileName ∨
      name = GenerationMarker.fileName → Storage.read next name = Storage.read d name)
    (analyzers : Analyzers) (compression : Compression) :
    IndexWriter.openAt analyzers compression next = IndexWriter.openAt analyzers compression d := by
  rw [IndexWriter.openAt, IndexWriter.openAt, (h.load_congr hr hd hr' hnext hread).2]

/-- A directory that holds the files of a commit as another one does, and lists nothing else. -/
structure Reproduces {σ' : Type} [Storage σ'] (commit : Commit) (d : σ) (restored : σ') : Prop where
  lists : ∀ name, Lists restored name ↔
    name ∈ commit.segments ∨ name = commit.fileName ∨ name = GenerationMarker.fileName
  read : ∀ name, Lists restored name → Storage.read restored name = Storage.read d name

/-- A directory that a commit was copied from is reproduced from the copy. -/
theorem Published.restore_ok {σ' : Type} [Storage σ'] {usable' : σ' → Prop}
    (hr : Replaceable σ' usable') {other : σ'} (hother : usable' other) {commit : Commit}
    (h : Published d commit) (hsegments : Segments commit.segments) {copy : Copy}
    (hof : copy.Of d commit.inUtc) (hgeneration : copy.generation = commit.generation)
    (hbytes : copy.segmentsFile.2 = commit.toBytes) {reader : SnapshotReader}
    (hgives : reader.Gives copy) :
    ∃ restored, (restore (.ok reader) : Step σ' Nat).runFrom other
        = (.ok commit.generation, restored) ∧
      usable' restored ∧ Reproduces commit d restored := by
  have hnames : copy.segments.map Prod.fst = commit.segments := hof.segments
  have hfile : copy.segmentsFile.1 = commit.fileName := by
    rw [hof.segmentsFile, hgeneration, Commit.fileName]
  have hread : ∀ file ∈ copy.segments ++ [copy.segmentsFile],
      Storage.read d file.1 = .ok file.2 := by
    intro file hmem
    rcases List.mem_append.mp hmem with hsegment | hlast
    · exact hof.read file hsegment
    · rw [List.mem_singleton.mp hlast, hfile, hbytes, h.file]
  obtain ⟨restored, hrun, hrestored⟩ := Storage.restore_ok hr hother hgives (hnames ▸ hsegments)
    hof.segmentsFile (hgeneration ▸ h.generation) hread (hgeneration ▸ h.marker)
  refine ⟨restored, hgeneration ▸ hrun, hrestored.usable, fun name => ?_, hrestored.read⟩
  rw [hrestored.lists, Copy.names, hnames, hfile, List.mem_append, List.mem_singleton, or_assoc]

theorem Reproduces.list {σ' : Type} [Storage σ'] {usable' : σ' → Prop} {commit : Commit}
    {restored : σ'} (h : Reproduces commit d restored) (hr : Replaceable σ' usable')
    (hrestored : usable' restored) :
    ∃ names, Storage.list restored = .ok names ∧ names.Nodup ∧
      ∀ name, (name ∈ names ↔ name ∈ commit.segments ∨ name = commit.fileName ∨
          name = GenerationMarker.fileName) ∧
        (name ∈ names → Storage.read restored name = Storage.read d name) := by
  obtain ⟨names, hlist, hnodup⟩ := hr.list hrestored
  have hlists : ∀ name, Lists restored name ↔ name ∈ names := by
    intro name
    simp [Lists, hlist]
  refine ⟨names, hlist, hnodup, fun name => ⟨?_, fun hname => ?_⟩⟩
  · rw [← hlists, h.lists]
  · exact h.read name ((hlists name).mpr hname)

/-- Segments whose changes are known can be read. -/
theorem readable_of_changesOf : ∀ {names : List String} {changes : List Change},
    changesOf d names = .ok changes → ∀ name ∈ names, ∃ bytes, Storage.read d name = .ok bytes
  | [], _, _ => List.forall_mem_nil _
  | name :: rest, _, h => by
      obtain ⟨bytes, _, _, hread, -, hothers, -⟩ := changesOf_cons.mp h
      exact List.forall_mem_cons.mpr ⟨⟨bytes, hread⟩, readable_of_changesOf hothers⟩

/-- Segments that were replayed can be read. -/
theorem IndexWriter.readable_of_replaySegments {analyzers : Analyzers} {names : List String}
    {index last : InvertedIndex} (h : replaySegments analyzers d index names = .ok last) :
    ∀ name ∈ names, ∃ bytes, Storage.read d name = .ok bytes := by
  obtain ⟨changes, hchanges, -⟩ := changesOf_replaySegments h
  exact readable_of_changesOf hchanges

end Opening

/-! ### Sessions that have committed -/

/-- Whether a call is a commit. -/
def Call.isCommit : Call → Bool
  | .commit _ _ _ => true
  | .revise _ | .rollback | .reopen _ => false

namespace Session

variable {σ : Type} [Storage σ] {usable : σ → Prop} {analyzers : Analyzers} {session : Session σ}

/-- The marker of the directory names the last commit of the session. -/
def AtCommit (session : Session σ) : Prop :=
  ∃ commit, Published session.directory commit ∧ session.settled.1 = .ofCommit commit

/-- A commit is published, and other calls leave the directory alone. -/
theorem AtCommit.after (hr : Reliable σ usable) (hexact : session.Exact usable analyzers)
    {call : Call} (hsound : session.Sound call) (h : call.isCommit = true ∨ session.AtCommit) :
    (session.after analyzers call).AtCommit := by
  cases call with
  | commit segment userData now =>
      obtain ⟨hnew, hcommittable⟩ := hsound
      obtain ⟨names, next, hrun, -, hmarker, hfile, -⟩ :=
        commit_written hr hexact.usable hexact.segments hnew userData now
      have hpublished : Published next
          ⟨session.writer.last.generation + 1, names, userData, now⟩ :=
        ⟨hmarker, hfile, hcommittable.generation, hcommittable.userData, hcommittable.time⟩
      simp only [Session.after, hrun]
      exact ⟨_, hpublished, rfl⟩
  | revise revision => exact h.resolve_left Bool.false_ne_true
  | rollback => exact h.resolve_left Bool.false_ne_true
  | reopen compression =>
      simp only [Session.after, hexact.openAt]
      exact h.resolve_left Bool.false_ne_true

/-- A session that made a commit is at its last one. -/
theorem AtCommit.afterAll (hr : Reliable σ usable) : ∀ {calls : List Call} {session : Session σ},
    session.Exact usable analyzers → session.AllSound analyzers calls →
      (∃ call ∈ calls, call.isCommit = true) ∨ session.AtCommit →
        (session.afterAll analyzers calls).AtCommit
  | [], _, _, _, h => h.resolve_left (by simp)
  | call :: rest, session, hexact, ⟨hsound, hrest⟩, h => by
      have hnext : (∃ other ∈ rest, other.isCommit = true) ∨
          (session.after analyzers call).AtCommit := by
        rcases h with ⟨other, hother, hcommit⟩ | h
        · rcases List.mem_cons.mp hother with rfl | hother
          · exact .inr (AtCommit.after hr hexact hsound (.inl hcommit))
          · exact .inl ⟨other, hother, hcommit⟩
        · exact .inr (AtCommit.after hr hexact hsound (.inr h))
      show ((session.after analyzers call).afterAll analyzers rest).AtCommit
      exact AtCommit.afterAll hr (hexact.after hr hsound) hrest hnext

namespace Exact

/-- A commit raises the generation by one, and no other call changes it. -/
theorem generation_after (hr : Reliable σ usable) (h : session.Exact usable analyzers)
    {call : Call} (hsound : session.Sound call) :
    (session.after analyzers call).settled.1.generation
      = session.settled.1.generation + if call.isCommit then 1 else 0 := by
  cases call with
  | commit segment userData now =>
      obtain ⟨names, next, hrun, -⟩ := h.commit hr hsound
      simp only [Session.after, hrun, ← h.last, Call.isCommit, if_true]
  | revise revision => rfl
  | rollback => rfl
  | reopen compression =>
      simp only [Session.after, h.openAt]
      rfl

/-- The generation counts the commits. -/
theorem generation_afterAll (hr : Reliable σ usable) :
    ∀ {calls : List Call} {session : Session σ}, session.Exact usable analyzers →
      session.AllSound analyzers calls →
        (session.afterAll analyzers calls).settled.1.generation
          = session.settled.1.generation + calls.countP Call.isCommit
  | [], _, _, _ => rfl
  | call :: rest, session, h, ⟨hsound, hrest⟩ => by
      have hcount := generation_afterAll hr (h.after hr hsound) hrest
      rw [h.generation_after hr hsound] at hcount
      rw [List.countP_cons, Nat.add_comm _ (ite _ _ _), ← Nat.add_assoc]
      exact hcount

end Exact

/-- A directory that opens as that of a session begins a session where the other one stands. -/
theorem Exact.opening_congr (h : session.Exact usable analyzers) {σ' : Type} [Storage σ']
    {usable' : σ' → Prop} {next : σ'} (hnext : usable' next)
    (hopens : ∀ compression, IndexWriter.openAt analyzers compression next
      = IndexWriter.openAt analyzers compression session.directory) (compression : Compression) :
    ∃ reopened : Session σ', Session.opening analyzers compression next = .ok reopened ∧
      reopened.writer = ⟨session.settled.2, [], session.settled.1, compression⟩ ∧
      reopened.settled = session.settled ∧ reopened.Exact usable' analyzers := by
  let reopened : Session σ' :=
    ⟨⟨session.settled.2, [], session.settled.1, compression⟩, next, session.settled⟩
  have hopening : Session.opening analyzers compression next = .ok reopened := by
    rw [Session.opening, hopens, h.openAt]
    rfl
  have hsegments : Segments session.settled.1.segments := h.last ▸ h.segments
  exact ⟨reopened, hopening, rfl, rfl, Exact.opening hnext hopening hsegments⟩

/-! ### Snapshots of sessions -/

/-- Nothing is handed over from a directory without a commit. -/
theorem snapshot_of_unmarked {τ : Type} [SnapshotTarget τ] {d : σ}
    (h : Storage.hasFile d GenerationMarker.fileName = false) (target : τ) :
    (snapshot d).runFrom target = (.error .nothingCommitted, target) := by
  have hcommitted : committed d = .error .nothingCommitted := by
    rw [committed, h, if_neg Bool.false_ne_true]
  simp only [snapshot, hcommitted]
  rfl

/-- The last commit of a session can be copied. -/
theorem Exact.exists_copy (hr : Reliable σ usable) (h : session.Exact usable analyzers)
    {commit : Commit} (hpublished : Published session.directory commit)
    (hsettled : session.settled.1 = .ofCommit commit) :
    ∃ copy : Copy, copy.Of session.directory commit.inUtc ∧
      copy.generation = commit.generation ∧ copy.segmentsFile.2 = commit.toBytes := by
  refine Copy.exists_of (hpublished.committed hr h.usable) ?_
  have hsegments := IndexWriter.replaySegments_of_load h.loads
  rw [hsettled] at hsegments
  exact IndexWriter.readable_of_replaySegments hsegments

/--
**A restored directory opens as the one that the snapshot was taken of.**  Take the directory of
a session that made a commit, and a target and a source that give its files back.  A snapshot and
a restore then succeed, whatever was in the directory that is restored to.  It is left with the
segments of the last commit, its segments file and the marker, and nothing else; index, user data
and generation are the same when it is opened, and later commits count on from there.
-/
theorem restore_snapshot (hr : Reliable σ usable) {compression : Compression} {d : σ}
    (hd : usable d) {start : Session σ} (hopen : opening analyzers compression d = .ok start)
    (hsegments : Segments start.writer.last.segments) {calls : List Call}
    (hsound : start.AllSound analyzers calls) (hcommit : ∃ call ∈ calls, call.isCommit = true)
    {τ : Type} [SnapshotTarget τ] {target : τ} {source : τ → Except Error SnapshotReader}
    (hback : ∀ (copy : Copy) commit, copy.Of (start.afterAll analyzers calls).directory commit →
      copy.HandedBack target source)
    {σ' : Type} [Storage σ'] {usable' : σ' → Prop} (hr' : Replaceable σ' usable') {other : σ'}
    (hother : usable' other) :
    let original := start.afterAll analyzers calls
    let last := original.settled.1
    ∃ filled restored,
      (snapshot original.directory).runFrom target = (.ok last.generation, filled) ∧
      (restore (source filled)).runFrom other = (.ok last.generation, restored) ∧
      (∃ names, Storage.list restored = .ok names ∧ names.Nodup ∧
        ∀ name, (name ∈ names ↔ name ∈ last.segments ∨
            name = Commit.fileNameOf last.generation ∨ name = GenerationMarker.fileName) ∧
          (name ∈ names → Storage.read restored name = Storage.read original.directory name)) ∧
      (∀ analyzers compression, IndexWriter.openAt analyzers compression restored
        = IndexWriter.openAt analyzers compression original.directory) ∧
      (∀ config analyzers, DocumentStore.openAt config analyzers restored
        = DocumentStore.openAt config analyzers original.directory) ∧
      ∀ compression, ∃ reopened, opening analyzers compression restored = .ok reopened ∧
        reopened.writer = ⟨original.settled.2, [], last, compression⟩ ∧
        ∀ later, reopened.AllSound analyzers later →
          (reopened.afterAll analyzers later).settled.1.generation
            = last.generation + later.countP Call.isCommit := by
  intro original last
  have hstart : start.Exact usable analyzers := Exact.opening hd hopen hsegments
  have hexact : original.Exact usable analyzers := hstart.afterAll hr hsound
  obtain ⟨commit, hpublished, hsettled⟩ : original.AtCommit :=
    AtCommit.afterAll hr hstart hsound (.inl hcommit)
  obtain ⟨copy, hof, hgeneration, hbytes⟩ := hexact.exists_copy hr hpublished hsettled
  obtain ⟨filled, reader, hhand, hsource, hgives⟩ := hback copy _ hof
  have hlast : last = .ofCommit commit := hsettled
  have hcopied : Segments commit.segments := by
    have hown := hexact.segments
    rw [hexact.last, hsettled] at hown
    exact hown
  obtain ⟨restored, hrun, husable, hreproduces⟩ := hpublished.restore_ok hr' hother hcopied hof
    hgeneration hbytes hgives
  have hopens := hpublished.openAt_congr hr hexact.usable hr'.toReliable husable
    fun name hname => hreproduces.read name ((hreproduces.lists name).mpr hname)
  refine ⟨filled, restored, ?_, ?_, ?_, hopens, ?_, ?_⟩
  · rw [hof.runFrom_snapshot hhand, hgeneration, hlast]
    rfl
  · rw [hsource, hrun, hlast]
    rfl
  · rw [hlast]
    exact hreproduces.list hr' husable
  · intro config analyzers
    rw [DocumentStore.openAt, DocumentStore.openAt, hopens]
  · intro compression
    obtain ⟨reopened, hopening, hwriter, hfrom, hreopened⟩ :=
      hexact.opening_congr husable (hopens analyzers) compression
    refine ⟨reopened, hopening, hwriter, fun later hlater => ?_⟩
    rw [hreopened.generation_afterAll hr'.toReliable hlater, hfrom]

/-- Two commits, the second one of a deletion. -/
def twoCommits : List Call :=
  [.revise (.add [.term "$id" "1"]), .commit "a" [("k", "v")] ⟨0, 0, 0⟩,
    .revise (.deleteTerm "$id" "1"), .commit "b" [] ⟨0, 0, 0⟩]

/-- An archive with a snapshot of an earlier generation. -/
def earlierArchive : Archive :=
  { Archive.empty "backups" ⟨0, 0, 0⟩ with folders := [("1", [(Manifest.fileName, [])])] }

/-- A directory with files of another index, some of which have the names of the copied ones. -/
def staleDirectory : Directory :=
  { Directory.inMemory with
    files := [("a.seg", [1]), ("old.seg", [2]), ("segments.gen", [3]), ("segments_7", [4])] }

theorem restore_snapshot_overStaleFiles :
    ∃ start, opening [] .lz4 Directory.inMemory = .ok start ∧
      let original := start.afterAll [] twoCommits
      ∃ filled restored,
        (snapshot original.directory).runFrom earlierArchive
            = (.ok original.settled.1.generation, filled) ∧
          (restore filled.reader).runFrom staleDirectory
            = (.ok original.settled.1.generation, restored) ∧
          ∀ analyzers compression, IndexWriter.openAt analyzers compression restored
            = IndexWriter.openAt analyzers compression original.directory := by
  let start : Session Directory := ⟨.empty .lz4, .inMemory, .initial, .empty⟩
  have hsegments : Segments start.writer.last.segments := List.forall_mem_nil _
  have htime : Moment.Regular ⟨0, 0, 0⟩ := ⟨by decide, Or.inl (by decide)⟩
  have hfirst : InWords [.add [.term "$id" "1"]] ∧
      (Record.writeList Record.writeChange [.add [.term "$id" "1"]]).length < 256 ^ 4 := by
    decide +kernel
  have hdeletion : InWords [.deleteTerm "$id" "1"] ∧
      (Record.writeList Record.writeChange [.deleteTerm "$id" "1"]).length < 256 ^ 4 := by
    decide +kernel
  have hsecond : let writer := (start.afterAll [] (twoCommits.take 3)).writer
      writer.last = ⟨1, [Segment.fileName "a"], [("k", "v")]⟩ ∧
        writer.pending = [.deleteTerm "$id" "1"] ∧ writer.compression = .lz4 := by
    decide +kernel
  obtain ⟨hlast, hpending, hcompression⟩ := hsecond
  have hsound : start.AllSound [] twoCommits := by
    refine ⟨trivial, ⟨List.not_mem_nil, hfirst.1, hfirst.2, Compression.restores_lz4 _, by decide,
      by decide, htime⟩, trivial, ⟨?_, ?_, ?_, ?_, ?_, by decide, htime⟩, trivial⟩
    · exact hlast ▸ by decide
    · exact hpending ▸ hdeletion.1
    · exact hpending ▸ hdeletion.2
    · exact hcompression ▸ Compression.restores_lz4 _
    · exact hlast ▸ by decide
  have hcommitted : (committed (start.afterAll [] twoCommits).directory).toOption.map
      (fun last => (last.1, last.2.2.segments)) = some (2, ["a.seg", "b.seg"]) := by
    decide +kernel
  have hback : ∀ (copy : Copy) commit, copy.Of (start.afterAll [] twoCommits).directory commit →
      copy.HandedBack earlierArchive Archive.reader := by
    intro copy commit hof
    rw [hof.committed] at hcommitted
    have hpair : (copy.generation, commit.segments) = (2, ["a.seg", "b.seg"]) :=
      Option.some.inj hcommitted
    obtain ⟨hgeneration, hnames⟩ := Prod.mk.inj hpair
    have hall : copy.names = ["a.seg", "b.seg", "segments_2"] := by
      rw [Copy.names, hof.segments, hof.segmentsFile, hgeneration, hnames]
      rfl
    exact Archive.handedBack {
      newest := hgeneration ▸ by decide
      time := htime
      generation := hgeneration ▸ by decide
      allowed := hall ▸ by decide
      distinct := hall ▸ by decide }
  obtain ⟨filled, restored, hsnapshot, hrestore, -, hopens, -⟩ :=
    restore_snapshot reliable_inMemory ⟨rfl, Table.sorted_nil⟩
      (show opening [] .lz4 Directory.inMemory = .ok start from rfl) hsegments hsound
      ⟨.commit "b" [] ⟨0, 0, 0⟩, by simp [twoCommits], rfl⟩ hback replaceable_inMemory
      (show staleDirectory.medium = .memory ∧ Table.Sorted staleDirectory.files by decide)
  exact ⟨start, rfl, filled, restored, hsnapshot, hrestore, hopens⟩

end Session

end DocIndex.Storage
