/-
What is opened after a restore.

While a restore clears a directory, files are only taken away.  A directory of which files were
taken away opens as before, or not at all, or, without its marker, as an empty index.  Then no
marker is there until everything else of the snapshot is, so the directory opens as an empty
index; and once the marker is there it opens as the directory that the snapshot was taken of.

The marker leads to the name that is printed for its generation, while the segments file is
written under the name that it came with.  The generation is read off that name, and any numeral
will do, with a plus sign or with zeros in front.  So a restored directory opens at the commit of
the snapshot if its segments file has the printed name; if it has another one and the snapshot has
no file of the printed name, the directory cannot be opened.
-/
import DocIndex.Proofs.Storage.Confined
import DocIndex.Proofs.Storage.Copies

namespace DocIndex.Storage

/-! ### Results that may be missing -/

/-- A result is another one or an error. -/
def OrFails {α : Type} (a b : Except Error α) : Prop := a = b ∨ ∃ e, a = .error e

namespace OrFails

variable {α β : Type} {a b : Except Error α}

theorem refl (a : Except Error α) : OrFails a a := .inl rfl

theorem bind {f g : α → Except Error β} (h : OrFails a b)
    (hrest : ∀ value, OrFails (f value) (g value)) : OrFails (a >>= f) (b >>= g) := by
  rcases h with rfl | ⟨e, rfl⟩
  · cases a with
    | ok value => exact hrest value
    | error e => exact .refl _
  · exact .inr ⟨e, rfl⟩

end OrFails

section Opening

variable {σ : Type} [Storage σ] {usable : σ → Prop} {d next : σ}

/-! ### Files that are missing -/

/-- Without some of the segments the others are not replayed. -/
theorem Thinned.replaySegments (h : Thinned d next) (analyzers : Analyzers) :
    ∀ (names : List String) (index : InvertedIndex),
      OrFails (IndexWriter.replaySegments analyzers next index names)
        (IndexWriter.replaySegments analyzers d index names)
  | [], _ => .refl _
  | name :: rest, _ =>
    .bind (h name) fun _ => .bind (.refl _) fun _ => .bind (.refl _) fun index =>
      h.replaySegments analyzers rest index

/-- A directory without a marker is that of an empty index. -/
theorem load_of_unmarked (hc : Confined σ usable) (hd : usable d)
    (hgone : Unreadable d GenerationMarker.fileName) (analyzers : Analyzers) :
    IndexWriter.load analyzers d = .ok (.initial, .empty) := by
  have hnone : Storage.hasFile d GenerationMarker.fileName = false := by
    refine Bool.eq_false_iff.mpr fun hthere => ?_
    obtain ⟨bytes, hread⟩ := (hc.hasFile hd .marker).mp hthere
    exact unreadable_iff.mp hgone bytes hread
  rw [IndexWriter.load, hnone, if_neg Bool.false_ne_true]

/-- A directory that files were taken from is loaded as before, or not, or has no marker. -/
theorem Thinned.load (h : Thinned d next) (hc : Confined σ usable) (hd : usable d)
    (hnext : usable next) (analyzers : Analyzers) :
    OrFails (IndexWriter.load analyzers next) (IndexWriter.load analyzers d) ∨
      IndexWriter.load analyzers next = .ok (.initial, .empty) := by
  rcases h GenerationMarker.fileName with hsame | hgone
  · have hthere : Storage.hasFile next GenerationMarker.fileName
        = Storage.hasFile d GenerationMarker.fileName := by
      rw [Bool.eq_iff_iff, hc.hasFile hnext .marker, hc.hasFile hd .marker, hsame]
    left
    unfold IndexWriter.load
    rw [hthere]
    split
    · exact .bind (h _) fun _ => .bind (.refl _) fun generation => .bind (h _) fun _ =>
        .bind (.refl _) fun commit => .bind (h.replaySegments analyzers _ _) fun _ => .refl _
    · exact .refl _
  · exact .inr (load_of_unmarked hc hnext hgone analyzers)

/-! ### Files of a copy -/

/-- A snapshot that gives the files of a copy or fails to. -/
structure SnapshotReader.MayGive (reader : SnapshotReader) (copy : Copy) : Prop where
  files : ∀ name, name ∈ reader.files ↔ name ∈ copy.segments.map Prod.fst
  read : ∀ file ∈ copy.segments, ∀ bytes, reader.read file.1 = .ok bytes → bytes = file.2
  segmentsFile : ∀ file, reader.segmentsFile = .ok (some file) → file = copy.segmentsFile

theorem SnapshotReader.Gives.mayGive {reader : SnapshotReader} {copy : Copy}
    (h : reader.Gives copy) : reader.MayGive copy where
  files := h.files
  read := fun file hfile _ hbytes => Except.ok.inj (hbytes.symm.trans (h.read file hfile))
  segmentsFile := fun _ hfile => Option.some.inj (Except.ok.inj (hfile.symm.trans h.segmentsFile))

/-- Generations of commits fit a word, since the marker has one. -/
theorem Copy.Of.generation_le {copy : Copy} {commit : Commit} (h : copy.Of d commit) :
    copy.generation ≤ uint64Max := by
  obtain ⟨-, marker, -, hdecode, -⟩ := committed_eq_ok.mp h.committed
  rw [GenerationMarker.decode] at hdecode
  split at hdecode
  · rename_i hlength
    have hlt := Bytes.ofLittleEndian_lt marker
    rw [hlength, Except.ok.inj hdecode] at hlt
    exact Nat.le_of_lt_succ hlt
  · cases hdecode

/-- A directory that everything of a copy was written to is loaded as the one it was made of. -/
theorem Replaced.load {σ' : Type} [Storage σ'] {source : σ'} {copy : Copy} {commit : Commit}
    {reader : SnapshotReader} (h : Replaced reader copy.segmentsFile next)
    (hc : Confined σ usable) (hnext : usable next) (hgives : reader.MayGive copy)
    (hof : copy.Of source commit) (hsegments : Segments commit.segments) (analyzers : Analyzers) :
    IndexWriter.load analyzers next = IndexWriter.load analyzers source := by
  have hname := hof.segmentsFile
  have hmarker : Storage.read next GenerationMarker.fileName
      = .ok (GenerationMarker.encode copy.generation) := by
    rw [h.marker, SnapshotReader.numberOf, hname, generationOfName?_fileNameOf hof.generation_le,
      Option.getD_some]
  have hfile := h.segmentsFile (hname ▸ .commit _) (hname ▸ (marker_ne_commit _).symm)
  rw [hname] at hfile
  obtain ⟨-, -, -, -, -, hcommit⟩ := committed_eq_ok.mp hof.committed
  have hcommitted : committed next = .ok (copy.generation, copy.segmentsFile.2, commit) :=
    committed_eq_ok.mpr ⟨(hc.hasFile hnext .marker).mpr ⟨_, hmarker⟩, _, hmarker,
      GenerationMarker.decode_encode (Nat.lt_succ_of_le hof.generation_le), hfile, hcommit⟩
  have hread : ∀ name ∈ commit.segments, Storage.read next name = Storage.read source name := by
    intro name hmem
    obtain ⟨base, rfl⟩ := hsegments name hmem
    rw [← hof.segments] at hmem
    obtain ⟨bytes, hgiven, hthere⟩ := h.files _ ((hgives.files _).mpr hmem) (.segment base)
      (marker_ne_segment base).symm (hname ▸ (commit_ne_segment _ base).symm)
    obtain ⟨file, hfile, heq⟩ := List.mem_map.mp hmem
    rw [hthere, ← heq, hof.read file hfile, hgives.read file hfile bytes (heq ▸ hgiven)]
  rw [load_of_committed hcommitted, load_of_committed hof.committed,
    IndexWriter.replaySegments_congr .empty hread]

/-! ### Directories that are opened after a restore -/

/-- What a restore leaves opens as the old or the new state, as an empty index, or not at all. -/
theorem load_after_restore {σ' : Type} [Storage σ'] (hc : Confined σ usable) (hd : usable d)
    {source : σ'} {copy : Copy} {commit : Commit} (hof : copy.Of source commit)
    (hsegments : Segments commit.segments) {snapshot : Except Error SnapshotReader}
    (hgives : ∀ reader, snapshot = .ok reader → reader.MayGive copy) :
    Leaves (restore snapshot : Step σ Nat) d
      (fun generation next => generation = copy.generation ∧
        ∀ analyzers, IndexWriter.load analyzers next = IndexWriter.load analyzers source)
      (fun next => ∀ analyzers,
        OrFails (IndexWriter.load analyzers next) (IndexWriter.load analyzers d) ∨
          IndexWriter.load analyzers next = .ok (.initial, .empty) ∨
          IndexWriter.load analyzers next = IndexWriter.load analyzers source) := by
  refine (leaves_restore hc hd snapshot).imp ?_ ?_
  · rintro generation next ⟨hnext, reader, file, hsnapshot, hfile, rfl, hreplaced⟩
    have hmay := hgives reader hsnapshot
    obtain rfl := hmay.segmentsFile file hfile
    refine ⟨?_, hreplaced.load hc hnext hmay hof hsegments⟩
    rw [SnapshotReader.numberOf, hof.segmentsFile,
      generationOfName?_fileNameOf hof.generation_le, Option.getD_some]
  · rintro next ⟨hnext, hthinned | ⟨reader, file, hsnapshot, hfile, hwritten⟩⟩ analyzers
    · exact (hthinned.load hc hd hnext analyzers).imp_right .inl
    have hmay := hgives reader hsnapshot
    obtain rfl := hmay.segmentsFile file hfile
    rcases hwritten with hreplaced | hunmarked
    · exact .inr (.inr (hreplaced.load hc hnext hmay hof hsegments analyzers))
    -- No file of the copy has the name of the marker.
    · have hgone := hunmarked ?_
      · exact .inr (.inl (load_of_unmarked hc hnext hgone analyzers))
      rw [List.mem_cons, not_or, hof.segmentsFile, hmay.files, hof.segments]
      refine ⟨marker_ne_commit _, fun hmem => ?_⟩
      obtain ⟨base, heq⟩ := hsegments _ hmem
      exact marker_ne_segment base heq

/-- A directory is loaded alike, whether its operations may fail or not. -/
theorem Unreliable.load_eq (analyzers : Analyzers) (state : Unreliable σ) :
    IndexWriter.load analyzers state = IndexWriter.load analyzers state.inner := by
  have hreplay : ∀ names, IndexWriter.replaySegments analyzers state .empty names
      = IndexWriter.replaySegments analyzers state.inner .empty names := fun names =>
    IndexWriter.replaySegments_congr .empty fun _ _ => rfl
  unfold IndexWriter.load
  simp only [hreplay]
  rfl

end Opening

/--
**A restore that is cut short leaves no mixture.**  Take any directory, a snapshot that gives the
files of a copy of a committed directory or fails to, and a schedule of the operations that have
no effect.  Whatever the restore leaves is not opened, or opened as it was before, as an empty
index without a generation, or as the directory that the copy was made of; and as the last if the
restore succeeds.  Nothing is changed if the snapshot has no segments file.
-/
theorem restore_interrupted {σ σ' : Type} [Storage σ] [Storage σ'] {usable : σ → Prop}
    (hc : Confined σ usable) {d : σ} (hd : usable d) {source : σ'} {copy : Copy} {commit : Commit}
    (hof : copy.Of source commit) (hsegments : Segments commit.segments)
    {snapshot : Except Error SnapshotReader}
    (hgives : ∀ reader, snapshot = .ok reader → reader.MayGive copy) (fates : List Bool) :
    let outcome := (restore snapshot).runFrom (⟨d, fates⟩ : Unreliable σ)
    (∀ analyzers compression,
      let opened := IndexWriter.openAt analyzers compression outcome.2.inner
      (∃ e, opened = .error e) ∨ opened = IndexWriter.openAt analyzers compression d ∨
        opened = .ok (.empty compression) ∨
        opened = IndexWriter.openAt analyzers compression source) ∧
    (∀ generation, outcome.1 = .ok generation → generation = copy.generation ∧
      ∀ analyzers compression, IndexWriter.openAt analyzers compression outcome.2.inner
        = IndexWriter.openAt analyzers compression source) ∧
    ∀ bare : SnapshotReader, bare.segmentsFile = .ok none →
      (restore (.ok bare)).runFrom (⟨d, fates⟩ : Unreliable σ)
        = (.error .snapshotWithoutSegments, ⟨d, fates⟩) := by
  intro outcome
  have hleaves := load_after_restore hc.unreliable (d := ⟨d, fates⟩) hd hof hsegments hgives
  simp only [Unreliable.load_eq] at hleaves
  refine ⟨fun analyzers compression => ?_, fun generation hok => ?_, fun bare hnone => ?_⟩
  · have hload : OrFails (IndexWriter.load analyzers outcome.2.inner)
          (IndexWriter.load analyzers d) ∨
        IndexWriter.load analyzers outcome.2.inner = .ok (.initial, .empty) ∨
        IndexWriter.load analyzers outcome.2.inner = IndexWriter.load analyzers source := by
      rcases hleaves.outcome with ⟨-, -, -, hsame⟩ | ⟨-, -, hstopped⟩
      · exact .inr (.inr (hsame analyzers))
      · exact hstopped analyzers
    simp only [IndexWriter.openAt]
    rcases hload with (hold | ⟨e, he⟩) | hempty | hnew
    · exact .inr (.inl (by rw [hold]))
    · exact .inl ⟨e, by rw [he]; rfl⟩
    · exact .inr (.inr (.inl (by rw [hempty]; rfl)))
    · exact .inr (.inr (.inr (by rw [hnew])))
  · rcases hleaves.outcome with ⟨number, hnumber, hgeneration, hsame⟩ | ⟨e, herror, -⟩
    · obtain rfl := Except.ok.inj (hnumber.symm.trans hok)
      refine ⟨hgeneration, fun analyzers compression => ?_⟩
      rw [IndexWriter.openAt, IndexWriter.openAt, hsame]
    · cases herror.symm.trans hok
  · have hrequired : requireSegmentsFile bare = .error .snapshotWithoutSegments := by
      rw [requireSegmentsFile, hnone]
    simp only [restore, liftM_ok_bind, hrequired]
    rfl

/-- A commit of one document. -/
def oneDocument : Commit := ⟨1, ["a.seg"], [("k", "v")], ⟨0, 0, 0⟩⟩

/-- The copy of the commit. -/
def oneDocumentCopy : Copy :=
  ⟨1, [("a.seg", Segment.encode [.add [.term "$id" "1"]] .lz4)],
    ("segments_1", oneDocument.toBytes)⟩

/-- A directory with the commit. -/
def oneDocumentDirectory : Directory :=
  { Directory.inMemory with files := [
    ("a.seg", Segment.encode [.add [.term "$id" "1"]] .lz4),
    ("segments.gen", GenerationMarker.encode 1), ("segments_1", oneDocument.toBytes)] }

/-- A snapshot that gives the copy. -/
def oneDocumentReader : SnapshotReader where
  generation := 1
  files := ["a.seg"]
  read _ := .ok (Segment.encode [.add [.term "$id" "1"]] .lz4)
  segmentsFile := .ok (some ("segments_1", oneDocument.toBytes))

/-- A directory on disk with a commit of another index. -/
def olderDirectory : Directory :=
  { Directory.onDisk "index" with
    files := [("b.seg", [1]), ("segments.gen", GenerationMarker.encode 7), ("segments_7", [2]),
      ("write.lock", [])]
    locked := true }

/-- A restore that stops when it has cleared a directory on disk, and after its first write. -/
theorem restore_interrupted_afterClearing :
    let cleared := (restore (.ok oneDocumentReader)).runFrom
      (⟨olderDirectory, [true, true, true]⟩ : Unreliable Directory)
    cleared.2.inner.files = [("write.lock", [])] ∧ ∀ analyzers compression,
      let opened := IndexWriter.openAt analyzers compression cleared.2.inner
      (∃ e, opened = .error e) ∨
        opened = IndexWriter.openAt analyzers compression olderDirectory ∨
        opened = .ok (.empty compression) ∨
        opened = IndexWriter.openAt analyzers compression oneDocumentDirectory := by
  have hpublished : Published oneDocumentDirectory oneDocument :=
    ⟨rfl, rfl, by decide, Table.sorted_ofEntries [("k", "v")], ⟨by decide, .inl (by decide)⟩⟩
  have husable : oneDocumentDirectory.medium = .memory ∧
      Table.Sorted oneDocumentDirectory.files := ⟨rfl, by decide⟩
  have hof : oneDocumentCopy.Of oneDocumentDirectory oneDocument.inUtc :=
    ⟨hpublished.committed reliable_inMemory husable, rfl, by
      intro file hfile
      obtain rfl := List.mem_singleton.mp hfile
      rfl, rfl⟩
  have hsegments : Segments oneDocument.inUtc.segments := by
    intro name hname
    exact ⟨"a", List.mem_singleton.mp hname⟩
  have hgives : oneDocumentReader.Gives oneDocumentCopy :=
    ⟨fun _ => Iff.rfl, by
      intro file hfile
      obtain rfl := List.mem_singleton.mp hfile
      rfl, rfl⟩
  have hsorted : Table.Sorted olderDirectory.files := by decide
  exact ⟨by decide +kernel,
    (restore_interrupted Directory.confined hsorted hof hsegments
      (fun _ hreader => Except.ok.inj hreader ▸ hgives.mayGive) [true, true, true]).1⟩

/-! ### The generation that a snapshot is restored as -/

/-- A snapshot is restored as a generation that fits a word, if its own number does. -/
theorem SnapshotReader.numberOf_le {reader : SnapshotReader}
    (h : reader.generation ≤ uint64Max) (file : String × Bytes) :
    reader.numberOf file ≤ uint64Max := by
  rw [numberOf]
  cases hname : Commit.generationOfName? file.1 with
  | none => exact h
  | some number => exact (generationOfName?_eq_some.mp hname).1

section Loading

variable {σ : Type} [Storage σ] {usable : σ → Prop} {d : σ} {generation : Nat}

/-- A marker leads to the segments file of its generation. -/
theorem load_of_marker (hc : Confined σ usable) (hd : usable d) (hword : generation ≤ uint64Max)
    (hmarker : Storage.read d GenerationMarker.fileName = .ok (GenerationMarker.encode generation))
    (analyzers : Analyzers) :
    IndexWriter.load analyzers d = (do
      let bytes ← Storage.read d (Commit.fileNameOf generation)
      let commit ← Commit.ofBytes bytes
      let index ← IndexWriter.replaySegments analyzers d .empty commit.segments
      return (.ofCommit commit, index)) := by
  have hthere : Storage.hasFile d GenerationMarker.fileName = true :=
    (hc.hasFile hd .marker).mpr ⟨_, hmarker⟩
  have hdecode := GenerationMarker.decode_encode (Nat.lt_succ_of_le hword)
  simp only [IndexWriter.load, hthere, if_true, hmarker, hdecode, bind, Except.bind]

end Loading

/--
**What a restored directory opens at.**  A restore that succeeds leaves a marker of the generation
that it gives.  The segments file of that generation is the one of the snapshot, and opening reads
its commit, if the file has the printed name of a generation.  If it does not, then another file
of the snapshot with the printed name is taken for it, and without one there is no such file and
opening fails.  A generation is read off the printed name with any zeros and a plus sign in front
of the number.
-/
theorem restored_generation {σ : Type} [Storage σ] {usable : σ → Prop} (hc : Confined σ usable)
    {d next : σ} (hd : usable d) {snapshot : Except Error SnapshotReader} {generation : Nat}
    (hrun : (restore snapshot).runFrom d = (.ok generation, next))
    (hword : ∀ reader, snapshot = .ok reader → reader.generation ≤ uint64Max) :
    (∃ reader name bytes, snapshot = .ok reader ∧
      reader.segmentsFile = .ok (some (name, bytes)) ∧
      generation = (Commit.generationOfName? name).getD reader.generation ∧
      (∃ marker, Storage.read next GenerationMarker.fileName = .ok marker ∧
        GenerationMarker.decode marker = .ok generation) ∧
      (name = Commit.fileNameOf generation ↔
        ∃ number ≤ uint64Max, name = Commit.fileNameOf number) ∧
      (name = Commit.fileNameOf generation →
        Storage.read next (Commit.fileNameOf generation) = .ok bytes ∧
        ∀ analyzers, IndexWriter.load analyzers next = (do
          let commit ← Commit.ofBytes bytes
          let index ← IndexWriter.replaySegments analyzers next .empty commit.segments
          return (.ofCommit commit, index))) ∧
      (name ≠ Commit.fileNameOf generation → Commit.fileNameOf generation ∈ reader.files →
        ∃ other, reader.read (Commit.fileNameOf generation) = .ok other ∧
          Storage.read next (Commit.fileNameOf generation) = .ok other) ∧
      (name ≠ Commit.fileNameOf generation → Commit.fileNameOf generation ∉ reader.files →
        Unreadable next (Commit.fileNameOf generation) ∧
        ∀ analyzers compression, ∃ e, IndexWriter.openAt analyzers compression next = .error e)) ∧
    ∀ name number, Commit.generationOfName? name = some number ↔ number ≤ uint64Max ∧
      ∃ sign ∈ [[], ['+']], ∃ count, name = Commit.fileNameStart ++
        String.ofList (sign ++ (List.replicate count '0' ++ Nat.toDigits 10 number)) := by
  refine ⟨?_, fun _ _ => generationOfName?_eq_some⟩
  have hleaves := leaves_restore hc hd snapshot
  rw [Leaves, hrun] at hleaves
  obtain ⟨hnext, reader, ⟨name, bytes⟩, hsnapshot, hfile, hgeneration, hreplaced⟩ := hleaves
  have hle : generation ≤ uint64Max := hgeneration ▸ reader.numberOf_le (hword reader hsnapshot) _
  have hmarker := hreplaced.marker
  rw [← hgeneration] at hmarker
  have hload := load_of_marker hc hnext hle hmarker
  refine ⟨reader, name, bytes, hsnapshot, hfile, hgeneration, ⟨_, hmarker,
    GenerationMarker.decode_encode (Nat.lt_succ_of_le hle)⟩, ⟨fun h => ⟨generation, hle, h⟩, ?_⟩,
    fun hname => ?_, fun hname hmem => ?_, fun hname hnot => ?_⟩
  · rintro ⟨number, hnumber, rfl⟩
    rw [hgeneration, SnapshotReader.numberOf, generationOfName?_fileNameOf hnumber,
      Option.getD_some]
  · subst hname
    have hthere := hreplaced.segmentsFile (.commit generation) (marker_ne_commit generation).symm
    refine ⟨hthere, fun analyzers => ?_⟩
    rw [hload, hthere]
    rfl
  · exact hreplaced.files _ hmem (.commit generation) (marker_ne_commit generation).symm hname.symm
  · have hgone : Unreadable next (Commit.fileNameOf generation) := by
      refine hreplaced.cleared (.commit generation) ?_
      simp [(marker_ne_commit generation).symm, Ne.symm hname, hnot]
    refine ⟨hgone, fun analyzers compression => ?_⟩
    obtain ⟨e, he⟩ := hgone
    refine ⟨e, ?_⟩
    rw [IndexWriter.openAt, hload, he]
    rfl

/-- A snapshot of generation 7 with nothing but a segments file, of a given name. -/
def sevenReader (name : String) : SnapshotReader where
  generation := 7
  files := []
  read name := .error (.missingFile name)
  segmentsFile := .ok (some (name, [120]))

/-- The segments file is found under its printed name. -/
theorem restored_generation_printed : ∃ next,
    (restore (.ok (sevenReader "segments_7"))).runFrom Directory.inMemory = (.ok 7, next) ∧
      Storage.read next (Commit.fileNameOf 7) = .ok [120] := by
  have hword : ∀ reader, Except.ok (ε := Error) (sevenReader "segments_7") = .ok reader →
      reader.generation ≤ uint64Max := by
    rintro reader ⟨rfl⟩
    decide
  refine ⟨_, rfl, ?_⟩
  obtain ⟨⟨reader, name, bytes, hreader, hfile, -, -, -, hprinted, -⟩, -⟩ :=
    restored_generation Directory.confined (d := .inMemory) Table.sorted_nil rfl hword
  obtain rfl := Except.ok.inj hreader
  obtain ⟨rfl, rfl⟩ := Prod.mk.inj (Option.some.inj (Except.ok.inj hfile))
  exact (hprinted rfl).1

/-- With a zero in its name it is not found, and the restored directory does not open. -/
theorem zeroed_name_not_found :
    Commit.generationOfName? "segments_07" = some 7 ∧ "segments_07" ≠ Commit.fileNameOf 7 ∧
      ∃ next,
        (restore (.ok (sevenReader "segments_07"))).runFrom Directory.inMemory = (.ok 7, next) ∧
        Storage.read next GenerationMarker.fileName = .ok (GenerationMarker.encode 7) ∧
        Storage.read next (Commit.fileNameOf 7) = .error (.missingFile "segments_7") ∧
        IndexWriter.openAt [] .lz4 next = .error (.missingFile "segments_7") := by
  exact ⟨by decide +kernel, by decide +kernel, _, rfl, rfl, rfl, rfl⟩

end DocIndex.Storage
