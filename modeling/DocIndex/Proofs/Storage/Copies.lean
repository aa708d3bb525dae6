/-
Copies of a commit, and archives that keep them.

A snapshot hands the segments of a commit to a target, one by one, and the segments file after
them.  All that a restored directory needs of the target and of the source that reads it is that
these files come back under their names; what they are kept in does not matter.

An archive keeps a copy in a folder of its generation, with a manifest of its files.  It gives
the copy back if no other generation in it is greater.
-/
import DocIndex.Proofs.Storage.Replaying
import DocIndex.Storage.Archive

namespace DocIndex.Storage

/-- A value that is there is taken without a change of the state. -/
theorem liftM_ok_bind {σ α β : Type} (value : α) (next : α → Step σ β) :
    (liftM (Except.ok value : Except Error α) : Step σ α) >>= next = next value := rfl

/-! ### Copies -/

/-- What a snapshot hands over: the segments of a commit, and the file that describes it. -/
structure Copy where
  generation : Nat
  segments : List (String × Bytes)
  segmentsFile : String × Bytes

/-- A snapshot that gives the files of a copy when it is read, in whatever order. -/
structure SnapshotReader.Gives (reader : SnapshotReader) (copy : Copy) : Prop where
  files : ∀ name, name ∈ reader.files ↔ name ∈ copy.segments.map Prod.fst
  read : ∀ file ∈ copy.segments, reader.read file.1 = .ok file.2
  segmentsFile : reader.segmentsFile = .ok (some copy.segmentsFile)

namespace Copy

section Taking

variable {σ τ : Type} [Storage σ] [SnapshotTarget τ]

/-- Hands segments to a target. -/
def handSegments : List (String × Bytes) → Step τ Unit
  | [] => pure ()
  | (name, bytes) :: rest => do
    SnapshotTarget.writeFile name bytes
    handSegments rest

/-- Hands a copy to a target, the segments file last. -/
def handTo (copy : Copy) : Step τ Unit := do
  SnapshotTarget.start copy.generation
  handSegments copy.segments
  SnapshotTarget.writeSegmentsFile copy.segmentsFile.1 copy.segmentsFile.2
  SnapshotTarget.finish

/-- A copy of the last commit of a directory. -/
structure Of (copy : Copy) (d : σ) (commit : Commit) : Prop where
  committed : Storage.committed d = .ok (copy.generation, copy.segmentsFile.2, commit)
  segments : copy.segments.map Prod.fst = commit.segments
  read : ∀ file ∈ copy.segments, Storage.read d file.1 = .ok file.2
  segmentsFile : copy.segmentsFile.1 = Commit.fileNameOf copy.generation

/-- A commit can be copied if its segments can be read. -/
theorem exists_of {d : σ} {generation : Nat} {bytes : Bytes} {commit : Commit}
    (hcommitted : Storage.committed d = .ok (generation, bytes, commit))
    (hread : ∀ name ∈ commit.segments, ∃ bytes, Storage.read d name = .ok bytes) :
    ∃ copy : Copy, copy.Of d commit ∧ copy.generation = generation ∧
      copy.segmentsFile.2 = bytes := by
  let file := fun name => (name, (Storage.read d name).toOption.getD [])
  refine ⟨⟨generation, commit.segments.map file, (Commit.fileNameOf generation, bytes)⟩, ?_, rfl,
    rfl⟩
  have hnames : (commit.segments.map file).map Prod.fst = commit.segments := by
    rw [List.map_map]
    exact List.map_id commit.segments
  refine ⟨hcommitted, hnames, fun entry hentry => ?_, rfl⟩
  obtain ⟨name, hname, rfl⟩ := List.mem_map.mp hentry
  obtain ⟨content, hcontent⟩ := hread name hname
  simp [file, hcontent, Except.toOption]

theorem copyFiles_eq {d : σ} : ∀ {files : List (String × Bytes)},
    (∀ file ∈ files, Storage.read d file.1 = .ok file.2) →
      (copyFiles d (files.map Prod.fst) : Step τ Unit) = handSegments files
  | [], _ => rfl
  | (name, bytes) :: rest, h => by
      have hfirst : Storage.read d name = .ok bytes := h (name, bytes) List.mem_cons_self
      have hrest := copyFiles_eq fun file hfile => h file (List.mem_cons_of_mem _ hfile)
      simp only [List.map_cons, copyFiles, handSegments, hfirst, hrest]
      rfl

/-- A snapshot hands a copy of the last commit over. -/
theorem Of.runFrom_snapshot {copy : Copy} {d : σ} {commit : Commit} (h : copy.Of d commit)
    {target filled : τ} (hhand : copy.handTo.runFrom target = (.ok (), filled)) :
    (snapshot d).runFrom target = (.ok copy.generation, filled) := by
  have hsnapshot : (snapshot d : Step τ Nat) = copy.handTo >>= fun _ => pure copy.generation := by
    simp only [snapshot, h.committed, liftM_ok_bind, ← h.segments, copyFiles_eq h.read, handTo,
      h.segmentsFile, bind_assoc]
  rw [hsnapshot, runFrom_bind hhand]
  rfl

end Taking

/-- A target takes a copy, and the source of what it holds then gives the files back. -/
def HandedBack {τ : Type} [SnapshotTarget τ] (copy : Copy) (target : τ)
    (source : τ → Except Error SnapshotReader) : Prop :=
  ∃ filled reader, copy.handTo.runFrom target = (.ok (), filled) ∧ source filled = .ok reader ∧
    reader.Gives copy

/-- The names of all files. -/
def names (copy : Copy) : List String := copy.segments.map Prod.fst ++ [copy.segmentsFile.1]

end Copy

/-! ### Manifests -/

namespace Manifest

open Json

variable {manifest : Manifest}

theorem ofJson?_toJson (hgeneration : manifest.generation ≤ uint64Max)
    (hcreated : manifest.createdAt.Regular) :
    ofJson? manifest.toJson = some { manifest with createdAt := manifest.createdAt.utc } := by
  have hmoment := readMoment?_writeUtc hcreated
  have hnatural := natural?_natCast hgeneration
  have htexts := texts?_map manifest.files
  obtain ⟨generation, createdAt, files, segmentsFile⟩ := manifest
  cases segmentsFile <;>
    simp [ofJson?, toJson, Member.ofRecord?, Member.once?, Member.optional?,
      Member.optionalText?, hnatural, htexts, hmoment]

theorem legible_toJson (hgeneration : manifest.generation ≤ uint64Max) :
    manifest.toJson.Legible maxDepth := by
  have hfiles := legible_texts manifest.files (by decide : 0 < 126)
  refine ⟨by decide, legible_natCast hgeneration 126, trivial, hfiles, ?_, trivial⟩
  cases manifest.segmentsFile <;> trivial

/-- A manifest is read back, with its time in UTC. -/
theorem ofBytes_toBytes (manifest : Manifest) (hgeneration : manifest.generation ≤ uint64Max)
    (hcreated : manifest.createdAt.Regular) :
    ofBytes manifest.toBytes = .ok { manifest with createdAt := manifest.createdAt.utc } := by
  rw [ofBytes, toBytes, Bytes.toText?_ofText, Option.bind_some,
    Json.parseWritten?_writeIndented (legible_toJson hgeneration), Option.bind_some,
    ofJson?_toJson hgeneration hcreated]

end Manifest

/-! ### Archives -/

namespace Archive

variable {archive next : Archive} {generation : Nat}

/-- An archive after files were put into the folder of a generation. -/
structure Filled (archive : Archive) (generation : Nat) (files : List (String × Bytes))
    (next : Archive) : Prop where
  has : ∀ file ∈ files, next.readFrom (folderOf generation) file.1 = .ok file.2
  kept : ∀ name ∉ files.map Prod.fst,
    next.readFrom (folderOf generation) name = archive.readFrom (folderOf generation) name
  others : ∀ entry ∈ next.folders, entry.1 = folderOf generation ∨ entry ∈ archive.folders

theorem Filled.append {middle : Archive} {first second : List (String × Bytes)}
    (hfirst : archive.Filled generation first middle)
    (hsecond : middle.Filled generation second next)
    (hnew : ∀ file ∈ first, file.1 ∉ second.map Prod.fst) :
    archive.Filled generation (first ++ second) next where
  has := by
    intro file hfile
    rcases List.mem_append.mp hfile with hfile | hfile
    · rw [hsecond.kept _ (hnew file hfile), hfirst.has file hfile]
    · exact hsecond.has file hfile
  kept := by
    intro name hname
    rw [List.map_append, List.mem_append, not_or] at hname
    rw [hsecond.kept name hname.2, hfirst.kept name hname.1]
  others := by
    intro entry hentry
    rcases hsecond.others entry hentry with hfolder | hentry
    · exact .inl hfolder
    · exact hfirst.others entry hentry

/-- A file that may stand in the open folder is put there. -/
theorem write_ok (archive : Archive) {name : String} (hname : allows name = true) (bytes : Bytes)
    (note : Manifest → Manifest) :
    ∃ next, archive.write name bytes note = (.ok (), next) ∧ next.draft = note archive.draft ∧
      archive.Filled archive.draft.generation [(name, bytes)] next := by
  refine ⟨_, if_pos hname, rfl, ?_, fun other hother => ?_, fun entry hentry => ?_⟩
  · intro file hfile
    obtain rfl := List.mem_singleton.mp hfile
    simp [readFrom, putFile]
  · have hne : other ≠ name := by simpa using hother
    simp only [readFrom, putFile, Table.find?_alter_self, Option.bind_some,
      Table.find?_insert_ne _ hne]
    cases Table.find? archive.folders (folderOf archive.draft.generation) <;> simp
  · rcases Table.mem_alter hentry with ⟨old, rfl⟩ | hentry
    · exact .inl rfl
    · exact .inr hentry

/-- Segments are put into the open folder, and noted. -/
theorem handSegments_ok : ∀ {files : List (String × Bytes)} (archive : Archive),
    (∀ file ∈ files, allows file.1 = true) → (files.map Prod.fst).Nodup →
      ∃ next, (Copy.handSegments files).runFrom archive = (.ok (), next) ∧
        next.draft = { archive.draft with
          files := archive.draft.files ++ files.map Prod.fst } ∧
        archive.Filled archive.draft.generation files next
  | [], archive, _, _ => ⟨archive, rfl, by simp, by simp, fun _ _ => rfl, fun _ h => .inr h⟩
  | (name, bytes) :: rest, archive, hallows, hnodup => by
      obtain ⟨hnew, hrest⟩ := List.nodup_cons.mp hnodup
      obtain ⟨middle, hwrite, hdraft, hfilled⟩ := write_ok archive
        (hallows (name, bytes) List.mem_cons_self) bytes
        fun draft => { draft with files := draft.files ++ [name] }
      obtain ⟨next, hrun, hnext, hothers⟩ := handSegments_ok middle
        (fun file hfile => hallows file (List.mem_cons_of_mem _ hfile)) hrest
      have hfile : (SnapshotTarget.writeFile name bytes : Step Archive Unit).runFrom archive
          = (.ok (), middle) := hwrite
      refine ⟨next, ?_, ?_, ?_⟩
      · rw [Copy.handSegments, runFrom_bind hfile, hrun]
      · rw [hnext, hdraft]
        simp
      · rw [hdraft] at hothers
        exact hfilled.append hothers (by simpa using hnew)

/-- An archive that can take a copy, which then is the newest one in it. -/
structure Accepts (archive : Archive) (copy : Copy) : Prop where
  newest : ∀ generation ∈ archive.generations, generation ≤ copy.generation
  time : archive.now.Regular
  generation : copy.generation ≤ uint64Max
  allowed : ∀ name ∈ copy.names, allows name = true ∧ name ≠ Manifest.fileName
  distinct : copy.names.Nodup

/-- The manifest of a copy. -/
def manifestOf (archive : Archive) (copy : Copy) : Manifest :=
  ⟨copy.generation, archive.now, copy.segments.map Prod.fst, some copy.segmentsFile.1⟩

/-- The folder of a copy holds its files and their manifest, and no other folder is touched. -/
theorem handTo_ok {copy : Copy} (h : archive.Accepts copy) :
    ∃ filled, copy.handTo.runFrom archive = (.ok (), filled) ∧
      (∀ file ∈ copy.segments ++ [copy.segmentsFile]
          ++ [(Manifest.fileName, (archive.manifestOf copy).toBytes)],
        filled.readFrom (folderOf copy.generation) file.1 = .ok file.2) ∧
      ∀ entry ∈ filled.folders, entry.1 = folderOf copy.generation ∨ entry ∈ archive.folders := by
  have hallowed : ∀ name ∈ copy.names, allows name = true := fun name hname =>
    (h.allowed name hname).1
  obtain ⟨hnodup, -, hapart⟩ := List.nodup_append.mp h.distinct
  let started : Archive := { archive with
    folders := Table.insert archive.folders (folderOf copy.generation) []
    draft := ⟨copy.generation, archive.now, [], none⟩ }
  obtain ⟨d₁, hrun₁, hdraft₁, hfilled₁⟩ := handSegments_ok started
    (fun file hfile => hallowed _ (List.mem_append_left _ (List.mem_map_of_mem hfile))) hnodup
  obtain ⟨d₂, hrun₂, hdraft₂, hfilled₂⟩ := write_ok d₁
    (hallowed copy.segmentsFile.1 (List.mem_append_right _ List.mem_cons_self))
    copy.segmentsFile.2 fun draft => { draft with segmentsFile := some copy.segmentsFile.1 }
  obtain ⟨d₃, hrun₃, -, hfilled₃⟩ := write_ok d₂
    (by decide : allows Manifest.fileName = true) d₂.draft.toBytes id
  -- By now every file is noted, and the manifest goes into the same folder.
  have hmanifest : d₂.draft = archive.manifestOf copy := by
    rw [hdraft₂, hdraft₁]
    simp [started, manifestOf]
  have hopen₁ : d₁.draft.generation = copy.generation := by rw [hdraft₁]
  have hopen₂ : d₂.draft.generation = copy.generation := by rw [hmanifest, manifestOf]
  rw [hopen₁] at hfilled₂
  rw [hopen₂, hmanifest] at hfilled₃
  have hfilled := (hfilled₁.append hfilled₂ fun file hfile => by
    simpa using hapart _ (List.mem_map_of_mem hfile) copy.segmentsFile.1).append hfilled₃
      fun file hfile => by
        have hnames : copy.names = (copy.segments ++ [copy.segmentsFile]).map Prod.fst := by
          simp [Copy.names]
        simpa using (h.allowed _ (hnames ▸ List.mem_map_of_mem hfile)).2
  have hstart : (SnapshotTarget.start copy.generation : Step Archive Unit).runFrom archive
      = (.ok (), started) := rfl
  have hsegments : (SnapshotTarget.writeSegmentsFile copy.segmentsFile.1 copy.segmentsFile.2 :
      Step Archive Unit).runFrom d₁ = (.ok (), d₂) := hrun₂
  have hfinish : (SnapshotTarget.finish : Step Archive Unit).runFrom d₂ = (.ok (), d₃) := hrun₃
  refine ⟨d₃, ?_, hfilled.has, fun entry hentry => ?_⟩
  · rw [Copy.handTo, runFrom_bind hstart, runFrom_bind hrun₁, runFrom_bind hsegments, hfinish]
  · rcases hfilled.others entry hentry with hfolder | hentry
    · exact .inl hfolder
    · rcases Table.mem_insert hentry with rfl | hold
      · exact .inl rfl
      · exact .inr hold

/-- A folder with a manifest is a snapshot of the generation that it is named by. -/
theorem mem_generations {name : String} {bytes : Bytes}
    (hread : archive.readFrom name Manifest.fileName = .ok bytes)
    (hname : readUInt64? name.toList = some generation) : generation ∈ archive.generations := by
  unfold readFrom at hread
  cases hfolder : Table.find? archive.folders name with
  | none => simp [hfolder] at hread
  | some files =>
      rw [hfolder] at hread
      have hmanifest : Table.contains files Manifest.fileName = true := by
        unfold Table.contains
        cases hfile : Table.find? files Manifest.fileName with
        | none => simp [hfile] at hread
        | some bytes => rfl
      exact List.mem_filterMap.mpr
        ⟨(name, files), Table.mem_of_find? hfolder, by simp [hmanifest, hname]⟩

/-- **An archive gives a copy back** that is newer than what is in it. -/
theorem handedBack {copy : Copy} (h : archive.Accepts copy) :
    copy.HandedBack archive Archive.reader := by
  obtain ⟨filled, hrun, hread, hothers⟩ := handTo_ok h
  have hfolder := readUInt64?_toString h.generation
  have hmanifest : filled.readFrom (folderOf copy.generation) Manifest.fileName
      = .ok (archive.manifestOf copy).toBytes :=
    hread (Manifest.fileName, _) (List.mem_append_right _ List.mem_cons_self)
  have hsegments : filled.readFrom (folderOf copy.generation) copy.segmentsFile.1
      = .ok copy.segmentsFile.2 := hread copy.segmentsFile (by simp)
  have hnewest : filled.newest? = some copy.generation := by
    refine List.max?_eq_some_iff.mpr ⟨mem_generations hmanifest hfolder, fun other hother => ?_⟩
    obtain ⟨⟨name, files⟩, hentry, hnumber⟩ := List.mem_filterMap.mp hother
    rcases hothers _ hentry with hname | hold
    · obtain rfl : name = folderOf copy.generation := hname
      obtain ⟨-, hnumber⟩ := Option.ite_none_right_eq_some.mp hnumber
      exact le_of_eq (Option.some.inj (hnumber.symm.trans hfolder))
    · exact h.newest other (List.mem_filterMap.mpr ⟨_, hold, hnumber⟩)
  have hdecoded := (archive.manifestOf copy).ofBytes_toBytes h.generation h.time
  let found : SnapshotReader := {
    generation := copy.generation
    files := copy.segments.map Prod.fst
    read := filled.readFrom (folderOf copy.generation)
    segmentsFile := .ok (some copy.segmentsFile) }
  have hfound : filled.reader = .ok found := by
    simp only [reader, hnewest, hmanifest, bind, Except.bind, hdecoded]
    simp only [manifestOf, hsegments]
    rfl
  exact ⟨filled, found, hrun, hfound, fun _ => Iff.rfl, fun file hfile =>
    hread file (by simp [hfile]), rfl⟩

end Archive

end DocIndex.Storage
