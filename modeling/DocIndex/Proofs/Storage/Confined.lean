/-
Directories whose operations touch one file each, whether they succeed or not.

Of a reliable directory it is known what an operation does when it succeeds.  Of a confined one it
is known what an operation can have done when it fails: a file that was to be deleted is there or
not, a file that was to be written has the old content or the new one, and every other file is as
it was.  Directories in memory and on disk are confined, and they stay so if any of their
operations may have no effect.  What a restore leaves behind follows from this wherever it stops.
-/
import DocIndex.Proofs.Storage.Unreliable
import DocIndex.Storage.Snapshot

namespace DocIndex.Storage

/-! ### Confined storages -/

/-- The files that tell what was committed. -/
inductive CommitFile : String → Prop
  | marker : CommitFile GenerationMarker.fileName
  | commit (generation : Nat) : CommitFile (Commit.fileNameOf generation)

theorem CommitFile.indexFile {name : String} (h : CommitFile name) : IndexFile name := by
  cases h with
  | marker => exact .marker
  | commit generation => exact .commit generation

section Laws

variable {σ : Type} [Storage σ]

/-- Reading the file is an error. -/
def Unreadable (d : σ) (name : String) : Prop := ∃ e, Storage.read d name = .error e

theorem unreadable_iff {d : σ} {name : String} :
    Unreadable d name ↔ ∀ bytes, Storage.read d name ≠ .ok bytes := by
  unfold Unreadable
  cases Storage.read d name <;> simp

/-- A storage whose operations touch one file each, as long as it is in a state of the kind. -/
structure Confined (σ : Type) [Storage σ] (usable : σ → Prop) : Prop where
  /-- The files that are there are those that can be read. -/
  hasFile : ∀ {d}, usable d → ∀ {name}, IndexFile name →
    (Storage.hasFile d name = true ↔ ∃ bytes, Storage.read d name = .ok bytes)
  /-- The files that tell what was committed are listed. -/
  list : ∀ {d}, usable d → ∀ {names}, Storage.list d = .ok names → ∀ {name}, CommitFile name →
    name ∉ names → Unreadable d name
  delete : ∀ {d}, usable d → ∀ name, Leaves (Storage.delete name : Step σ Unit) d
    (fun _ next => usable next ∧ (∀ other ≠ name, Storage.read next other = Storage.read d other) ∧
      Unreadable next name)
    (fun next => usable next ∧ (∀ other ≠ name, Storage.read next other = Storage.read d other) ∧
      (Storage.read next name = Storage.read d name ∨ Unreadable next name))
  write : ∀ {d}, usable d → ∀ name bytes, Leaves (Storage.write name bytes : Step σ Unit) d
    (fun _ next => usable next ∧ Spares [name] d next ∧
      (IndexFile name → Storage.read next name = .ok bytes))
    (fun next => usable next ∧ Spares [name] d next ∧
      (IndexFile name →
        Storage.read next name = Storage.read d name ∨ Storage.read next name = .ok bytes))
  sync : ∀ {d}, usable d → Leaves (Storage.sync : Step σ Unit) d
    (fun _ next => usable next ∧ Spares [] d next) (fun next => usable next ∧ Spares [] d next)

end Laws

/-! ### Directories in memory and on disk -/

namespace Directory

variable {d next : Directory} {name : String}

theorem read_eq (d : Directory) (name : String) : Storage.read d name
    = match Table.find? d.files name with
      | some bytes => .ok bytes
      | none =>
        .error (if d.folders.contains name then .inaccessible name else .missingFile name) := rfl

theorem read_ok {bytes : Bytes} (h : Table.find? d.files name = some bytes) :
    Storage.read d name = .ok bytes := by
  rw [read_eq, h]

theorem unreadable (h : Table.find? d.files name = none) : Unreadable d name := by
  rw [Unreadable, read_eq, h]
  exact ⟨_, rfl⟩

/-- What is read depends on the entry of the table and on the directories. -/
theorem read_congr (hfolders : next.folders = d.folders)
    (hfind : Table.find? next.files name = Table.find? d.files name) :
    Storage.read next name = Storage.read d name := by
  rw [read_eq, read_eq, hfolders, hfind]

/-- The name of a temporary file ends like that of no file of an index. -/
theorem not_temporary {file : String} (h : IndexFile file) (front : List Char) :
    file.toList ≠ front ++ temporaryEnd.toList := by
  intro heq
  have hlast : file.toList.getLast? = some 'p' := by
    rw [heq, List.getLast?_append]
    rfl
  cases h with
  | marker => exact absurd hlast (by decide)
  | commit generation =>
      obtain ⟨digit, hdigit, hisDigit⟩ := exists_getLast?_commit generation
      rw [hdigit] at hlast
      obtain rfl := Option.some.inj hlast
      exact absurd hisDigit (by decide)
  | segment name =>
      rw [getLast?_segment] at hlast
      exact absurd hlast (by decide)

theorem ne_temporary {file : String} (h : IndexFile file) (name : String) :
    file ≠ name ++ temporaryEnd := by
  intro heq
  refine not_temporary h name.toList ?_
  rw [heq, String.toList_append]

/-- The files that tell what was committed are hidden nowhere. -/
theorem isListed_of_commitFile (h : CommitFile name) : isListed name = true := by
  have hsuffix : temporaryEnd.toList.isSuffixOf name.toList = false := by
    refine Bool.eq_false_iff.mpr fun hsuffix => ?_
    obtain ⟨front, hfront⟩ := List.isSuffixOf_iff_suffix.mp hsuffix
    exact not_temporary h.indexFile front hfront.symm
  have hlock : name ≠ lockFile := by
    rintro rfl
    generalize hname : lockFile = name at h
    cases h with
    | marker => exact absurd hname (by decide)
    | commit generation =>
        obtain ⟨digit, hdigit, hisDigit⟩ := exists_getLast?_commit generation
        rw [← hname] at hdigit
        obtain rfl : 'k' = digit := Option.some.inj hdigit
        exact absurd hisDigit (by decide)
  have hslash : '/' ∉ name.toList := by
    cases h with
    | marker => decide
    | commit generation =>
        rw [Commit.fileNameOf, String.toList_append, List.mem_append, not_or]
        refine ⟨by decide, fun hmem => ?_⟩
        have hdigits : (toString generation).toList = Nat.toDigits 10 generation :=
          Nat.toList_repr
        rw [hdigits] at hmem
        exact absurd (Nat.isDigit_of_mem_toDigits (by decide) (by decide) hmem) (by decide)
  simp [isListed, hsuffix, hlock, hslash]

/-- A list of the directory has every file that tells what was committed. -/
theorem mem_list (hsorted : Table.Sorted d.files) (hname : CommitFile name) {bytes : Bytes}
    (h : Table.find? d.files name = some bytes) : name ∈ d.list := by
  have hkey : name ∈ Table.keys d.files := (Table.mem_keys_iff hsorted).mpr ⟨bytes, h⟩
  unfold list
  cases d.medium with
  | memory => exact hkey
  | disk => exact List.mem_filter.mpr ⟨hkey, isListed_of_commitFile hname⟩

/-- Directories of either kind are confined. -/
theorem confined : Confined Directory fun d => Table.Sorted d.files where
  hasFile := by
    intro d _ name _
    show Table.contains d.files name = true ↔ _
    rw [Table.contains, read_eq]
    cases Table.find? d.files name <;> simp
  list := by
    intro d hsorted names hlist name hname hnot
    cases hfind : Table.find? d.files name with
    | none => exact unreadable hfind
    | some bytes =>
        have hnames : d.list = names := Except.ok.inj hlist
        exact absurd (hnames ▸ mem_list hsorted hname hfind) hnot
  delete := by
    intro d hsorted name
    cases hfind : Table.find? d.files name with
    | none =>
        obtain ⟨e, he⟩ := unreadable hfind
        have hdelete : d.delete name = (.error e, d) := by
          rw [delete, show d.read name = .error e from he]
        exact .error hdelete ⟨hsorted, fun _ _ => rfl, .inl rfl⟩
    | some bytes =>
        have hdelete : d.delete name = (.ok (),
            { d with files := Table.erase d.files name, locked := d.keepLock name }) := by
          rw [delete, show d.read name = .ok bytes from read_ok hfind]
        exact .ok hdelete ⟨Table.sorted_erase hsorted name,
          fun other hother => read_congr rfl (Table.find?_erase_ne hsorted hother),
          unreadable (Table.find?_erase_self hsorted name)⟩
  write := by
    intro d hsorted name bytes
    cases hmedium : d.medium with
    | memory =>
        have hwrite : d.write name bytes
            = (.ok (), { d with files := Table.insert d.files name bytes }) := by
          rw [write, hmedium]
        exact .ok hwrite ⟨Table.sorted_insert hsorted _ _,
          fun other _ hother => read_congr rfl
            (Table.find?_insert_ne _ (List.mem_singleton.not.mp hother) _),
          fun _ => read_ok (Table.find?_insert_self _ _ _)⟩
    | disk =>
        have hwrite : d.write name bytes = d.replace name bytes := by
          rw [write, hmedium]
        rw [replace] at hwrite
        split at hwrite
        · exact .error hwrite ⟨hsorted, fun _ _ _ => rfl, fun _ => .inl rfl⟩
        split at hwrite
        -- The temporary file is left behind, and it is none of the index.
        · have hkept : ∀ other, IndexFile other → Storage.read { d with
              files := Table.insert d.files (name ++ temporaryEnd) bytes } other
                = Storage.read d other := fun other hother =>
            read_congr rfl (Table.find?_insert_ne _ (ne_temporary hother name) _)
          exact .error hwrite ⟨Table.sorted_insert hsorted _ _, fun other hother _ =>
            hkept other hother, fun hname => .inl (hkept name hname)⟩
        · refine .ok hwrite ⟨Table.sorted_insert (Table.sorted_erase hsorted _) _ _,
            fun other hother hne => read_congr rfl ?_,
            fun _ => read_ok (Table.find?_insert_self _ _ _)⟩
          rw [Table.find?_insert_ne _ (List.mem_singleton.not.mp hne),
            Table.find?_erase_ne hsorted (ne_temporary hother name)]
  sync := fun {d} hsorted => ⟨hsorted, fun _ _ _ => rfl⟩

end Directory

/-! ### Operations that may have no effect -/

/-- A confined storage stays so if any of its operations may have no effect. -/
theorem Confined.unreliable {σ : Type} [Storage σ] {usable : σ → Prop} (h : Confined σ usable) :
    Confined (Unreliable σ) fun state => usable state.inner where
  hasFile := fun hd => h.hasFile hd
  list := fun hd _ hlist => h.list hd hlist
  delete := fun hd name =>
    Unreliable.leaves_perform ⟨hd, fun _ _ => rfl, .inl rfl⟩ (h.delete hd name)
  write := fun hd name bytes =>
    Unreliable.leaves_perform ⟨hd, fun _ _ _ => rfl, fun _ => .inl rfl⟩ (h.write hd name bytes)
  sync := fun hd => Unreliable.leaves_perform ⟨hd, fun _ _ _ => rfl⟩ (h.sync hd)

/-! ### What a restore leaves -/

section Restoring

variable {σ : Type} [Storage σ] {usable : σ → Prop} {d : σ}

/-- Every file is as it was, or can no longer be read. -/
def Thinned (d next : σ) : Prop :=
  ∀ name, Storage.read next name = Storage.read d name ∨ Unreadable next name

theorem Thinned.refl (d : σ) : Thinned d d := fun _ => .inl rfl

theorem Thinned.trans {middle next : σ} (h : Thinned d middle) (hnext : Thinned middle next) :
    Thinned d next := by
  intro name
  rcases hnext name with hsame | hgone
  · rcases h name with hold | ⟨e, he⟩
    · exact .inl (hsame.trans hold)
    · exact .inr ⟨e, hsame.trans he⟩
  · exact .inr hgone

/-- What cannot be read stays so. -/
theorem Thinned.unreadable {next : σ} (h : Thinned d next) {name : String}
    (hgone : Unreadable d name) : Unreadable next name := by
  obtain ⟨e, he⟩ := hgone
  rcases h name with hsame | hgone
  · exact ⟨e, hsame.trans he⟩
  · exact hgone

/-- If other files are as they were, then the one file decides. -/
theorem thinned_of_others {next : σ} {name : String}
    (hothers : ∀ other ≠ name, Storage.read next other = Storage.read d other)
    (hown : Storage.read next name = Storage.read d name ∨ Unreadable next name) :
    Thinned d next := by
  intro other
  by_cases heq : other = name
  · exact heq ▸ hown
  · exact .inl (hothers other heq)

/-- Deleting files takes files away and does nothing else, wherever it stops. -/
theorem leaves_deleteFiles (hc : Confined σ usable) : ∀ {names : List String} {d : σ}, usable d →
    Leaves (deleteFiles names : Step σ Unit) d
      (fun _ next => usable next ∧ Thinned d next ∧ ∀ name ∈ names, Unreadable next name)
      (fun next => usable next ∧ Thinned d next)
  | [], d, hd => .pure ⟨hd, .refl d, List.forall_mem_nil _⟩
  | name :: rest, d, hd => by
      rw [deleteFiles]
      refine .bind (fun _ next => usable next ∧ Thinned d next ∧ Unreadable next name)
        ?_ fun _ middle h => ?_
      · refine (hc.delete hd name).imp ?_ ?_
        · rintro _ next ⟨hnext, hothers, hgone⟩
          exact ⟨hnext, thinned_of_others hothers (.inr hgone), hgone⟩
        · rintro next ⟨hnext, hothers, hown⟩
          exact ⟨hnext, thinned_of_others hothers hown⟩
      · obtain ⟨hmiddle, hfirst, hgone⟩ := h
        refine (leaves_deleteFiles hc hmiddle).imp ?_ ?_
        · rintro _ next ⟨hnext, hrest, hall⟩
          exact ⟨hnext, hfirst.trans hrest, List.forall_mem_cons.mpr ⟨hrest.unreadable hgone, hall⟩⟩
        · rintro next ⟨hnext, hrest⟩
          exact ⟨hnext, hfirst.trans hrest⟩

theorem Spares.mono {files more : List String} {next : σ} (h : Spares files d next)
    (hmore : files ⊆ more) : Spares more d next :=
  fun other hother hnot => h other hother fun hmem => hnot (hmore hmem)

theorem Spares.trans {middle next : σ} {first second : List String} (h : Spares first d middle)
    (hnext : Spares second middle next) : Spares (first ++ second) d next := by
  intro other hother hnot
  rw [List.mem_append, not_or] at hnot
  rw [hnext other hother hnot.2, h other hother hnot.1]

theorem Spares.read_of_nil {next : σ} (h : Spares [] d next) {name : String}
    (hname : IndexFile name) : Storage.read next name = Storage.read d name :=
  h name hname List.not_mem_nil

theorem Spares.read_of_ne {next : σ} {file name : String} (h : Spares [file] d next)
    (hname : IndexFile name) (hne : name ≠ file) : Storage.read next name = Storage.read d name :=
  h name hname (List.mem_singleton.not.mpr hne)

/-- Writing the files of a snapshot touches no others, wherever it stops. -/
theorem leaves_writeFiles (hc : Confined σ usable) (reader : SnapshotReader) :
    ∀ {names : List String} {d : σ}, usable d → Leaves (writeFiles reader names : Step σ Unit) d
      (fun _ next => usable next ∧ Spares names d next ∧ ∀ name ∈ names, IndexFile name →
        ∃ bytes, reader.read name = .ok bytes ∧ Storage.read next name = .ok bytes)
      (fun next => usable next ∧ Spares names d next)
  | [], d, hd => .pure ⟨hd, fun _ _ _ => rfl, List.forall_mem_nil _⟩
  | name :: rest, d, hd => by
      have hhead : [name] ⊆ name :: rest :=
        List.cons_subset_cons name (List.nil_subset rest)
      rw [writeFiles]
      refine .bind _ (.lift ⟨hd, fun _ _ _ => rfl⟩) fun bytes middle h => ?_
      obtain ⟨hread, rfl⟩ := h
      refine .bind (fun _ next => usable next ∧ Spares [name] middle next ∧
        (IndexFile name → Storage.read next name = .ok bytes)) ?_ fun _ first h => ?_
      · refine (hc.write hd name bytes).imp (fun _ _ h => h) ?_
        rintro next ⟨hnext, hspares, -⟩
        exact ⟨hnext, hspares.mono hhead⟩
      · obtain ⟨hfirst, hspares, hown⟩ := h
        refine (leaves_writeFiles hc reader hfirst).imp ?_ ?_
        · rintro _ next ⟨hnext, hrest, hall⟩
          refine ⟨hnext, hspares.trans hrest, fun other hother hindex => ?_⟩
          by_cases hlater : other ∈ rest
          · exact hall other hlater hindex
          · obtain rfl : other = name := (List.mem_cons.mp hother).resolve_right hlater
            exact ⟨bytes, hread, (hrest other hindex hlater).trans (hown hindex)⟩
        · rintro next ⟨hnext, hrest⟩
          exact ⟨hnext, hspares.trans hrest⟩

/-- The generation that a snapshot is restored as: the one in the name of its segments file. -/
def SnapshotReader.numberOf (reader : SnapshotReader) (file : String × Bytes) : Nat :=
  (Commit.generationOfName? file.1).getD reader.generation

/-- A directory that everything of a snapshot was written to after it was cleared. -/
structure Replaced (reader : SnapshotReader) (file : String × Bytes) (next : σ) : Prop where
  marker : Storage.read next GenerationMarker.fileName
    = .ok (GenerationMarker.encode (reader.numberOf file))
  segmentsFile : IndexFile file.1 → file.1 ≠ GenerationMarker.fileName →
    Storage.read next file.1 = .ok file.2
  files : ∀ name ∈ reader.files, IndexFile name → name ≠ GenerationMarker.fileName →
    name ≠ file.1 → ∃ bytes, reader.read name = .ok bytes ∧ Storage.read next name = .ok bytes
  cleared : ∀ {name}, CommitFile name → name ∉ GenerationMarker.fileName :: file.1 :: reader.files →
    Unreadable next name

theorem requireSegmentsFile_eq_ok {reader : SnapshotReader} {file : String × Bytes}
    (h : requireSegmentsFile reader = .ok file) : reader.segmentsFile = .ok (some file) := by
  unfold requireSegmentsFile at h
  split at h
  · rename_i found hfound
    rw [hfound, Except.ok.inj h]
  · cases h
  · cases h

/-- Everything of a snapshot but the marker was written to a cleared directory. -/
structure Awaiting (reader : SnapshotReader) (file : String × Bytes) (next : σ) : Prop where
  segmentsFile : IndexFile file.1 → Storage.read next file.1 = .ok file.2
  files : ∀ name ∈ reader.files, IndexFile name → name ≠ file.1 →
    ∃ bytes, reader.read name = .ok bytes ∧ Storage.read next name = .ok bytes
  cleared : ∀ {name}, CommitFile name → name ∉ file.1 :: reader.files → Unreadable next name

/-- The marker completes what was written. -/
theorem Awaiting.replaced {reader : SnapshotReader} {file : String × Bytes} {next : σ}
    (h : Awaiting reader file d) (hspares : Spares [GenerationMarker.fileName] d next)
    (hmarker : Storage.read next GenerationMarker.fileName
      = .ok (GenerationMarker.encode (reader.numberOf file))) : Replaced reader file next where
  marker := hmarker
  segmentsFile := fun hname hne => (hspares.read_of_ne hname hne).trans (h.segmentsFile hname)
  files := by
    intro name hname hindex hmarker hne
    obtain ⟨bytes, hread, hthere⟩ := h.files name hname hindex hne
    exact ⟨bytes, hread, (hspares.read_of_ne hindex hmarker).trans hthere⟩
  cleared := by
    intro name hname hnot
    rw [List.mem_cons, not_or] at hnot
    obtain ⟨hmarker, hnot⟩ := hnot
    obtain ⟨e, he⟩ := h.cleared hname hnot
    exact ⟨e, (hspares.read_of_ne hname.indexFile hmarker).trans he⟩

theorem Spares.unreadable {files : List String} {next : σ} (h : Spares files d next)
    {name : String} (hname : IndexFile name) (hnot : name ∉ files) (hgone : Unreadable d name) :
    Unreadable next name := by
  obtain ⟨e, he⟩ := hgone
  exact ⟨e, (h name hname hnot).trans he⟩

/-- Writes everything of a snapshot but the marker. -/
def fill (reader : SnapshotReader) (file : String × Bytes) : Step σ Unit := do
  writeFiles reader reader.files
  Storage.sync
  Storage.write file.1 file.2
  Storage.sync

/-- Writes the marker of a generation. -/
def mark (generation : Nat) : Step σ Nat := do
  Storage.write GenerationMarker.fileName (GenerationMarker.encode generation)
  Storage.sync
  return generation

theorem restore_eq (source : Except Error SnapshotReader) :
    (restore source : Step σ Nat) = (do
      let reader ← source
      let file ← requireSegmentsFile reader
      deleteFiles (← Storage.list (← get))
      fill reader file
      mark (reader.numberOf file)) := by
  simp only [restore, fill, mark, SnapshotReader.numberOf, bind_assoc]

/-- Files of other names than those of the snapshot are spared until the marker is written. -/
theorem leaves_fill (hc : Confined σ usable) (hd : usable d)
    (hcleared : ∀ {name}, CommitFile name → Unreadable d name) (reader : SnapshotReader)
    (file : String × Bytes) :
    Leaves (fill reader file) d
      (fun _ next => usable next ∧ Spares (reader.files ++ [file.1]) d next ∧
        Awaiting reader file next)
      (fun next => usable next ∧ Spares (reader.files ++ [file.1]) d next) := by
  rw [fill]
  refine .bind (fun _ next => usable next ∧ Spares reader.files d next ∧
    ∀ name ∈ reader.files, IndexFile name →
      ∃ bytes, reader.read name = .ok bytes ∧ Storage.read next name = .ok bytes) ?_ ?_
  · refine (leaves_writeFiles hc reader hd).imp (fun _ _ h => h) ?_
    rintro next ⟨hnext, hspares⟩
    exact ⟨hnext, hspares.mono (List.subset_append_left _ _)⟩
  rintro - d₁ ⟨h₁, hspares₁, hread₁⟩
  refine .bind (fun _ next => usable next ∧ Spares [] d₁ next) ?_ ?_
  · refine (hc.sync h₁).imp (fun _ _ h => h) ?_
    rintro next ⟨hnext, hspares⟩
    exact ⟨hnext, (hspares₁.trans hspares).mono (by simp)⟩
  rintro - d₂ ⟨h₂, hspares₂⟩
  refine .bind (fun _ next => usable next ∧ Spares [file.1] d₂ next ∧
    (IndexFile file.1 → Storage.read next file.1 = .ok file.2)) ?_ ?_
  · refine (hc.write h₂ file.1 file.2).imp (fun _ _ h => h) ?_
    rintro next ⟨hnext, hspares, -⟩
    exact ⟨hnext, ((hspares₁.trans hspares₂).trans hspares).mono (by simp)⟩
  rintro - d₃ ⟨h₃, hspares₃, hown₃⟩
  have hspares : ∀ {next}, Spares [] d₃ next → Spares (reader.files ++ [file.1]) d next :=
    fun hnext => (((hspares₁.trans hspares₂).trans hspares₃).trans hnext).mono (by simp)
  refine (hc.sync h₃).imp ?_ ?_
  · rintro - next ⟨hnext, hlast⟩
    refine ⟨hnext, hspares hlast, ?_, ?_, ?_⟩
    · exact fun hname => (hlast.read_of_nil hname).trans (hown₃ hname)
    · intro name hname hindex hne
      obtain ⟨bytes, hread, hthere⟩ := hread₁ name hname hindex
      refine ⟨bytes, hread, ?_⟩
      rw [hlast.read_of_nil hindex, hspares₃.read_of_ne hindex hne, hspares₂.read_of_nil hindex,
        hthere]
    · intro name hname hnot
      refine (hspares hlast).unreadable hname.indexFile ?_ (hcleared hname)
      simpa [or_comm] using hnot
  · rintro next ⟨hnext, hlast⟩
    exact ⟨hnext, hspares hlast⟩

/-- Writing the marker completes the snapshot or leaves the marker as it was. -/
theorem leaves_mark (hc : Confined σ usable) (hd : usable d) {reader : SnapshotReader}
    {file : String × Bytes} (hawaiting : Awaiting reader file d) :
    Leaves (mark (reader.numberOf file)) d
      (fun generation next =>
        usable next ∧ generation = reader.numberOf file ∧ Replaced reader file next)
      (fun next => usable next ∧ (Replaced reader file next ∨
        Storage.read next GenerationMarker.fileName
          = Storage.read d GenerationMarker.fileName)) := by
  rw [mark]
  refine .bind (fun _ next => usable next ∧
    Spares [GenerationMarker.fileName] d next ∧ Storage.read next GenerationMarker.fileName
      = .ok (GenerationMarker.encode (reader.numberOf file))) ?_ ?_
  · refine (hc.write hd _ _).imp ?_ ?_
    · exact fun _ next h => ⟨h.1, h.2.1, h.2.2 .marker⟩
    · rintro next ⟨hnext, hspares, hown⟩
      exact ⟨hnext, (hown .marker).symm.imp_left (hawaiting.replaced hspares)⟩
  rintro - d₁ ⟨h₁, hspares, hmarker⟩
  have hreplaced : ∀ {next}, Spares [] d₁ next → Replaced reader file next := fun hlast =>
    hawaiting.replaced ((hspares.trans hlast).mono (by simp))
      ((hlast.read_of_nil .marker).trans hmarker)
  refine .bind (fun _ next => usable next ∧ Replaced reader file next) ?_ ?_
  · refine (hc.sync h₁).imp ?_ ?_
    · exact fun _ next h => ⟨h.1, hreplaced h.2⟩
    · exact fun next h => ⟨h.1, .inl (hreplaced h.2)⟩
  exact fun _ next h => .pure ⟨h.1, rfl, h.2⟩

/--
**What a restore leaves, wherever it stops.**  First files are only taken away; then the marker is
missing, unless the snapshot has a file of its name; and once the marker is written everything of
the snapshot is there.
-/
theorem leaves_restore (hc : Confined σ usable) (hd : usable d)
    (source : Except Error SnapshotReader) : Leaves (restore source : Step σ Nat) d
      (fun generation next => usable next ∧ ∃ reader file, source = .ok reader ∧
        reader.segmentsFile = .ok (some file) ∧ generation = reader.numberOf file ∧
        Replaced reader file next)
      (fun next => usable next ∧ (Thinned d next ∨ ∃ reader file, source = .ok reader ∧
        reader.segmentsFile = .ok (some file) ∧ (Replaced reader file next ∨
          (GenerationMarker.fileName ∉ file.1 :: reader.files →
            Unreadable next GenerationMarker.fileName)))) := by
  have hnothing : ∀ {p : Prop}, usable d ∧ (Thinned d d ∨ p) := ⟨hd, .inl (.refl d)⟩
  rw [restore_eq]
  refine .bind _ (.lift hnothing) ?_
  rintro reader d ⟨hsource, rfl⟩
  refine .bind _ (.lift hnothing) ?_
  rintro file d ⟨hrequired, rfl⟩
  have hfile := requireSegmentsFile_eq_ok hrequired
  refine .bind _ .get ?_
  rintro state d ⟨rfl, rfl⟩
  refine .bind _ (.lift hnothing) ?_
  rintro names d ⟨hlist, rfl⟩
  refine .bind (fun _ next => usable next ∧
    ∀ {name}, CommitFile name → Unreadable next name) ?_ ?_
  · refine (leaves_deleteFiles hc hd).imp ?_ ?_
    · rintro - next ⟨hnext, hthinned, hgone⟩
      refine ⟨hnext, fun {name} hname => ?_⟩
      by_cases hlisted : name ∈ names
      · exact hgone name hlisted
      · exact hthinned.unreadable (hc.list hd hlist hname hlisted)
    · rintro next ⟨hnext, hthinned⟩
      exact ⟨hnext, .inl hthinned⟩
  rintro - d₁ ⟨h₁, hcleared⟩
  -- From here on the marker is missing until it is written.
  have hunmarked : ∀ {next}, Spares (reader.files ++ [file.1]) d₁ next →
      GenerationMarker.fileName ∉ file.1 :: reader.files →
        Unreadable next GenerationMarker.fileName := fun hspares hnot =>
    hspares.unreadable .marker (by simpa [or_comm] using hnot) (hcleared .marker)
  refine .bind (fun _ next => usable next ∧
    Spares (reader.files ++ [file.1]) d₁ next ∧ Awaiting reader file next) ?_ ?_
  · refine (leaves_fill hc h₁ hcleared reader file).imp (fun _ _ h => h) ?_
    rintro next ⟨hnext, hspares⟩
    exact ⟨hnext, .inr ⟨reader, file, hsource, hfile, .inr (hunmarked hspares)⟩⟩
  rintro - d₂ ⟨h₂, hspares, hawaiting⟩
  refine (leaves_mark hc h₂ hawaiting).imp ?_ ?_
  · rintro generation next ⟨hnext, rfl, hreplaced⟩
    exact ⟨hnext, reader, file, hsource, hfile, rfl, hreplaced⟩
  · rintro next ⟨hnext, hreplaced | hold⟩
    · exact ⟨hnext, .inr ⟨reader, file, hsource, hfile, .inl hreplaced⟩⟩
    · refine ⟨hnext, .inr ⟨reader, file, hsource, hfile, .inr fun hnot => ?_⟩⟩
      obtain ⟨e, he⟩ := hunmarked hspares hnot
      exact ⟨e, hold.trans he⟩

end Restoring

end DocIndex.Storage
