/-
What a commit leaves in a directory.

The generation marker, the segments files and the segments have names of three forms, which
differ at the end or right after a common beginning.  Segments files of different generations
have different names since numbers are written differently, and segments do since identifiers
of different numbers differ: the hyphens of an identifier can be left out, and the number is
then read off its digits.

The content of an index in a directory are the changes in its segments, one after the other.
A commit puts the pending changes behind them, writes the segments file of its generation and
then the marker that names it.  Nothing that it writes or removes touches the segments that
were there: names of different forms differ, and a new segment has a new name.
-/
import Mathlib.Data.List.Forall2
import Mathlib.Tactic.IntervalCases
import DocIndex.Proofs.Table
import DocIndex.Proofs.Text.Digits
import DocIndex.Storage.Commit
import DocIndex.Storage.Segment
import DocIndex.Storage.Writer
import DocIndex.Text.Identifier

namespace DocIndex

/-! ### Identifiers -/

namespace Identifier

/-- The number that the digits among some characters write. -/
def valueOf (text : List Char) : Nat :=
  (text.filterMap Hex.value?).foldl (fun n digit => 16 * n + digit) 0

theorem value?_digitChar {n : Nat} (h : n < 16) : Hex.value? n.digitChar = some n := by
  interval_cases n <;> decide

theorem valueOf_toDigits (n : Nat) : valueOf (Nat.toDigits 16 n) = n := by
  induction n using Nat.strongRecOn with
  | ind n ih =>
      rw [Nat.toDigits_eq_if (by decide)]
      split
      · rename_i hsmall
        simp [valueOf, value?_digitChar hsmall]
      · rename_i hlarge
        have hquotient := ih (n / 16) (Nat.div_lt_self (by omega) (by decide))
        unfold valueOf at hquotient ⊢
        rw [List.filterMap_append, List.foldl_append, hquotient]
        simp only [List.filterMap_cons, List.filterMap_nil,
          value?_digitChar (Nat.mod_lt n (by decide : 16 > 0)), List.foldl_cons, List.foldl_nil]
        exact Nat.div_add_mod n 16

/-- Zeros in front do not count. -/
theorem valueOf_digits (n : Nat) : valueOf (digits n) = n := by
  have hzeros : ∀ count text, valueOf (List.replicate count '0' ++ text) = valueOf text := by
    intro count text
    induction count with
    | zero => rfl
    | succ count ih => exact ih
  exact (hzeros _ _).trans (valueOf_toDigits n)

/-- Hyphens do not count. -/
theorem valueOf_grouped (sizes : List Nat) (text : List Char) :
    valueOf (grouped sizes text) = valueOf text := by
  suffices h : (grouped sizes text).filterMap Hex.value? = text.filterMap Hex.value? by
    rw [valueOf, h, valueOf]
  induction sizes generalizing text with
  | nil => rfl
  | cons size rest ih =>
      have hyphen : Hex.value? '-' = none := by decide
      rw [grouped, List.filterMap_append, List.filterMap_cons, hyphen, ih,
        ← List.filterMap_append, List.take_append_drop]

/-- Different numbers have different identifiers. -/
theorem ofNat_injective {a b : Nat} (h : ofNat a = ofNat b) : a = b := by
  have hgroups := String.ofList_injective h
  rw [← valueOf_digits a, ← valueOf_grouped [8, 4, 4, 4], hgroups, valueOf_grouped, valueOf_digits]

end Identifier

/-! ### Files -/

namespace Storage

/-- The names of the files of an index. -/
inductive IndexFile : String → Prop
  | marker : IndexFile GenerationMarker.fileName
  | commit (generation : Nat) : IndexFile (Commit.fileNameOf generation)
  | segment (name : String) : IndexFile (Segment.fileName name)

theorem commit_ne_commit {a b : Nat} (h : a ≠ b) : Commit.fileNameOf a ≠ Commit.fileNameOf b := by
  intro heq
  have hlists := congrArg String.toList heq
  simp only [Commit.fileNameOf, String.toList_append] at hlists
  have hdigits : Nat.toDigits 10 a = Nat.toDigits 10 b := by
    rw [← Nat.toList_repr, ← Nat.toList_repr]
    exact List.append_cancel_left hlists
  have hvalue := congrArg numeralValue hdigits
  rw [numeralValue_toDigits, numeralValue_toDigits] at hvalue
  exact h hvalue

/--
A name gives a generation if it goes on with its number, which may have a plus sign and any zeros
in front.
-/
theorem generationOfName?_eq_some {name : String} {generation : Nat} :
    Commit.generationOfName? name = some generation ↔ generation ≤ uint64Max ∧
      ∃ sign ∈ [[], ['+']], ∃ count, name = Commit.fileNameStart ++
        String.ofList (sign ++ (List.replicate count '0' ++ Nat.toDigits 10 generation)) := by
  have hname : ∀ text, name = Commit.fileNameStart ++ String.ofList text ↔
      Commit.fileNameStart.toList ++ text = name.toList := by
    intro text
    rw [← String.toList_inj, String.toList_append, String.toList_ofList, eq_comm]
  simp only [hname]
  unfold Commit.generationOfName?
  constructor
  · intro h
    obtain ⟨hstart, h⟩ := Option.ite_none_right_eq_some.mp h
    obtain ⟨rest, hrest⟩ := List.isPrefixOf_iff_prefix.mp hstart
    rw [← hrest, List.drop_left, readUInt64?_eq_some] at h
    obtain ⟨hle, sign, hsign, count, rfl⟩ := h
    exact ⟨hle, sign, hsign, count, hrest⟩
  · rintro ⟨hle, sign, hsign, count, heq⟩
    rw [← heq, if_pos (List.isPrefixOf_iff_prefix.mpr (List.prefix_append _ _)), List.drop_left,
      readUInt64?_eq_some]
    exact ⟨hle, sign, hsign, count, rfl⟩

theorem fileNameOf_eq (generation : Nat) : Commit.fileNameOf generation
    = Commit.fileNameStart ++ String.ofList (Nat.toDigits 10 generation) := by
  rw [Commit.fileNameOf, ← Nat.toList_repr, String.ofList_toList]
  rfl

/-- The name of a segments file gives its generation. -/
theorem generationOfName?_fileNameOf {generation : Nat} (h : generation ≤ uint64Max) :
    Commit.generationOfName? (Commit.fileNameOf generation) = some generation :=
  generationOfName?_eq_some.mpr ⟨h, [], List.mem_cons_self, 0, fileNameOf_eq generation⟩

theorem marker_ne_commit (generation : Nat) :
    GenerationMarker.fileName ≠ Commit.fileNameOf generation := by
  intro heq
  have hlists := congrArg (fun name => name.toList.take 9) heq
  simp only [Commit.fileNameOf, String.toList_append] at hlists
  rw [List.take_append_of_le_length (by decide)] at hlists
  revert hlists
  decide

/-- The last character of the name of a segment. -/
theorem getLast?_segment (name : String) : (Segment.fileName name).toList.getLast? = some 'g' := by
  simp [Segment.fileName, String.toList_append]

theorem marker_ne_segment (name : String) :
    GenerationMarker.fileName ≠ Segment.fileName name := by
  intro heq
  have hlast := getLast?_segment name
  rw [← heq] at hlast
  revert hlast
  decide

/-- The last character of the name of a segments file. -/
theorem exists_getLast?_commit (generation : Nat) : ∃ digit,
    (Commit.fileNameOf generation).toList.getLast? = some digit ∧ digit.isDigit = true := by
  have hdigits : (toString generation).toList = Nat.toDigits 10 generation := Nat.toList_repr
  obtain ⟨digit, hdigit⟩ := Option.isSome_iff_exists.mp
    (List.getLast?_isSome.mpr (Nat.toDigits_ne_nil (n := generation) (b := 10)))
  refine ⟨digit, ?_, Nat.isDigit_of_mem_toDigits (by decide) (by decide)
    (List.mem_of_getLast? hdigit)⟩
  rw [Commit.fileNameOf, String.toList_append, hdigits, List.getLast?_append, hdigit]
  rfl

theorem commit_ne_segment (generation : Nat) (name : String) :
    Commit.fileNameOf generation ≠ Segment.fileName name := by
  intro heq
  obtain ⟨digit, hlast, hdigit⟩ := exists_getLast?_commit generation
  rw [heq, getLast?_segment] at hlast
  obtain rfl := Option.some.inj hlast
  exact absurd hdigit (by decide)

theorem segment_injective {a b : String} (h : Segment.fileName a = Segment.fileName b) : a = b := by
  have hlists := congrArg String.toList h
  simp only [Segment.fileName, String.toList_append] at hlists
  exact String.toList_injective (List.append_cancel_right hlists)

end Storage

end DocIndex

namespace DocIndex.Storage

/-! ### Running steps -/

theorem runFrom_bind {σ α β : Type} {first : Step σ α} {second : α → Step σ β} {d next : σ}
    {value : α} (h : first.runFrom d = (.ok value, next)) :
    (first >>= second).runFrom d = (second value).runFrom next := by
  have hrun : first d = (.ok value, next) := h
  show ExceptT.bind first second d = second value next
  simp [ExceptT.bind, ExceptT.mk, bind, StateT.bind, hrun, ExceptT.bindCont]

theorem runFrom_bind_error {σ α β : Type} {first : Step σ α} {second : α → Step σ β} {d next : σ}
    {e : Error} (h : first.runFrom d = (.error e, next)) :
    (first >>= second).runFrom d = (.error e, next) := by
  have hrun : first d = (.error e, next) := h
  show ExceptT.bind first second d = (.error e, next)
  simp only [ExceptT.bind, ExceptT.mk, bind, StateT.bind, hrun, ExceptT.bindCont]
  rfl

variable {σ : Type} [Storage σ]

/-! ### Directories whose operations succeed -/

/--
A storage whose operations on the files of an index succeed and do what they say, as long as it
is in a state of the given kind.
-/
structure Reliable (σ : Type) [Storage σ] (usable : σ → Prop) : Prop where
  /-- The files that are there are those that can be read. -/
  hasFile : ∀ {d}, usable d → ∀ {name}, IndexFile name →
    (Storage.hasFile d name = true ↔ ∃ bytes, Storage.read d name = .ok bytes)
  write : ∀ {d}, usable d → ∀ {name}, IndexFile name → ∀ bytes,
    ∃ next, (Storage.write name bytes : Step σ Unit).runFrom d = (.ok (), next) ∧ usable next ∧
      Storage.read next name = .ok bytes ∧
      ∀ other, IndexFile other → other ≠ name → Storage.read next other = Storage.read d other
  delete : ∀ {d}, usable d → ∀ {name}, IndexFile name → Storage.hasFile d name = true →
    ∃ next, (Storage.delete name : Step σ Unit).runFrom d = (.ok (), next) ∧ usable next ∧
      ∀ other, IndexFile other → other ≠ name → Storage.read next other = Storage.read d other
  sync : ∀ {d}, usable d →
    ∃ next, (Storage.sync : Step σ Unit).runFrom d = (.ok (), next) ∧ usable next ∧
      ∀ other, IndexFile other → Storage.read next other = Storage.read d other

/-- A directory in memory is reliable. -/
theorem reliable_inMemory :
    Reliable Directory fun d => d.medium = .memory ∧ Table.Sorted d.files where
  hasFile := by
    intro d _ name _
    show Directory.hasFile d name = true ↔ ∃ bytes, Directory.read d name = .ok bytes
    unfold Directory.hasFile Table.contains Directory.read
    cases Table.find? d.files name <;> simp
  write := by
    rintro d ⟨hmemory, hsorted⟩ name - bytes
    refine ⟨{ d with files := Table.insert d.files name bytes }, ?_,
      ⟨hmemory, Table.sorted_insert hsorted _ _⟩, ?_, fun other _ hother => ?_⟩
    · show d.write name bytes = _
      simp [Directory.write, hmemory]
    · show Directory.read _ _ = _
      simp [Directory.read]
    · show Directory.read _ _ = Directory.read _ _
      simp [Directory.read, Table.find?_insert_ne _ hother]
  delete := by
    rintro d ⟨hmemory, hsorted⟩ name - hname
    obtain ⟨bytes, hbytes⟩ := Option.isSome_iff_exists.mp hname
    refine ⟨{ d with files := Table.erase d.files name, locked := d.keepLock name }, ?_,
      ⟨hmemory, Table.sorted_erase hsorted _⟩, fun other _ hother => ?_⟩
    · show d.delete name = _
      simp [Directory.delete, Directory.read, hbytes]
    · show Directory.read _ _ = Directory.read _ _
      simp [Directory.read, Table.find?_erase_ne hsorted hother]
  sync := fun {d} hd => ⟨d, rfl, hd, fun _ _ => rfl⟩

/-! ### The content of a directory -/

/-- The changes that the named segments hold, those of each segment by themselves. -/
def Filed (d : σ) (names : List String) (parts : List (List Change)) : Prop :=
  List.Forall₂ (fun name part => ∃ compression,
    Storage.read d name = .ok (Segment.encode part compression)) names parts

/-- The marker of a directory names a commit, and its segments hold the changes. -/
def Holds (d : σ) (commit : Commit) (changes : List Change) : Prop :=
  Storage.read d GenerationMarker.fileName = .ok (GenerationMarker.encode commit.generation) ∧
    Storage.read d commit.fileName = .ok commit.toBytes ∧
    ∃ parts, Filed d commit.segments parts ∧ parts.flatten = changes

/-- Files that are segments of an index. -/
def Segments (names : List String) : Prop := ∀ name ∈ names, ∃ base, name = Segment.fileName base

theorem Filed.congr {d next : σ} {names : List String} {parts : List (List Change)}
    (h : Filed d names parts)
    (hread : ∀ name ∈ names, Storage.read next name = Storage.read d name) :
    Filed next names parts := by
  induction h with
  | nil => exact .nil
  | @cons name part names parts hfirst _ ih =>
      obtain ⟨compression, hbytes⟩ := hfirst
      refine .cons ⟨compression, ?_⟩ (ih fun other hother => ?_)
      · rw [hread name List.mem_cons_self, hbytes]
      · exact hread other (List.mem_cons_of_mem _ hother)

/-- The segments of a writer, with one more for its pending changes if it has any. -/
def Extends (d : σ) (writer : IndexWriter) (file : String) (names : List String) : Prop :=
  (writer.pending = [] ∧ names = writer.last.segments) ∨
    (names = writer.last.segments ++ [file] ∧
      Storage.read d file = .ok (Segment.encode writer.pending writer.compression))

theorem Extends.mem {d : σ} {writer : IndexWriter} {file : String} {names : List String}
    (h : Extends d writer file names) :
    ∀ name ∈ names, name ∈ writer.last.segments ∨ name = file := by
  intro name hname
  rcases h with ⟨-, rfl⟩ | ⟨rfl, -⟩
  · exact Or.inl hname
  · exact (List.mem_append.mp hname).imp_right List.mem_singleton.mp

theorem Extends.segments {d : σ} {writer : IndexWriter} {base : String} {names : List String}
    (h : Extends d writer (Segment.fileName base) names)
    (hsegments : Segments writer.last.segments) : Segments names := by
  intro name hname
  rcases h.mem name hname with hold | rfl
  · exact hsegments name hold
  · exact ⟨base, rfl⟩

section Committing

variable {usable : σ → Prop} {d : σ}

/-- The pending changes become the last segment, if there are any. -/
theorem writePending_ok (hr : Reliable σ usable) (hd : usable d) {writer : IndexWriter}
    {segment : String} (hsegments : Segments writer.last.segments)
    (hnew : Segment.fileName segment ∉ writer.last.segments) :
    ∃ names next, (writer.writePending segment).runFrom d = (.ok names, next) ∧ usable next ∧
      (∀ name ∈ writer.last.segments, Storage.read next name = Storage.read d name) ∧
      Extends next writer (Segment.fileName segment) names := by
  by_cases hpending : writer.pending = []
  · have hnone : writer.hasPending = false := by simp [IndexWriter.hasPending, hpending]
    refine ⟨writer.last.segments, d, ?_, hd, fun _ _ => rfl, .inl ⟨hpending, rfl⟩⟩
    rw [IndexWriter.writePending, if_neg (by rw [hnone]; exact Bool.false_ne_true)]
    rfl
  · obtain ⟨next, hwrite, husable, hread, hothers⟩ :=
      hr.write hd (.segment segment) (Segment.encode writer.pending writer.compression)
    have hsome : writer.hasPending = true := by simpa [IndexWriter.hasPending] using hpending
    refine ⟨writer.last.segments ++ [Segment.fileName segment], next, ?_, husable,
      fun name hname => ?_, .inr ⟨rfl, hread⟩⟩
    · rw [IndexWriter.writePending, if_pos hsome, runFrom_bind hwrite]
      rfl
    · obtain ⟨base, rfl⟩ := hsegments name hname
      exact hothers _ (.segment base) fun heq => hnew (heq ▸ hname)

/-- Publishing a commit makes it the one that counts, and leaves the segments alone. -/
theorem publish_ok (hr : Reliable σ usable) (hd : usable d) (commit : Commit) :
    ∃ next, (IndexWriter.publish commit : Step σ Unit).runFrom d = (.ok (), next) ∧ usable next ∧
      Storage.read next GenerationMarker.fileName
        = .ok (GenerationMarker.encode commit.generation) ∧
      Storage.read next commit.fileName = .ok commit.toBytes ∧
      ∀ base,
        Storage.read next (Segment.fileName base) = Storage.read d (Segment.fileName base) := by
  have hmarker := marker_ne_commit commit.generation
  obtain ⟨d₁, hrun₁, h₁, hread₁, hothers₁⟩ :=
    hr.write hd (.commit commit.generation) commit.toBytes
  obtain ⟨d₂, hrun₂, h₂, hothers₂⟩ := hr.sync h₁
  obtain ⟨d₃, hrun₃, h₃, hread₃, hothers₃⟩ :=
    hr.write h₂ .marker (GenerationMarker.encode commit.generation)
  obtain ⟨d₄, hrun₄, h₄, hothers₄⟩ := hr.sync h₃
  refine ⟨d₄, ?_, h₄, ?_, ?_, fun base => ?_⟩
  · rw [IndexWriter.publish, Commit.fileName, runFrom_bind hrun₁, runFrom_bind hrun₂,
      runFrom_bind hrun₃, hrun₄]
  · rw [hothers₄ _ .marker, hread₃]
  · rw [Commit.fileName, hothers₄ _ (.commit _), hothers₃ _ (.commit _) hmarker.symm,
      hothers₂ _ (.commit _), hread₁]
  · rw [hothers₄ _ (.segment _), hothers₃ _ (.segment _) (marker_ne_segment base).symm,
      hothers₂ _ (.segment _),
      hothers₁ _ (.segment _) (commit_ne_segment commit.generation base).symm]

/-- Removing the segments file of another generation leaves everything else alone. -/
theorem removeStale_ok (hr : Reliable σ usable) (hd : usable d) (generation : Nat) :
    ∃ next, (IndexWriter.removeStale generation : Step σ Unit).runFrom d = (.ok (), next) ∧
      usable next ∧ ∀ other, IndexFile other → other ≠ Commit.fileNameOf generation →
        Storage.read next other = Storage.read d other := by
  by_cases hstale : (decide (0 < generation) &&
      Storage.hasFile d (Commit.fileNameOf generation)) = true
  · obtain ⟨next, hrun, hnext, hothers⟩ :=
      hr.delete hd (.commit generation) (Bool.and_eq_true_iff.mp hstale).2
    refine ⟨next, ?_, hnext, hothers⟩
    have hget : (get : Step σ σ).runFrom d = (.ok d, d) := rfl
    rw [IndexWriter.removeStale, runFrom_bind hget, if_pos hstale, hrun]
  · refine ⟨d, ?_, hd, fun _ _ _ => rfl⟩
    have hget : (get : Step σ σ).runFrom d = (.ok d, d) := rfl
    rw [IndexWriter.removeStale, runFrom_bind hget, if_neg hstale]
    rfl

/-- What a commit writes, and what it leaves as it was. -/
theorem commit_written (hr : Reliable σ usable) (hd : usable d) {writer : IndexWriter}
    {segment : String} (hsegments : Segments writer.last.segments)
    (hnew : Segment.fileName segment ∉ writer.last.segments) (userData : Table String String)
    (now : Moment) :
    ∃ names next, (writer.commit segment userData now).runFrom d
        = (.ok { writer with
            pending := [], last := .ofCommit ⟨writer.last.generation + 1, names, userData, now⟩ },
          next) ∧
      usable next ∧
      Storage.read next GenerationMarker.fileName
        = .ok (GenerationMarker.encode (writer.last.generation + 1)) ∧
      Storage.read next (Commit.fileNameOf (writer.last.generation + 1))
        = .ok (Commit.toBytes ⟨writer.last.generation + 1, names, userData, now⟩) ∧
      (∀ name ∈ writer.last.segments, Storage.read next name = Storage.read d name) ∧
      Extends next writer (Segment.fileName segment) names := by
  obtain ⟨names, d₁, hpending, h₁, hkept₁, hextends⟩ := writePending_ok hr hd hsegments hnew
  let commit : Commit := ⟨writer.last.generation + 1, names, userData, now⟩
  obtain ⟨d₂, hpublish, h₂, hmarker, hcommit, hothers⟩ := publish_ok hr h₁ commit
  obtain ⟨d₃, hstale, h₃, hkept⟩ := removeStale_ok hr h₂ writer.last.generation
  have hfile : Commit.fileNameOf (writer.last.generation + 1)
      ≠ Commit.fileNameOf writer.last.generation := commit_ne_commit (Nat.succ_ne_self _)
  have hsegment : ∀ base, Storage.read d₃ (Segment.fileName base)
      = Storage.read d₁ (Segment.fileName base) := fun base => by
    rw [hkept _ (.segment _) (commit_ne_segment _ base).symm, hothers]
  refine ⟨names, d₃, ?_, h₃, ?_, ?_, fun name hname => ?_, ?_⟩
  · rw [IndexWriter.commit, runFrom_bind hpending, runFrom_bind hpublish, runFrom_bind hstale]
    rfl
  · rw [hkept _ .marker (marker_ne_commit _), hmarker]
  · exact (hkept _ (.commit _) hfile).trans hcommit
  · obtain ⟨base, rfl⟩ := hsegments name hname
    rw [hsegment, hkept₁ _ hname]
  · exact hextends.imp_right fun ⟨hnames, hread⟩ => ⟨hnames, by rw [hsegment, hread]⟩

/-- **A commit makes the pending changes part of what the directory holds.** -/
theorem commit_ok (hr : Reliable σ usable) (hd : usable d) {writer : IndexWriter}
    {segment : String} {parts : List (List Change)} (hsegments : Segments writer.last.segments)
    (hnew : Segment.fileName segment ∉ writer.last.segments)
    (hfiled : Filed d writer.last.segments parts) (userData : Table String String) (now : Moment) :
    ∃ commit next, (writer.commit segment userData now).runFrom d
        = (.ok { writer with pending := [], last := .ofCommit commit }, next) ∧
      usable next ∧ commit.generation = writer.last.generation + 1 ∧
      commit.userData = userData ∧ Segments commit.segments ∧
      (∀ name ∈ commit.segments, name ∈ writer.last.segments ∨ name = Segment.fileName segment) ∧
      Holds next commit (parts.flatten ++ writer.pending) := by
  obtain ⟨names, next, hrun, husable, hmarker, hcommit, hkept, hextends⟩ :=
    commit_written hr hd hsegments hnew userData now
  have hold := hfiled.congr hkept
  refine ⟨_, next, hrun, husable, rfl, rfl, hextends.segments hsegments, hextends.mem, hmarker,
    hcommit, ?_⟩
  rcases hextends with ⟨hnone, rfl⟩ | ⟨rfl, hread⟩
  · exact ⟨parts, hold, by rw [hnone, List.append_nil]⟩
  · exact ⟨parts ++ [writer.pending],
      List.rel_append hold (.cons ⟨writer.compression, hread⟩ .nil), by simp⟩

end Committing

end DocIndex.Storage
