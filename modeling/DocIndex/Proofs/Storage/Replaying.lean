/-
Changes on their way from a writer to a directory and back.

A segments file is read back: every member of the record is found once, and each of their values
comes back, the generation because it fits a word, the user data because it is a table, and the
time because a clock shows it, though it is given in UTC whatever offset it had.

A writer makes each change in its index and keeps it pending, so that replaying what is pending
gives the index again.  A directory that is opened replays its segments, one after the other,
which comes to the same as replaying the changes of all of them in a row.
-/
import DocIndex.Proofs.Codec.Packing
import DocIndex.Proofs.Except
import DocIndex.Proofs.Json.RoundTrip
import DocIndex.Proofs.Storage.Durable
import DocIndex.Proofs.Storage.Segment
import DocIndex.Proofs.Table
import DocIndex.Proofs.Time.Notation
import DocIndex.Storage.Commit
import DocIndex.Storage.Snapshot

namespace DocIndex.Storage

open Json

theorem GenerationMarker.decode_encode {generation : Nat} (h : generation < 256 ^ 8) :
    decode (encode generation) = .ok generation := by
  rw [decode, encode, Bytes.length_littleEndian, if_pos rfl, Bytes.ofLittleEndian_of_lt h]

theorem readMoment?_writeUtc {now : Moment} (h : now.Regular) :
    readMoment? (.text now.writeUtc) = some now.utc := by
  rw [readMoment?, Json.text?, Option.bind_some, Moment.ofLooseText?_writeUtc h, Option.map_some]
  rfl

/-! ### Members of a record -/

theorem natural?_natCast {n : Nat} (h : n ≤ uint64Max) : Member.natural? (.int n) = some n := by
  simp [Member.natural?, h]

theorem legible_natCast {n : Nat} (h : n ≤ uint64Max) (depth : Nat) :
    (Json.int n).Legible depth :=
  ⟨Int.natCast_nonneg _, Int.ofNat_le.mpr h⟩

theorem texts?_map (texts : List String) :
    Member.texts? (.array (texts.map Json.text)) = some texts := by
  show (texts.map Json.text).mapM Json.text? = some texts
  induction texts with
  | nil => rfl
  | cons text rest ih =>
      rw [List.map_cons, List.mapM_cons, ih]
      rfl

theorem legible_texts (texts : List String) {depth : Nat} (h : 0 < depth) :
    (Json.array (texts.map Json.text)).Legible depth := by
  refine ⟨h, legibleItems_iff.mpr fun item hitem => ?_⟩
  obtain ⟨text, -, rfl⟩ := List.mem_map.mp hitem
  trivial

/-! ### Segments files -/

namespace Commit

variable {commit : Commit}

/-- A record of a commit gives the commit again, with its time in UTC. -/
theorem ofJson?_toJson (hgeneration : commit.generation ≤ uint64Max)
    (huserData : Table.Sorted commit.userData) (hcreated : commit.createdAt.Regular) :
    ofJson? commit.toJson = some { commit with createdAt := commit.createdAt.utc } := by
  have hmoment := readMoment?_writeUtc hcreated
  have hnatural := natural?_natCast hgeneration
  have htexts := texts?_map commit.segments
  have htable : Member.table? Json.text?
      (.object (commit.userData.map fun entry => (entry.1, .text entry.2)))
      = some commit.userData := by
    have hmembers : ∀ entries : Table String String,
        (entries.map fun entry => (entry.1, Json.text entry.2)).mapM (fun member =>
          (Json.text? member.2).map fun value => (member.1, value)) = some entries := by
      intro entries
      induction entries with
      | nil => rfl
      | cons entry rest ih =>
          rw [List.map_cons, List.mapM_cons, ih]
          rfl
    rw [Member.table?, hmembers, Option.map_some, Table.ofEntries_of_sorted huserData]
  simp [ofJson?, toJson, Member.ofRecord?, Member.once?, hnatural, htexts, htable, hmoment]

theorem legible_toJson (hgeneration : commit.generation ≤ uint64Max) :
    commit.toJson.Legible maxDepth := by
  have hsegments := legible_texts commit.segments (by decide : 0 < 126)
  have huserData : (Json.object (commit.userData.map fun entry =>
      (entry.1, Json.text entry.2))).Legible 126 := by
    refine ⟨by decide, legibleMembers_iff.mpr fun member hmember => ?_⟩
    obtain ⟨entry, -, rfl⟩ := List.mem_map.mp hmember
    trivial
  exact ⟨by decide, legible_natCast hgeneration 126, hsegments, huserData, trivial, trivial⟩

/-- **A segments file gives its commit**, with its time in UTC. -/
theorem ofBytes_toBytes (commit : Commit) (hgeneration : commit.generation ≤ uint64Max)
    (huserData : Table.Sorted commit.userData) (hcreated : commit.createdAt.Regular) :
    ofBytes commit.toBytes = .ok { commit with createdAt := commit.createdAt.utc } := by
  rw [ofBytes, toBytes, Bytes.toText?_ofText, Option.bind_some, toText,
    Json.parseWritten?_writeIndented (legible_toJson hgeneration), Option.bind_some,
    ofJson?_toJson hgeneration huserData hcreated]

end Commit

end DocIndex.Storage

namespace DocIndex

/-! ### Replaying changes -/

theorem InvertedIndex.replay_append {analyzers : Analyzers} {index next : InvertedIndex}
    {first second : List Change} (h : index.replay analyzers first = .ok next) :
    index.replay analyzers (first ++ second) = next.replay analyzers second := by
  induction first generalizing index with
  | nil =>
      obtain rfl := Except.ok.inj h
      rfl
  | cons change rest ih =>
      simp only [replay, List.cons_append] at h ⊢
      split at h
      · exact ih h
      · simp at h

/-- Changes that can be replayed can be replayed in part. -/
theorem InvertedIndex.replay_of_append {analyzers : Analyzers} {first second : List Change} :
    ∀ {index last : InvertedIndex}, index.replay analyzers (first ++ second) = .ok last →
      ∃ middle, index.replay analyzers first = .ok middle ∧
        middle.replay analyzers second = .ok last := by
  induction first with
  | nil => exact fun {index _} h => ⟨index, rfl, h⟩
  | cons change rest ih =>
      intro index last h
      simp only [replay, List.cons_append] at h ⊢
      split at h
      · exact ih h
      · simp at h

namespace Storage

/-! ### Calls that change the index -/

/-- A call that changes what a writer has in its index. -/
inductive Revision where
  | add (document : Document)
  | deleteTerm (field term : String)
  | update (field term : String) (document : Document)

/-- The changes that a call makes if it succeeds. -/
def Revision.changes : Revision → List Change
  | .add document => [.add document]
  | .deleteTerm field term => [.deleteTerm field term]
  | .update field term document => [.deleteTerm field term, .add document]

namespace IndexWriter

variable {analyzers : Analyzers}

theorem add_eq (writer : IndexWriter) {document : Document}
    {fields : List InvertedIndex.AnalyzedField}
    (h : InvertedIndex.analyze analyzers document = .ok fields) :
    writer.add analyzers document = .ok ({ writer with
      index := (writer.index.insert fields).1
      pending := writer.pending ++ [.add document] }, (writer.index.insert fields).2) := by
  simp only [add, InvertedIndex.add, h]
  rfl

theorem update_eq (writer : IndexWriter) (field term : String) {document : Document}
    {fields : List InvertedIndex.AnalyzedField}
    (h : InvertedIndex.analyze analyzers document = .ok fields) :
    writer.update analyzers field term document = .ok ({ writer with
      index := ((writer.index.deleteTerm field term).1.insert fields).1
      pending := writer.pending ++ [.deleteTerm field term, .add document] },
      ((writer.index.deleteTerm field term).1.insert fields).2) := by
  simp only [update, h]
  rfl

/-- The writer that a call leaves, if it succeeds. -/
def revise (writer : IndexWriter) (analyzers : Analyzers) : Revision → Except Error IndexWriter
  | .add document => (writer.add analyzers document).map Prod.fst
  | .deleteTerm field term => .ok (writer.deleteTerm field term).1
  | .update field term document => (writer.update analyzers field term document).map Prod.fst

/-- The writer after a call and the changes that it made, which are none if it failed. -/
def attempt (writer : IndexWriter) (analyzers : Analyzers) (revision : Revision) :
    IndexWriter × List Change :=
  match writer.revise analyzers revision with
  | .ok next => (next, revision.changes)
  | .error _ => (writer, [])

/-- A writer after changes that were made in its index and are pending. -/
structure Revised (analyzers : Analyzers) (writer : IndexWriter) (changes : List Change)
    (next : IndexWriter) : Prop where
  last : next.last = writer.last
  compression : next.compression = writer.compression
  pending : next.pending = writer.pending ++ changes
  index : writer.index.replay analyzers changes = .ok next.index

theorem Revised.refl (writer : IndexWriter) : writer.Revised analyzers [] writer :=
  ⟨rfl, rfl, (List.append_nil _).symm, rfl⟩

theorem Revised.trans {writer middle next : IndexWriter} {first second : List Change}
    (h : writer.Revised analyzers first middle) (h' : middle.Revised analyzers second next) :
    writer.Revised analyzers (first ++ second) next where
  last := h'.last.trans h.last
  compression := h'.compression.trans h.compression
  pending := by rw [h'.pending, h.pending, List.append_assoc]
  index := by rw [InvertedIndex.replay_append h.index, h'.index]

/-- A call that succeeds leaves pending what it made of the index. -/
theorem revised_of_revise {writer next : IndexWriter} {revision : Revision}
    (h : writer.revise analyzers revision = .ok next) :
    writer.Revised analyzers revision.changes next := by
  cases revision with
  | add document =>
      cases hanalyzed : InvertedIndex.analyze analyzers document with
      | error e =>
          simp [revise, add, InvertedIndex.add, hanalyzed, Except.map, bind, Except.bind] at h
      | ok fields =>
          rw [revise, add_eq writer hanalyzed] at h
          obtain rfl := Except.ok.inj h
          refine ⟨rfl, rfl, rfl, ?_⟩
          simp [Revision.changes, InvertedIndex.replay, InvertedIndex.apply, InvertedIndex.add,
            hanalyzed, Except.map]
  | deleteTerm field term =>
      obtain rfl := Except.ok.inj h
      exact ⟨rfl, rfl, rfl, rfl⟩
  | update field term document =>
      cases hanalyzed : InvertedIndex.analyze analyzers document with
      | error e => simp [revise, update, hanalyzed, Except.map, bind, Except.bind] at h
      | ok fields =>
          rw [revise, update_eq writer field term hanalyzed] at h
          obtain rfl := Except.ok.inj h
          refine ⟨rfl, rfl, rfl, ?_⟩
          simp [Revision.changes, InvertedIndex.replay, InvertedIndex.apply, InvertedIndex.add,
            hanalyzed, Except.map]

/-- Whether a call succeeds or not, its changes are made and are pending. -/
theorem revised_attempt (writer : IndexWriter) (revision : Revision) :
    writer.Revised analyzers (writer.attempt analyzers revision).2
      (writer.attempt analyzers revision).1 := by
  unfold attempt
  cases h : writer.revise analyzers revision with
  | ok next => exact revised_of_revise h
  | error e => exact .refl writer

end IndexWriter

/-! ### The changes in segments -/

variable {σ : Type} [Storage σ]

/-- The changes that the named segments of a directory hold, one after the other. -/
def changesOf (d : σ) : List String → Except Error (List Change)
  | [] => .ok []
  | name :: rest => do
    let first ← Segment.decode (← Storage.read d name)
    return first ++ (← changesOf d rest)

section Segments

variable {analyzers : Analyzers} {d next : σ}

theorem changesOf_congr : ∀ {names : List String},
    (∀ name ∈ names, Storage.read next name = Storage.read d name) →
      changesOf next names = changesOf d names
  | [], _ => rfl
  | name :: rest, h => by
      have hrest := changesOf_congr fun other hother => h other (List.mem_cons_of_mem name hother)
      simp only [changesOf, h name List.mem_cons_self, hrest]

/-- The changes in several segments are those in the first one and then those in the others. -/
theorem changesOf_cons {name : String} {rest : List String} {changes : List Change} :
    changesOf d (name :: rest) = .ok changes ↔ ∃ bytes first others,
      Storage.read d name = .ok bytes ∧ Segment.decode bytes = .ok first ∧
        changesOf d rest = .ok others ∧ changes = first ++ others := by
  rw [changesOf]
  constructor
  · intro h
    obtain ⟨bytes, hread, h⟩ := bind_eq_ok.mp h
    obtain ⟨first, hfirst, h⟩ := bind_eq_ok.mp h
    obtain ⟨others, hothers, h⟩ := bind_eq_ok.mp h
    exact ⟨bytes, first, others, hread, hfirst, hothers, (Except.ok.inj h).symm⟩
  · rintro ⟨bytes, first, others, hread, hfirst, hothers, rfl⟩
    exact bind_eq_ok.mpr ⟨bytes, hread, bind_eq_ok.mpr ⟨first, hfirst,
      bind_eq_ok.mpr ⟨others, hothers, rfl⟩⟩⟩

/-- A segment behind others adds its changes to theirs. -/
theorem changesOf_snoc {file : String} {bytes : Bytes} {pending : List Change}
    (hread : Storage.read d file = .ok bytes) (hdecode : Segment.decode bytes = .ok pending) :
    ∀ {names : List String} {changes : List Change}, changesOf d names = .ok changes →
      changesOf d (names ++ [file]) = .ok (changes ++ pending)
  | [], changes, h => by
      obtain rfl := Except.ok.inj h
      exact changesOf_cons.mpr ⟨bytes, pending, [], hread, hdecode, rfl, (List.append_nil _).symm⟩
  | name :: rest, changes, h => by
      obtain ⟨bytes', first, others, hread', hfirst, hothers, rfl⟩ := changesOf_cons.mp h
      have hrest := changesOf_snoc hread hdecode hothers
      exact changesOf_cons.mpr
        ⟨bytes', first, others ++ pending, hread', hfirst, hrest, List.append_assoc _ _ _⟩

namespace IndexWriter

/-- What segments make depends on their content alone, whatever directory holds them. -/
theorem replaySegments_congr {σ' : Type} [Storage σ'] {next : σ'} :
    ∀ {names : List String} (index : InvertedIndex),
    (∀ name ∈ names, Storage.read next name = Storage.read d name) →
      replaySegments analyzers next index names = replaySegments analyzers d index names
  | [], _, _ => rfl
  | name :: rest, index, h => by
      have hrest : ∀ index, replaySegments analyzers next index rest
          = replaySegments analyzers d index rest := fun index =>
        replaySegments_congr index fun other hother => h other (List.mem_cons_of_mem _ hother)
      simp only [replaySegments, h name List.mem_cons_self, hrest]

/-- **Replaying segments one by one is replaying all of their changes.** -/
theorem replaySegments_eq : ∀ {names : List String} {changes : List Change}
    {index last : InvertedIndex}, changesOf d names = .ok changes →
      index.replay analyzers changes = .ok last →
      replaySegments analyzers d index names = .ok last
  | [], changes, index, last, h, hreplay => by
      obtain rfl := Except.ok.inj h
      exact hreplay
  | name :: rest, changes, index, last, h, hreplay => by
      obtain ⟨bytes, first, others, hread, hfirst, hothers, rfl⟩ := changesOf_cons.mp h
      obtain ⟨middle, hmiddle, hrest⟩ := InvertedIndex.replay_of_append hreplay
      rw [replaySegments]
      exact bind_eq_ok.mpr ⟨bytes, hread, bind_eq_ok.mpr ⟨first, hfirst,
        bind_eq_ok.mpr ⟨middle, hmiddle, replaySegments_eq hothers hrest⟩⟩⟩

/-- Segments that can be replayed hold changes that make the same. -/
theorem changesOf_replaySegments : ∀ {names : List String} {index last : InvertedIndex},
    replaySegments analyzers d index names = .ok last →
      ∃ changes, changesOf d names = .ok changes ∧ index.replay analyzers changes = .ok last
  | [], index, last, h => ⟨[], rfl, h⟩
  | name :: rest, index, last, h => by
      obtain ⟨bytes, hread, h⟩ := bind_eq_ok.mp h
      obtain ⟨first, hfirst, h⟩ := bind_eq_ok.mp h
      obtain ⟨middle, hmiddle, h⟩ := bind_eq_ok.mp h
      obtain ⟨others, hothers, hrest⟩ := changesOf_replaySegments h
      exact ⟨first ++ others,
        changesOf_cons.mpr ⟨bytes, first, others, hread, hfirst, hothers, rfl⟩,
        (InvertedIndex.replay_append hmiddle).trans hrest⟩

/-- A segment behind others is replayed on what these make. -/
theorem replaySegments_snoc {file : String} {bytes : Bytes} {changes : List Change}
    {names : List String} {index middle last : InvertedIndex}
    (hread : Storage.read d file = .ok bytes) (hdecode : Segment.decode bytes = .ok changes)
    (h : replaySegments analyzers d index names = .ok middle)
    (hreplay : middle.replay analyzers changes = .ok last) :
    replaySegments analyzers d index (names ++ [file]) = .ok last := by
  obtain ⟨earlier, hearlier, hmiddle⟩ := changesOf_replaySegments h
  exact replaySegments_eq (changesOf_snoc hread hdecode hearlier)
    ((InvertedIndex.replay_append hmiddle).trans hreplay)

/-- What is loaded is what the segments make. -/
theorem replaySegments_of_load {last : CommitPoint} {index : InvertedIndex}
    (h : load analyzers d = .ok (last, index)) :
    replaySegments analyzers d .empty last.segments = .ok index := by
  unfold load at h
  split at h
  · obtain ⟨marker, -, h⟩ := bind_eq_ok.mp h
    obtain ⟨generation, -, h⟩ := bind_eq_ok.mp h
    obtain ⟨bytes, -, h⟩ := bind_eq_ok.mp h
    obtain ⟨commit, -, h⟩ := bind_eq_ok.mp h
    obtain ⟨replayed, hreplayed, h⟩ := bind_eq_ok.mp h
    obtain ⟨rfl, rfl⟩ := Prod.mk.inj (Except.ok.inj h)
    exact hreplayed
  · obtain ⟨rfl, rfl⟩ := Prod.mk.inj (Except.ok.inj h)
    rfl

end IndexWriter

end Segments

/-! ### Commits that can be read back -/

/-- Changes whose integers are all 64-bit words. -/
def InWords (changes : List Change) : Prop := changes.map Change.narrowed = changes

instance (changes : List Change) : Decidable (InWords changes) :=
  inferInstanceAs (Decidable (changes.map Change.narrowed = changes))

/--
A writer whose commit can be read back: the pending changes fit the frame of a segment and its
codec is lossless on them, the generation fits a word, the user data is a table and a clock shows
the time.
-/
structure IndexWriter.Committable (writer : IndexWriter) (userData : Table String String)
    (now : Moment) : Prop where
  words : InWords writer.pending
  size : (Record.writeList Record.writeChange writer.pending).length < 256 ^ 4
  codec : writer.compression.Restores (Record.writeList Record.writeChange writer.pending)
  generation : writer.last.generation < uint64Max
  userData : Table.Sorted userData
  time : now.Regular

/-- A commit puts the pending changes behind those in the segments, as they are kept. -/
theorem Extends.changesOf_narrowed {d : σ} {writer : IndexWriter} {file : String}
    {names : List String} {committed : List Change} (h : Extends d writer file names)
    (hsize : (Record.writeList Record.writeChange writer.pending).length < 256 ^ 4)
    (hcodec : writer.compression.Restores (Record.writeList Record.writeChange writer.pending))
    (hcommitted : Storage.changesOf d writer.last.segments = .ok committed) :
    Storage.changesOf d names = .ok (committed ++ writer.pending.map Change.narrowed) := by
  rcases h with ⟨hnone, rfl⟩ | ⟨rfl, hread⟩
  · rw [hnone, List.map_nil, List.append_nil, hcommitted]
  · exact changesOf_snoc hread (Segment.decode_encode hsize hcodec) hcommitted

/-- Words are kept as they are. -/
theorem Extends.changesOf {d : σ} {writer : IndexWriter} {file : String} {names : List String}
    {userData : Table String String} {now : Moment} {committed : List Change}
    (h : Extends d writer file names) (hcommittable : writer.Committable userData now)
    (hcommitted : Storage.changesOf d writer.last.segments = .ok committed) :
    Storage.changesOf d names = .ok (committed ++ writer.pending) := by
  have hkept := h.changesOf_narrowed hcommittable.size hcommittable.codec hcommitted
  rwa [hcommittable.words] at hkept

/-- The marker of a directory names a commit whose segments file can be read. -/
structure Published (d : σ) (commit : Commit) : Prop where
  marker : Storage.read d GenerationMarker.fileName
    = .ok (GenerationMarker.encode commit.generation)
  file : Storage.read d commit.fileName = .ok commit.toBytes
  generation : commit.generation ≤ uint64Max
  userData : Table.Sorted commit.userData
  time : commit.createdAt.Regular

/-- The commit as it is read back. -/
def Commit.inUtc (commit : Commit) : Commit := { commit with createdAt := commit.createdAt.utc }

@[simp] theorem Commit.inUtc_segments (commit : Commit) :
    commit.inUtc.segments = commit.segments := rfl

@[simp] theorem CommitPoint.ofCommit_inUtc (commit : Commit) :
    ofCommit commit.inUtc = ofCommit commit := rfl

/-- The last commit is the one whose generation the marker has. -/
theorem committed_eq_ok {d : σ} {generation : Nat} {bytes : Bytes} {commit : Commit} :
    committed d = .ok (generation, bytes, commit) ↔
      Storage.hasFile d GenerationMarker.fileName = true ∧ ∃ marker,
        Storage.read d GenerationMarker.fileName = .ok marker ∧
        GenerationMarker.decode marker = .ok generation ∧
        Storage.read d (Commit.fileNameOf generation) = .ok bytes ∧
        Commit.ofBytes bytes = .ok commit := by
  unfold committed
  constructor
  · intro h
    split at h
    · rename_i hthere
      obtain ⟨marker, hmarker, h⟩ := bind_eq_ok.mp h
      obtain ⟨number, hnumber, h⟩ := bind_eq_ok.mp h
      obtain ⟨content, hcontent, h⟩ := bind_eq_ok.mp h
      obtain ⟨found, hfound, h⟩ := bind_eq_ok.mp h
      obtain ⟨rfl, hrest⟩ := Prod.mk.inj (Except.ok.inj h)
      obtain ⟨rfl, rfl⟩ := Prod.mk.inj hrest
      exact ⟨hthere, marker, hmarker, hnumber, hcontent, hfound⟩
    · cases h
  · rintro ⟨hthere, marker, hmarker, hnumber, hcontent, hfound⟩
    rw [if_pos hthere]
    exact bind_eq_ok.mpr ⟨marker, hmarker, bind_eq_ok.mpr ⟨generation, hnumber,
      bind_eq_ok.mpr ⟨bytes, hcontent, bind_eq_ok.mpr ⟨commit, hfound, rfl⟩⟩⟩⟩

/-- The commit that a marker names is the last one of its directory, with its time in UTC. -/
theorem Published.committed {usable : σ → Prop} (hr : Reliable σ usable) {d : σ} (hd : usable d)
    {commit : Commit} (h : Published d commit) :
    Storage.committed d = .ok (commit.generation, commit.toBytes, commit.inUtc) := by
  have hthere : Storage.hasFile d GenerationMarker.fileName = true :=
    (hr.hasFile hd .marker).mpr ⟨_, h.marker⟩
  have hword : commit.generation < 256 ^ 8 := Nat.lt_of_le_of_lt h.generation (by decide)
  exact committed_eq_ok.mpr ⟨hthere, _, h.marker, GenerationMarker.decode_encode hword, h.file,
    Commit.ofBytes_toBytes commit h.generation h.userData h.time⟩

/-- What is loaded is the last commit, with the index that its segments make. -/
theorem load_of_committed {d : σ} {generation : Nat} {bytes : Bytes} {commit : Commit}
    (h : committed d = .ok (generation, bytes, commit)) (analyzers : Analyzers) :
    IndexWriter.load analyzers d
      = (IndexWriter.replaySegments analyzers d .empty commit.segments).map
          fun index => (.ofCommit commit, index) := by
  obtain ⟨hthere, marker, hmarker, hnumber, hcontent, hfound⟩ := committed_eq_ok.mp h
  simp only [IndexWriter.load, hthere, if_true, hmarker, hnumber, hcontent, hfound, bind,
    Except.bind]
  cases IndexWriter.replaySegments analyzers d .empty commit.segments <;> rfl

/-- **A directory opens at the commit that its marker names.** -/
theorem Published.load {usable : σ → Prop} (hr : Reliable σ usable) {d : σ} (hd : usable d)
    {commit : Commit} (h : Published d commit) {analyzers : Analyzers} {index : InvertedIndex}
    (hreplay : IndexWriter.replaySegments analyzers d .empty commit.segments = .ok index) :
    IndexWriter.load analyzers d = .ok (.ofCommit commit, index) := by
  rw [load_of_committed (h.committed hr hd), Commit.inUtc_segments, hreplay,
    CommitPoint.ofCommit_inUtc]
  rfl

/--
A commit leaves a directory that loads as the index in memory, if what was committed before and
what is pending make that index.
-/
theorem IndexWriter.commit_loads {usable : σ → Prop} (hr : Reliable σ usable) {d : σ}
    (hd : usable d) {analyzers : Analyzers} {writer : IndexWriter} {committed : List Change}
    (hsegments : Segments writer.last.segments)
    (hcommitted : changesOf d writer.last.segments = .ok committed)
    (hreplay : InvertedIndex.empty.replay analyzers (committed ++ writer.pending)
      = .ok writer.index) {segment : String}
    (hnew : Segment.fileName segment ∉ writer.last.segments) {userData : Table String String}
    {now : Moment} (hcommittable : writer.Committable userData now) :
    ∃ names next,
      let last : CommitPoint := ⟨writer.last.generation + 1, names, userData⟩
      (writer.commit segment userData now).runFrom d
          = (.ok { writer with pending := [], last }, next) ∧
        usable next ∧ Segments names ∧
        (∀ name ∈ names, name ∈ writer.last.segments ∨ name = Segment.fileName segment) ∧
        load analyzers next = .ok (last, writer.index) := by
  obtain ⟨names, next, hrun, husable, hmarker, hfile, hkept, hextends⟩ :=
    commit_written hr hd hsegments hnew userData now
  rw [← changesOf_congr hkept] at hcommitted
  have hreplayed := replaySegments_eq (hextends.changesOf hcommittable hcommitted) hreplay
  have hpublished : Published next ⟨writer.last.generation + 1, names, userData, now⟩ :=
    ⟨hmarker, hfile, hcommittable.generation, hcommittable.userData, hcommittable.time⟩
  exact ⟨names, next, hrun, husable, hextends.segments hsegments, hextends.mem,
    hpublished.load hr husable hreplayed⟩

end Storage

end DocIndex
