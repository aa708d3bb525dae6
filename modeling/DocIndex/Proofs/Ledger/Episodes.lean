/-
What an index knows of its documents, through everything that happens to it.

An index lives through episodes: chunks of requests and commits arrive, snapshots are taken and
restored, and its directory is opened again, by the same settings or by others.  Books are kept
beside it.  The step lemma is that every episode leaves an index that tallies with its books; one
that is opened with other settings may find that a text can no longer be analysed, and then there
is no index.  What tallies has noted every document of its journal, and so every live one.
-/
import DocIndex.Proofs.Ledger.Books

namespace DocIndex

open Storage (Copy Reliable Replaceable SnapshotReader SnapshotTarget)

/-! ### Episodes -/

namespace Storehouse

/-- What happens to an index, the settings of which may change when it is opened again. -/
inductive Episode (τ : Type) where
  | event (event : Event τ)
  /-- The index is closed, and its directory opened again with other settings. -/
  | reopenAs (builder : DocumentBuilder) (now : Moment)

variable {σ τ : Type} [Storage σ] [SnapshotTarget τ]

/-- The index after an episode. -/
def afterEpisode (source : τ → Except Error SnapshotReader) (house : Storehouse σ τ) :
    Episode τ → Except Error (Storehouse σ τ)
  | .event event => house.after source event
  | .reopenAs builder now => do
    let index ← OpenIndex.openWith builder.config builder.analyzers builder.fields
      (house.index.close now) house.index.pipeline.identifiers
    return { house with index }

/-- The index after episodes, one after the other, if there still is one. -/
def afterEpisodes (source : τ → Except Error SnapshotReader) (house : Storehouse σ τ) :
    List (Episode τ) → Except Error (Storehouse σ τ)
  | [] => .ok house
  | episode :: rest => do afterEpisodes source (← house.afterEpisode source episode) rest

/-- The index that is opened in a directory, after episodes. -/
def runAll (builder : DocumentBuilder) (source : τ → Except Error SnapshotReader) (d : σ)
    (identifiers : IdentifierSupply) (episodes : List (Episode τ)) :
    Except Error (Storehouse σ τ) := do
  let index ← OpenIndex.openWith builder.config builder.analyzers builder.fields d identifiers
  afterEpisodes source ⟨index, []⟩ episodes

theorem afterEpisodes_event (source : τ → Except Error SnapshotReader)
    (rest : List (Episode τ)) : ∀ (events : List (Event τ)) (house : Storehouse σ τ),
      house.afterEpisodes source (events.map .event ++ rest)
        = (house.afterAll source events).bind fun last => last.afterEpisodes source rest
  | [], _ => rfl
  | event :: events, house => by
      rw [List.map_cons, List.cons_append, afterEpisodes, afterEpisode, afterAll]
      cases house.after source event with
      | error e => rfl
      | ok next => exact afterEpisodes_event source rest events next

/-- A run that starts with events alone. -/
theorem runAll_event (builder : DocumentBuilder) (source : τ → Except Error SnapshotReader) (d : σ)
    (identifiers : IdentifierSupply) (events : List (Event τ)) (rest : List (Episode τ)) :
    runAll builder source d identifiers (events.map .event ++ rest)
      = (run builder source d identifiers events).bind fun last =>
        last.afterEpisodes source rest := by
  rw [runAll, run]
  cases OpenIndex.openWith builder.config builder.analyzers builder.fields d identifiers with
  | error e => rfl
  | ok index => exact afterEpisodes_event source rest events ⟨index, []⟩

/--
An episode that gives back what it writes: objects are tables, a commit that is not refused can
be read, and a target of a snapshot gives the files back.
-/
def Faithful (source : τ → Except Error SnapshotReader) (house : Storehouse σ τ) :
    Episode τ → Prop
  | .event (.arrive (.convert requests _) _ _) =>
    ∀ request ∈ requests, ∀ document ∈ request.document?, document.Tabular
  | .event (.arrive (.commit _ _) _ now) =>
    house.index.store.failure = none → house.index.store.Preservable now
  | .event (.snapshot target) => ∀ (copy : Copy) commit,
    copy.Of house.index.pipeline.directory commit → copy.HandedBack target source
  | .event (.reopen _) | .event (.restore _ _) | .reopenAs _ _ => True

end Storehouse

/-! ### Books -/

/-- The journal of an index, that of its last commit, and those of its snapshots. -/
structure Books where
  /-- What requests are converted with. -/
  builder : DocumentBuilder
  current : Journal
  committed : Option Journal
  saved : List Journal
  /-- Whether the next commit is going to be refused. -/
  failed : Bool

namespace Books

/-- The books of an index without documents. -/
def new (builder : DocumentBuilder) : Books := ⟨builder, [], none, [], false⟩

/-- The books when what a task delivers has arrived. -/
def arrive (books : Books) (next : IdentifierSupply) : WriteTask → Books
  | .convert requests _ =>
    match books.builder.convert next requests with
    | .ok edits =>
      { books with current := books.current.add books.builder.config.identityField edits }
    | .error _ => { books with failed := true }
  | .commit _ _ =>
    if books.failed then { books with failed := false }
    else { books with committed := some books.current }

/-- The books when the directory is opened at a commit. -/
def openAt (books : Books) (builder : DocumentBuilder) (committed : Option Journal) : Books :=
  ⟨builder, committed.getD [], committed, books.saved, false⟩

/-- The books when the directory was restored, if there is a snapshot of the number. -/
def restore (books : Books) (place : Nat) : Books :=
  match books.saved[place]? with
  | none => books
  | some journal => books.openAt books.builder (some journal)

/-- The books after an episode. -/
def after {τ : Type} (books : Books) : Storehouse.Episode τ → Books
  | .event (.arrive task next _) => books.arrive next task
  | .event (.reopen _) => books.openAt books.builder books.committed
  | .event (.snapshot _) => { books with saved := books.saved ++ books.committed.toList }
  | .event (.restore place _) => books.restore place
  | .reopenAs builder _ => books.openAt builder books.committed

/-- The books after episodes, one after the other. -/
def afterAll {τ : Type} (books : Books) (episodes : List (Storehouse.Episode τ)) : Books :=
  episodes.foldl after books

end Books

/-! ### The index and its books -/

namespace Storehouse

variable {σ τ : Type} [Storage σ] {usable : σ → Prop} {source : τ → Except Error SnapshotReader}
  {house next : Storehouse σ τ} {books : Books}

/-- An index at rest that is made of a journal and has noted its documents, with its directory. -/
structure Tallies (usable : σ → Prop) (source : τ → Except Error SnapshotReader)
    (house : Storehouse σ τ) (books : Books) : Prop where
  made : house.index.builder = books.builder
  calm : house.index.pipeline.Calm
  failed : house.index.store.failure.isSome = books.failed
  identityField : house.index.store.identityField = books.builder.config.identityField
  makes : books.current.Makes books.builder.analyzers house.index.store.writer.index
  tidy : house.index.store.Tidy
  notes : ∀ built ∈ books.current.documents, house.index.store.Notes built
  /-- The pending changes are those that are not committed yet. -/
  pending : ((books.committed.getD []).changes ++ house.index.store.writer.pending).map
    Change.narrowed = books.current.changes.map Change.narrowed
  rests : Rests usable house.index.pipeline.directory house.index.store.writer.last
    house.index.pipeline.identifiers books.committed
  taken : List.Forall₂ (Copied usable source house.index.pipeline.identifiers) house.taken
    books.saved

namespace Tallies

theorem calm_arrive (h : house.Tallies usable source books) (task : WriteTask)
    (next : IdentifierSupply) (now : Moment) :
    (house.index.arrive task next now).pipeline.Calm :=
  h.calm.deliver _ _

/-- What is opened in a directory tallies with the books of that. -/
theorem opened (hr : Reliable σ usable) {d : σ} {last : Storage.CommitPoint}
    {next : IdentifierSupply} {committed : Option Journal}
    (h : Rests usable d last next committed) {taken : List τ}
    (htaken : List.Forall₂ (Copied usable source next) taken books.saved)
    {builder : DocumentBuilder} {index : OpenIndex σ}
    (hopen : OpenIndex.openWith builder.config builder.analyzers builder.fields d next
      = .ok index) :
    (⟨index, taken⟩ : Storehouse σ τ).Tallies usable source (books.openAt builder committed) := by
  obtain ⟨store, hstore, hopen⟩ := bind_eq_ok.mp hopen
  obtain rfl := Except.ok.inj hopen
  have hopened := h.of_openAt hr hstore
  refine ⟨rfl, WritePipeline.calm_ofStore _ _ _ _, ?_, hopened.identityField, hopened.makes,
    hopened.tidy, hopened.notes, ?_, ?_, htaken⟩
  · show store.failure.isSome = false
    rw [hopened.failure]
    rfl
  · show (_ ++ store.writer.pending).map _ = _
    rw [hopened.pending, List.append_nil]
    rfl
  · show Rests _ _ store.writer.last _ _
    rw [hopened.last]
    exact h

/-- A chunk that is converted is booked, and its documents are noted. -/
theorem arrive_converted (h : house.Tallies usable source books) {requests : List WriteRequest}
    {next : IdentifierSupply} {edits : List Edit}
    (hedits : books.builder.convert next requests = .ok edits) (turn : Work.TurnKey) (now : Moment)
    (htabular : ∀ request ∈ requests, ∀ document ∈ request.document?, document.Tabular) :
    ({ house with index := house.index.arrive (.convert requests turn) next now } :
      Storehouse σ τ).Tallies usable source
        { books with
          current := books.current.add books.builder.config.identityField edits } := by
  have hanalysable := DocumentBuilder.analysable_of_convert hedits
  have hmade := DocumentStore.takeEdits_made hanalysable house.index.store
  rw [h.identityField] at hmade
  have hnoted := DocumentStore.notesAll_takeEdits hanalysable
    (DocumentBuilder.fromTables_of_convert hedits htabular) h.tidy
  have hcalm := h.calm_arrive (.convert requests turn) next now
  rw [house.index.arrive_edits turn now (h.made ▸ hedits), h.made] at hcalm ⊢
  refine ⟨h.made, hcalm, ?_, ?_, h.makes.add hmade.index, hnoted.tidy, ?_, ?_, ?_, h.taken⟩
  · show (DocumentStore.takeEdits _ _ _).failure.isSome = _
    rw [hmade.failure]
    exact h.failed
  · exact hmade.identityField.trans h.identityField
  · show ∀ built ∈ Journal.documents _, _
    rw [Journal.documents_add]
    exact List.forall_mem_append.mpr
      ⟨fun built hbuilt => hnoted.remembers built (h.notes built hbuilt), hnoted.documents⟩
  · show (_ ++ (DocumentStore.takeEdits _ _ _).writer.pending).map _
      = (Journal.changes (Journal.add _ _ _)).map _
    rw [hmade.pending, ← List.append_assoc, List.map_append, h.pending, Journal.changes_add,
      List.map_append]
  · show Rests _ _ (DocumentStore.takeEdits _ _ _).writer.last _ _
    rw [hmade.last]
    exact h.rests

/-- A chunk that is not converted leaves everything but the failure. -/
theorem arrive_failed (h : house.Tallies usable source books) {requests : List WriteRequest}
    {next : IdentifierSupply} {e : Error}
    (hfailed : books.builder.convert next requests = .error e) (turn : Work.TurnKey)
    (now : Moment) :
    ({ house with index := house.index.arrive (.convert requests turn) next now } :
      Storehouse σ τ).Tallies usable source { books with failed := true } := by
  have hcalm := h.calm_arrive (.convert requests turn) next now
  rw [house.index.arrive_failure turn now (h.made ▸ hfailed)] at hcalm ⊢
  exact ⟨h.made, hcalm, rfl, h.identityField, h.makes, h.tidy.congr rfl rfl,
    fun built hbuilt => (h.notes built hbuilt).congr rfl rfl, h.pending, h.rests, h.taken⟩

theorem taken_later (h : house.Tallies usable source books) {following : IdentifierSupply}
    (hle : house.index.pipeline.identifiers ≤ following) :
    List.Forall₂ (Copied usable source following) house.taken books.saved :=
  h.taken.imp fun _ _ hcopied => hcopied.later hle

/-- A commit that is refused leaves everything but the failure. -/
theorem commit_refused (h : house.Tallies usable source books) (hfailed : books.failed = true)
    (turn : Work.TurnKey) (ticket : Nat) (next : IdentifierSupply) (now : Moment) :
    ({ house with index := house.index.arrive (.commit turn ticket) next now } :
      Storehouse σ τ).Tallies usable source { books with failed := false } := by
  obtain ⟨e, he⟩ := Option.isSome_iff_exists.mp (h.failed.trans hfailed)
  have hrefused : house.index.store.answerCommit
      (Identifier.ofNat house.index.pipeline.identifiers) now house.index.pipeline.directory
      = (.error (.commitRefused e.message), { house.index.store with failure := none },
        house.index.pipeline.directory) := by
    simp only [DocumentStore.answerCommit, he]
  have hle : house.index.pipeline.identifiers ≤ house.index.pipeline.identifiers + 1 :=
    Nat.le_succ _
  have hcalm := h.calm_arrive (.commit turn ticket) next now
  rw [house.index.arrive_commit turn ticket now hrefused next] at hcalm ⊢
  exact ⟨h.made, hcalm, rfl, h.identityField, h.makes, h.tidy.congr rfl rfl,
    fun built hbuilt => (h.notes built hbuilt).congr rfl rfl, h.pending, h.rests.later hle,
    h.taken_later hle⟩

/-- A commit that is not refused makes the journal the committed one. -/
theorem commit_made (hr : Reliable σ usable) (h : house.Tallies usable source books)
    (hfailed : books.failed = false) (turn : Work.TurnKey) (ticket : Nat)
    (next : IdentifierSupply) {now : Moment}
    (hfaithful : house.index.store.failure = none → house.index.store.Preservable now) :
    ({ house with index := house.index.arrive (.commit turn ticket) next now } :
      Storehouse σ τ).Tallies usable source { books with committed := some books.current } := by
  have hfailure : house.index.store.failure = none := by
    have hnone := h.failed.trans hfailed
    rwa [Option.isSome_eq_false_iff, Option.isNone_iff_eq_none] at hnone
  obtain ⟨commit, directory, hanswer, hrests⟩ :=
    h.rests.answerCommit hr hfailure h.pending h.tidy h.notes (hfaithful hfailure)
  have hcalm := h.calm_arrive (.commit turn ticket) next now
  rw [house.index.arrive_commit turn ticket now hanswer next] at hcalm ⊢
  exact ⟨h.made, hcalm, h.failed, h.identityField, h.makes, h.tidy.congr rfl rfl,
    fun built hbuilt => (h.notes built hbuilt).congr rfl rfl,
    congrArg (List.map Change.narrowed) (List.append_nil _), hrests,
    h.taken_later (Nat.le_succ _)⟩

/-- Whatever arrives, the index tallies with its books. -/
theorem arrive [SnapshotTarget τ] (hr : Reliable σ usable) (h : house.Tallies usable source books)
    (task : WriteTask) (next : IdentifierSupply) (now : Moment)
    (hfaithful : house.Faithful source (.event (.arrive task next now))) :
    ({ house with index := house.index.arrive task next now } : Storehouse σ τ).Tallies usable
      source (books.arrive next task) := by
  cases task with
  | convert requests turn =>
      rw [Books.arrive]
      cases hedits : books.builder.convert next requests with
      | ok edits => exact h.arrive_converted hedits turn now hfaithful
      | error e => exact h.arrive_failed hedits turn now
  | commit turn ticket =>
      rw [Books.arrive]
      by_cases hfailed : books.failed = true
      · rw [if_pos hfailed]
        exact h.commit_refused hfailed turn ticket next now
      · rw [if_neg hfailed]
        exact h.commit_made hr (Bool.eq_false_iff.mpr hfailed) turn ticket next hfaithful

/-- Closing leaves the directory as it is. -/
theorem close_eq (h : house.Tallies usable source books) (now : Moment) :
    house.index.close now = house.index.pipeline.directory :=
  WritePipeline.close_calm (house.index.settings now) h.calm

/-- Whatever settings the directory is opened with, it goes back to the last commit. -/
theorem reopenAs [SnapshotTarget τ] (hr : Reliable σ usable)
    (h : house.Tallies usable source books) {builder : DocumentBuilder} {now : Moment}
    (hafter : house.afterEpisode source (.reopenAs builder now) = .ok next) :
    next.Tallies usable source (books.openAt builder books.committed) := by
  obtain ⟨index, hopen, hafter⟩ := bind_eq_ok.mp hafter
  obtain rfl := Except.ok.inj hafter
  rw [h.close_eq] at hopen
  exact opened hr h.rests h.taken hopen

theorem reopen [SnapshotTarget τ] (hr : Reliable σ usable)
    (h : house.Tallies usable source books) {now : Moment}
    (hafter : house.after source (.reopen now) = .ok next) :
    next.Tallies usable source (books.openAt books.builder books.committed) := by
  have hsame : house.after source (.reopen now)
      = house.afterEpisode source (.reopenAs books.builder now) := by
    rw [← h.made]
    rfl
  exact h.reopenAs hr (hsame ▸ hafter)

/-- A snapshot saves the committed journal, if there is one. -/
theorem snapshot [SnapshotTarget τ] (hr : Reliable σ usable)
    (h : house.Tallies usable source books) {target : τ}
    (hback : ∀ (copy : Copy) commit, copy.Of house.index.pipeline.directory commit →
      copy.HandedBack target source)
    (hafter : house.after source (.snapshot target) = .ok next) :
    next.Tallies usable source
      { books with saved := books.saved ++ books.committed.toList } := by
  obtain ⟨builder, current, committed, saved, failed⟩ := books
  cases committed with
  | none =>
      have hnothing : house.index.snapshot.runFrom target = (.error .nothingCommitted, target) :=
        Storage.Session.snapshot_of_unmarked (h.rests.unmarked rfl).1 target
      rw [after, hnothing] at hafter
      obtain rfl := Except.ok.inj hafter
      rw [Option.toList_none, List.append_nil]
      exact h
  | some journal =>
      obtain ⟨generation, filled, hrun, hcopied⟩ := h.rests.snapshot hr hback
      have hsnapshot : house.index.snapshot.runFrom target = (.ok generation, filled) := hrun
      rw [after, hsnapshot] at hafter
      obtain rfl := Except.ok.inj hafter
      exact { h with taken := List.rel_append h.taken (.cons hcopied .nil) }

/-- A restore goes back to the journal of the snapshot, if there is one of the number. -/
theorem restore [SnapshotTarget τ] (hr : Replaceable σ usable)
    (h : house.Tallies usable source books) {place : Nat} {now : Moment}
    (hafter : house.after source (.restore place now) = .ok next) :
    next.Tallies usable source (books.restore place) := by
  rw [Books.restore]
  by_cases hplace : place < house.taken.length
  · have hsaved : place < books.saved.length := h.taken.length_eq ▸ hplace
    have hcopied : Copied usable source house.index.pipeline.identifiers house.taken[place]
        books.saved[place] := h.taken.get hplace hsaved
    obtain ⟨generation, restored, last, hrun, hrests⟩ := hcopied.restore hr h.rests.usable
    simp only [after, List.getElem?_eq_getElem hplace, OpenIndex.restore, h.close_eq,
      hrun] at hafter
    obtain ⟨index, hopen, hafter⟩ := bind_eq_ok.mp hafter
    obtain rfl := Except.ok.inj hafter
    rw [List.getElem?_eq_getElem hsaved, ← h.made]
    exact opened hr.toReliable hrests h.taken hopen
  · rw [after, List.getElem?_eq_none (Nat.le_of_not_lt hplace)] at hafter
    obtain rfl := Except.ok.inj hafter
    rw [List.getElem?_eq_none (h.taken.length_eq ▸ Nat.le_of_not_lt hplace)]
    exact h

/-- **Every episode leaves an index that tallies with its books.** -/
theorem after [SnapshotTarget τ] (hr : Replaceable σ usable)
    (h : house.Tallies usable source books) {episode : Episode τ}
    (hfaithful : house.Faithful source episode)
    (hafter : house.afterEpisode source episode = .ok next) :
    next.Tallies usable source (books.after episode) := by
  cases episode with
  | reopenAs builder now => exact h.reopenAs hr.toReliable hafter
  | event event =>
      cases event with
      | arrive task identifiers now =>
          obtain rfl := Except.ok.inj hafter
          exact h.arrive hr.toReliable task identifiers now hfaithful
      | reopen now => exact h.reopen hr.toReliable hafter
      | snapshot target => exact h.snapshot hr.toReliable hfaithful hafter
      | restore place now => exact h.restore hr hafter

/-- **Every run leaves an index that tallies with its books.** -/
theorem afterAll [SnapshotTarget τ] (hr : Replaceable σ usable) :
    ∀ {episodes : List (Episode τ)} {house last : Storehouse σ τ} {books : Books},
      house.Tallies usable source books →
      (∀ before episode rest, episodes = before ++ episode :: rest →
        ∀ middle, house.afterEpisodes source before = .ok middle →
          middle.Faithful source episode) →
      house.afterEpisodes source episodes = .ok last →
        last.Tallies usable source (books.afterAll episodes)
  | [], house, last, books, h, _, hrun => by
      obtain rfl := Except.ok.inj hrun
      exact h
  | episode :: rest, house, last, books, h, hfaithful, hrun => by
      obtain ⟨middle, hmiddle, hrest⟩ := bind_eq_ok.mp hrun
      have hnext := h.after hr (hfaithful [] episode rest rfl house rfl) hmiddle
      have hlater : ∀ before other others, rest = before ++ other :: others →
          ∀ between, middle.afterEpisodes source before = .ok between →
            between.Faithful source other := by
        intro before other others heq between hbetween
        refine hfaithful (episode :: before) other others (congrArg (episode :: ·) heq) between ?_
        exact bind_eq_ok.mpr ⟨middle, hmiddle, hbetween⟩
      have hlast : last.Tallies usable source ((books.after episode).afterAll rest) :=
        afterAll hr hnext hlater hrest
      exact hlast

end Tallies

variable [SnapshotTarget τ]

/--
**Whatever becomes of an index, it knows of its documents.**  Take an index in a directory without
a commit, and whatever happens to it: chunks of requests arrive, some of which cannot be converted,
and commits, which may be refused; snapshots are taken and restored; and the directory is opened
again, with the same settings or with others.  As long as there is an index, it is made of its
journal, and every live document is the one of its number there.  Each of its searched fields is
recorded for its content type with its name, kind and analyzer, can be searched, and is listed if
it has terms and is not one of the index itself; and the schema of the content type describes the
JSON that the document was built of.
-/
theorem runAll_covers {usable : σ → Prop} (hr : Replaceable σ usable) {d : σ} (hd : usable d)
    (hempty : Storage.hasFile d Storage.GenerationMarker.fileName = false)
    {builder : DocumentBuilder} {source : τ → Except Error SnapshotReader}
    {identifiers : IdentifierSupply} {episodes : List (Episode τ)} {last : Storehouse σ τ}
    (hfaithful : ∀ before episode rest, episodes = before ++ episode :: rest →
      ∀ house, runAll builder source d identifiers before = .ok house →
        house.Faithful source episode)
    (hrun : runAll builder source d identifiers episodes = .ok last) :
    let books := (Books.new builder).afterAll episodes
    let store := last.index.store
    books.current.Makes books.builder.analyzers store.writer.index ∧
    ∀ doc ∈ store.writer.index.live, ∃ built,
      books.current.documents[doc]? = some built ∧ built.FromTables ∧
        ∀ (builder : DocumentBuilder) (json : Json), json.Tabular →
          builder.build json = .ok built →
            store.Covers built.contentType built.document json := by
  obtain ⟨index, hopen, hepisodes⟩ := bind_eq_ok.mp hrun
  have hrests : Rests usable d .initial identifiers none := .initial hd hempty
  have htaken : List.Forall₂ (Copied usable source identifiers) [] (Books.new builder).saved :=
    .nil
  have hstart : (⟨index, []⟩ : Storehouse σ τ).Tallies usable source (Books.new builder) :=
    Tallies.opened hr.toReliable hrests htaken hopen
  have htallies := hstart.afterAll hr (fun before episode rest heq middle hmiddle =>
    hfaithful before episode rest heq middle (bind_eq_ok.mpr ⟨index, hopen, hmiddle⟩)) hepisodes
  refine ⟨htallies.makes, fun doc hdoc => ?_⟩
  obtain ⟨built, hbuilt⟩ := htallies.makes.exists_document hdoc
  have hnotes := htallies.notes built (List.mem_of_getElem? hbuilt)
  exact ⟨built, hbuilt, hnotes.fromTables, fun _ _ htabular hbuild =>
    hnotes.covers htabular hbuild⟩

/-- Settings by which documents are updated and deleted by their names. -/
def byName : DocumentBuilder :=
  { DocumentBuilder.standard with config := { Config.default with identityField := "name" } }

/-- A document is restored, and then the directory is opened with other settings. -/
def reconfigured : List (Episode Storage.Archive) :=
  deletedAndRestored.map .event ++ [.reopenAs byName ⟨0, 0, 0⟩]

theorem tabular_misleading : misleading.Tabular := ⟨by decide, trivial, trivial, trivial⟩

theorem tabular_misleadingPrepared : misleadingPrepared.Tabular :=
  ⟨by decide, trivial, trivial, trivial, trivial⟩

theorem preservable_misleading {house : Storehouse Storage.Directory Storage.Archive}
    (h : afterEvents (deletedAndRestored.take 1) = .ok house) :
    house.index.store.Preservable ⟨0, 0, 0⟩ := by
  have hcompression : (afterEvents (deletedAndRestored.take 1)).toOption.all (fun house =>
      decide (house.index.store.writer.compression = .lz4)) = true := by
    decide +kernel
  rw [h] at hcompression
  have hlz4 : house.index.store.writer.compression = .lz4 := of_decide_eq_true hcompression
  have hrecoverable := recoverable_misleading h
  exact ⟨hrecoverable.segment, hlz4 ▸ Compression.restores_lz4 _, hrecoverable.generation,
    hrecoverable.time⟩

theorem afterEvents_of_runAll (events : List (Event Storage.Archive))
    {house : Storehouse Storage.Directory Storage.Archive}
    (h : runAll DocumentBuilder.standard Storage.Archive.reader Storage.Directory.inMemory 0
      (events.map .event) = .ok house) : afterEvents events = .ok house := by
  rw [← List.append_nil (events.map _), runAll_event] at h
  obtain ⟨last, hlast, hrest⟩ := bind_eq_ok.mp h
  exact hlast.trans hrest

theorem faithful_reconfigured {before rest : List (Episode Storage.Archive)}
    {episode : Episode Storage.Archive} (heq : reconfigured = before ++ episode :: rest)
    {house : Storehouse Storage.Directory Storage.Archive}
    (hhouse : runAll DocumentBuilder.standard Storage.Archive.reader Storage.Directory.inMemory 0
      before = .ok house) :
    house.Faithful Storage.Archive.reader episode := by
  rcases before with
    - | ⟨first, - | ⟨second, - | ⟨third, - | ⟨fourth, - | ⟨fifth, - | ⟨sixth, - | ⟨seventh,
      others⟩⟩⟩⟩⟩⟩⟩ <;>
    simp only [reconfigured, deletedAndRestored, List.map_cons, List.map_nil, List.nil_append,
      List.cons_append, List.cons.injEq] at heq
  · obtain ⟨rfl, -⟩ := heq
    exact List.forall_mem_singleton.mpr fun _ hdocument =>
      Option.some.inj hdocument ▸ tabular_misleading
  · obtain ⟨rfl, rfl, -⟩ := heq
    exact fun _ => preservable_misleading
      (afterEvents_of_runAll (deletedAndRestored.take 1) hhouse)
  · obtain ⟨rfl, rfl, rfl, -⟩ := heq
    exact handedBack_misleading
      (afterEvents_of_runAll (deletedAndRestored.take 2) hhouse)
  · obtain ⟨-, -, -, rfl, -⟩ := heq
    exact List.forall_mem_singleton.mpr fun _ hdocument => by cases hdocument
  · obtain ⟨-, -, -, -, rfl, -⟩ := heq
    trivial
  · obtain ⟨-, -, -, -, -, rfl, -⟩ := heq
    trivial
  · obtain ⟨-, -, -, -, -, -, rfl, -⟩ := heq
    trivial
  · simp at heq

/-- There is an index after the run, with the document. -/
theorem exists_reconfigured : ∃ last : Storehouse Storage.Directory Storage.Archive,
    runAll DocumentBuilder.standard Storage.Archive.reader .inMemory 0 reconfigured = .ok last ∧
      last.index.store.writer.index.live = [0] := by
  obtain ⟨middle, hmiddle, hcarries⟩ := run_carries Storage.replaceable_inMemory
    (show Storage.Directory.inMemory.medium = .memory ∧
      Table.Sorted Storage.Directory.inMemory.files from ⟨rfl, Table.sorted_nil⟩) rfl
    Compression.restores_lz4 fun before event rest heq house hhouse =>
      sound_deletedAndRestored heq hhouse
  obtain ⟨store, hopen, hmakes, -⟩ := hcarries.lays.opens.openAt byName.config
  let stock := (Inventory.empty.afterAll DocumentBuilder.standard deletedAndRestored).current
  have hlive : (InvertedIndex.empty.replay DocumentBuilder.standard.analyzers
      stock.narrowed.changes).toOption.map InvertedIndex.live = some [0] := by
    decide +kernel
  have hstock : stock.narrowed.Makes DocumentBuilder.standard.analyzers store.writer.index :=
    hmakes
  rw [hstock] at hlive
  let index : OpenIndex Storage.Directory := ⟨byName.config, byName.analyzers, byName.fields,
    .ofStore byName.config.capacityCeiling store middle.index.pipeline.directory
      middle.index.pipeline.identifiers, .empty byName.config.queryCacheSize⟩
  refine ⟨⟨index, middle.taken⟩, ?_, Option.some.inj hlive⟩
  rw [reconfigured, runAll_event, hmiddle]
  show (middle.afterEpisode Storage.Archive.reader (.reopenAs byName ⟨0, 0, 0⟩)).bind _ = _
  rw [afterEpisode, hcarries.close_eq, OpenIndex.openWith,
    show byName.analyzers = DocumentBuilder.standard.analyzers from rfl, hopen]
  rfl

theorem runAll_covers_reconfigured : ∃ last : Storehouse Storage.Directory Storage.Archive,
    runAll DocumentBuilder.standard Storage.Archive.reader .inMemory 0 reconfigured = .ok last ∧
      last.index.store.writer.index.live = [0] ∧
      ∃ built, DocumentBuilder.standard.build misleadingPrepared = .ok built ∧
        last.index.store.Covers built.contentType built.document misleadingPrepared := by
  obtain ⟨last, hlast, hlive⟩ := exists_reconfigured
  obtain ⟨-, hcovers⟩ := runAll_covers Storage.replaceable_inMemory
    (show Storage.Directory.inMemory.medium = .memory ∧
      Table.Sorted Storage.Directory.inMemory.files from ⟨rfl, Table.sorted_nil⟩) rfl
    (fun before episode rest heq house hhouse => faithful_reconfigured heq hhouse) hlast
  obtain ⟨built, hdocument, -, hall⟩ := hcovers 0 (hlive ▸ List.mem_cons_self)
  have hbooked : ((Books.new DocumentBuilder.standard).afterAll reconfigured).current.documents[0]?
      = (DocumentBuilder.standard.build misleadingPrepared).toOption := rfl
  have hbuild : DocumentBuilder.standard.build misleadingPrepared = .ok built := by
    rw [hbooked] at hdocument
    cases hbuilt : DocumentBuilder.standard.build misleadingPrepared with
    | error e => rw [hbuilt] at hdocument; cases hdocument
    | ok made =>
        rw [hbuilt] at hdocument
        exact congrArg Except.ok (Option.some.inj hdocument)
  exact ⟨last, hlast, hlive, built, hbuild, hall _ _ tabular_misleadingPrepared hbuild⟩

end Storehouse

end DocIndex
