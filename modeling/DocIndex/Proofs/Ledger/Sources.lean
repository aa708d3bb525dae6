/-
Documents read back from their source, whatever becomes of the index.

An index is written to, committed, opened again, copied and restored, and beside it runs an
inventory of what is in stock: in the index, in the last commit, and in every snapshot.  A commit
writes the changes of the stock down, so that these are also what a snapshot copies and what
opening a directory gives.  The stock goes back only where the index does: to the last commit
when the directory is opened again, and to a snapshot when that is restored.
-/
import DocIndex.Proofs.Ledger.Stocks
import DocIndex.Proofs.Storage.Restoring
import DocIndex.Proofs.Writing.Reopening
import DocIndex.Proofs.Writing.Settling

namespace DocIndex

open Storage (Commit CommitPoint Copy Published Reliable Replaceable Segments SnapshotReader
  SnapshotTarget)

/-! ### Directories and their snapshots -/

section Directories

variable {σ τ : Type} [Storage σ] {builder : DocumentBuilder} {usable : σ → Prop}
  {source : τ → Except Error SnapshotReader} {next : IdentifierSupply}

/-- A directory that opens at a commit of a stock, or at no commit. -/
structure Lays (builder : DocumentBuilder) (usable : σ → Prop) (d : σ) (last : CommitPoint)
    (next : IdentifierSupply) (committed : Option Stock) : Prop where
  usable : usable d
  segments : Segments last.segments
  /-- No identifier that is still to be handed out names a segment. -/
  fresh : ∀ n, next ≤ n → Storage.Segment.fileName (Identifier.ofNat n) ∉ last.segments
  opens : Opens builder.analyzers d last
    ((committed.getD .empty).narrowed.Makes builder.analyzers)
  sound : (committed.getD .empty).Sound builder
  unmarked : committed = none →
    Storage.hasFile d Storage.GenerationMarker.fileName = false
  published : committed.isSome = true → ∃ commit, Published d commit ∧ last = .ofCommit commit

/-- A snapshot that gives a copy of the directory of a stock back. -/
def Archived (builder : DocumentBuilder) (usable : σ → Prop)
    (source : τ → Except Error SnapshotReader) (next : IdentifierSupply) (filled : τ)
    (stock : Stock) : Prop :=
  ∃ (d : σ) (commit : Commit) (copy : Copy) (reader : SnapshotReader),
    Lays builder usable d (.ofCommit commit) next (some stock) ∧ Published d commit ∧
      copy.Of d commit.inUtc ∧ copy.generation = commit.generation ∧
      copy.segmentsFile.2 = commit.toBytes ∧ source filled = .ok reader ∧ reader.Gives copy

namespace Lays

variable {d : σ} {last : CommitPoint} {committed : Option Stock}

/-- A directory without a marker has nothing in stock. -/
theorem initial (hd : usable d)
    (hempty : Storage.hasFile d Storage.GenerationMarker.fileName = false) :
    Lays builder usable d .initial next none where
  usable := hd
  segments := List.forall_mem_nil _
  fresh := fun _ _ => List.not_mem_nil
  opens := .initial hempty rfl
  sound := .empty
  unmarked := fun _ => hempty
  published := fun h => by cases h

theorem later (h : Lays builder usable d last next committed) {following : IdentifierSupply}
    (hle : next ≤ following) : Lays builder usable d last following committed :=
  { h with fresh := fun n hn => h.fresh n (Nat.le_trans hle hn) }

/-- A snapshot of a directory with a commit is taken. -/
theorem snapshot [SnapshotTarget τ] (hr : Reliable σ usable) {stock : Stock}
    (h : Lays builder usable d last next (some stock)) {target : τ}
    (hback : ∀ (copy : Copy) commit, copy.Of d commit → copy.HandedBack target source) :
    ∃ generation filled, (Storage.snapshot d).runFrom target = (.ok generation, filled) ∧
      Archived builder usable source next filled stock := by
  obtain ⟨commit, hpublished, rfl⟩ := h.published rfl
  obtain ⟨index, hload, -⟩ := h.opens.loads
  obtain ⟨copy, hof, hgeneration, hbytes⟩ := Copy.exists_of (hpublished.committed hr h.usable)
    (Storage.IndexWriter.readable_of_replaySegments
      (Storage.IndexWriter.replaySegments_of_load hload))
  obtain ⟨filled, reader, hhand, hsource, hgives⟩ := hback copy _ hof
  exact ⟨copy.generation, filled, hof.runFrom_snapshot hhand, d, commit, copy, reader, h,
    hpublished, hof, hgeneration, hbytes, hsource, hgives⟩

end Lays

namespace Archived

variable {filled : τ} {stock : Stock}

theorem later (h : Archived builder usable source next filled stock)
    {following : IdentifierSupply} (hle : next ≤ following) :
    Archived builder usable source following filled stock := by
  obtain ⟨d, commit, copy, reader, hlays, hrest⟩ := h
  exact ⟨d, commit, copy, reader, hlays.later hle, hrest⟩

/-- **A directory that is restored from a snapshot has the stock of that.** -/
theorem restore (hr : Replaceable σ usable)
    (h : Archived builder usable source next filled stock) {other : σ}
    (hother : usable other) :
    ∃ generation restored last,
      (Storage.restore (source filled)).runFrom other = (.ok generation, restored) ∧
        Lays builder usable restored last next (some stock) := by
  obtain ⟨d, commit, copy, reader, hlays, hpublished, hof, hgeneration, hbytes, hsource, hgives⟩ :=
    h
  obtain ⟨restored, hrun, husable, hreproduces⟩ :=
    hpublished.restore_ok hr hother hlays.segments hof hgeneration hbytes hgives
  obtain ⟨hagain, hload⟩ := hpublished.load_congr hr.toReliable hlays.usable hr.toReliable husable
    fun name hname => hreproduces.read name ((hreproduces.lists name).mpr hname)
  refine ⟨commit.generation, restored, .ofCommit commit, by rw [hsource, hrun], husable,
    hlays.segments, hlays.fresh, ⟨?_, hlays.opens.catalog, hlays.opens.schemas⟩, hlays.sound,
    (by cases ·), fun _ => ⟨commit, hagain, rfl⟩⟩
  rw [hload]
  exact hlays.opens.loads

end Archived

end Directories

/-! ### An index with its snapshots -/

namespace OpenIndex

variable {σ : Type}

/-- What requests are converted with. -/
def builder (index : OpenIndex σ) : DocumentBuilder :=
  ⟨index.config, index.fields, index.analyzers⟩

/-- The index when what a task delivers has arrived, its documents named from an identifier on. -/
def arrive [Storage σ] (index : OpenIndex σ) (task : WriteTask) (next : IdentifierSupply)
    (now : Moment) : OpenIndex σ :=
  { index with
    pipeline := index.pipeline.deliver (index.settings now) (task.result index.builder next) }

variable [Storage σ] (index : OpenIndex σ) {requests : List WriteRequest}
  {next : IdentifierSupply} {edits : List Edit} {e : Error} (turn : Work.TurnKey) (ticket : Nat)
  (now : Moment)

/-- The edits of a chunk that is converted are made. -/
theorem arrive_edits (h : index.builder.convert next requests = .ok edits) :
    index.arrive (.convert requests turn) next now = { index with
      pipeline := { index.pipeline with
        store := index.store.takeEdits index.builder.analyzers edits } } := by
  rw [arrive, WriteTask.result, h]
  rfl

/-- The failure of a chunk that is not converted is held. -/
theorem arrive_failure (h : index.builder.convert next requests = .error e) :
    index.arrive (.convert requests turn) next now = { index with
      pipeline := { index.pipeline with store := index.store.hold e } } := by
  rw [arrive, WriteTask.result, h]
  rfl

/-- A commit is answered by the store. -/
theorem arrive_commit {answer : Except Error Nat} {store : DocumentStore} {directory : σ}
    (h : index.store.answerCommit (Identifier.ofNat index.pipeline.identifiers) now
      index.pipeline.directory = (answer, store, directory)) (next : IdentifierSupply) :
    index.arrive (.commit turn ticket) next now = { index with
      pipeline := { index.pipeline with
        store
        directory
        identifiers := index.pipeline.identifiers + 1
        answers := Table.insert index.pipeline.answers ticket answer } } := by
  simp only [arrive, WriteTask.result, WritePipeline.deliver, settings]
  rw [show index.pipeline.store = index.store from rfl, h]
  rfl

end OpenIndex

/-- An index, and the snapshots that were taken of it. -/
structure Storehouse (σ τ : Type) where
  index : OpenIndex σ
  taken : List τ

namespace Storehouse

/-- What happens to an index. -/
inductive Event (τ : Type) where
  /-- A chunk of requests or a commit arrives. -/
  | arrive (task : WriteTask) (next : IdentifierSupply) (now : Moment)
  /-- The index is closed and its directory opened again. -/
  | reopen (now : Moment)
  | snapshot (target : τ)
  /-- The directory is restored from a snapshot, if there is one of the number. -/
  | restore (place : Nat) (now : Moment)

variable {σ τ : Type} [Storage σ] [SnapshotTarget τ]

/-- The index after an event. -/
def after (source : τ → Except Error SnapshotReader) (house : Storehouse σ τ) :
    Event τ → Except Error (Storehouse σ τ)
  | .arrive task next now => .ok { house with index := house.index.arrive task next now }
  | .reopen now => do
    let index ← OpenIndex.openWith house.index.config house.index.analyzers house.index.fields
      (house.index.close now) house.index.pipeline.identifiers
    return { house with index }
  | .snapshot target =>
    match house.index.snapshot.runFrom target with
    | (.ok _, filled) => .ok { house with taken := house.taken ++ [filled] }
    | (.error _, _) => .ok house
  | .restore place now =>
    match house.taken[place]? with
    | none => .ok house
    | some filled => do
      let index ← (house.index.restore (source filled) now).1
      return { house with index }

/-- The index after events, one after the other, if all of them succeed. -/
def afterAll (source : τ → Except Error SnapshotReader) (house : Storehouse σ τ) :
    List (Event τ) → Except Error (Storehouse σ τ)
  | [] => .ok house
  | event :: rest => do afterAll source (← house.after source event) rest

/-- The index that is opened in a directory, after events. -/
def run (builder : DocumentBuilder) (source : τ → Except Error SnapshotReader) (d : σ)
    (identifiers : IdentifierSupply) (events : List (Event τ)) :
    Except Error (Storehouse σ τ) := do
  let index ← OpenIndex.openWith builder.config builder.analyzers builder.fields d identifiers
  afterAll source ⟨index, []⟩ events

/--
An event that gives back what it writes: JSON is parsed as it was written, a commit that is not
refused can be read, and a target of a snapshot gives the files back.
-/
def Sound (source : τ → Except Error SnapshotReader) (house : Storehouse σ τ) : Event τ → Prop
  | .arrive (.convert requests _) next _ =>
    ∀ json ∈ house.index.builder.prepared next requests, json.Rereads
  | .arrive (.commit _ _) _ now =>
    house.index.store.failure = none → house.index.store.Recoverable now
  | .snapshot target => ∀ (copy : Copy) commit,
    copy.Of house.index.pipeline.directory commit → copy.HandedBack target source
  | .reopen _ | .restore _ _ => True

end Storehouse

/-! ### The inventory -/

/-- The stock of an index, that of its last commit, and those of its snapshots. -/
structure Inventory where
  current : Stock
  committed : Option Stock
  saved : List Stock
  /-- Whether the next commit is going to be refused. -/
  failed : Bool

namespace Inventory

def empty : Inventory := ⟨.empty, none, [], false⟩

variable (builder : DocumentBuilder)

/-- The inventory when what a task delivers has arrived. -/
def arrive (inventory : Inventory) (next : IdentifierSupply) : WriteTask → Inventory
  | .convert requests _ =>
    match builder.convert next requests with
    | .ok edits => { inventory with current := inventory.current.add builder next requests edits }
    | .error _ => { inventory with failed := true }
  | .commit _ _ =>
    if inventory.failed then { inventory with failed := false }
    else { inventory with committed := some inventory.current }

/-- The inventory when the directory is opened at a commit. -/
def openAt (inventory : Inventory) (committed : Option Stock) : Inventory :=
  ⟨(committed.getD .empty).narrowed, committed, inventory.saved, false⟩

/-- The inventory when the directory was restored, if there is a snapshot of the number. -/
def restore (inventory : Inventory) (place : Nat) : Inventory :=
  match inventory.saved[place]? with
  | none => inventory
  | some stock => inventory.openAt (some stock)

/-- The inventory after an event. -/
def after {τ : Type} (inventory : Inventory) : Storehouse.Event τ → Inventory
  | .arrive task next _ => inventory.arrive builder next task
  | .reopen _ => inventory.openAt inventory.committed
  | .snapshot _ => { inventory with saved := inventory.saved ++ inventory.committed.toList }
  | .restore place _ => inventory.restore place

/-- The inventory after events, one after the other. -/
def afterAll {τ : Type} (inventory : Inventory) (events : List (Storehouse.Event τ)) : Inventory :=
  events.foldl (after builder) inventory

end Inventory

/-! ### The index and its inventory -/

namespace Storehouse

variable {σ τ : Type} [Storage σ] {builder : DocumentBuilder} {usable : σ → Prop}
  {source : τ → Except Error SnapshotReader}

/-- An index at rest that is made of a stock, with a directory and snapshots of the others. -/
structure Carries (builder : DocumentBuilder) (usable : σ → Prop)
    (source : τ → Except Error SnapshotReader) (house : Storehouse σ τ) (inventory : Inventory) :
    Prop where
  made : house.index.builder = builder
  calm : house.index.pipeline.Calm
  failed : house.index.store.failure.isSome = inventory.failed
  compression : house.index.store.writer.compression = builder.config.sourceCompression
  identityField : house.index.store.identityField = builder.config.identityField
  makes : inventory.current.Makes builder.analyzers house.index.store.writer.index
  sound : inventory.current.Sound builder
  /-- The pending changes are those that are not committed yet. -/
  pending : (inventory.committed.getD .empty).narrowed.changes
      ++ house.index.store.writer.pending.map Change.narrowed
    = inventory.current.narrowed.changes
  lays : Lays builder usable house.index.pipeline.directory house.index.store.writer.last
    house.index.pipeline.identifiers inventory.committed
  taken : List.Forall₂ (Archived builder usable source house.index.pipeline.identifiers)
    house.taken inventory.saved

end Storehouse

namespace WritePipeline

variable {σ : Type} [Storage σ]

/-- A delivery puts nothing on its way. -/
theorem Calm.deliver {p : WritePipeline σ} (h : p.Calm) (settings : WriteSettings)
    (delivery : Delivery) : (p.deliver settings delivery).Calm := by
  obtain ⟨hsequencer, hscheduler, -⟩ := deliver_frame settings p delivery
  refine ⟨⟨?_, ?_, ?_⟩, ?_, ?_⟩
  · rw [hsequencer]
    exact h.idle.planned
  · rw [tasks, hscheduler]
    exact h.idle.tasks
  · rw [hscheduler]
    exact h.idle.acceptsJobs
  · rw [hscheduler]
    exact h.running
  · rw [hscheduler]
    exact h.sources

end WritePipeline

namespace Storehouse.Carries

variable {σ τ : Type} [Storage σ] {builder : DocumentBuilder} {usable : σ → Prop}
  {source : τ → Except Error SnapshotReader} {house : Storehouse σ τ} {inventory : Inventory}

theorem failure_eq_none (h : house.Carries builder usable source inventory)
    (hfailed : inventory.failed = false) : house.index.store.failure = none := by
  have hnone := h.failed.trans hfailed
  rwa [Option.isSome_eq_false_iff, Option.isNone_iff_eq_none] at hnone

theorem calm_arrive (h : house.Carries builder usable source inventory) (task : WriteTask)
    (next : IdentifierSupply) (now : Moment) : (house.index.arrive task next now).pipeline.Calm :=
  h.calm.deliver _ _

/-- What is opened in the directory of a stock is made of that. -/
theorem opened {d : σ} {last : CommitPoint} {next : IdentifierSupply} {committed : Option Stock}
    (h : Lays builder usable d last next committed) {taken : List τ}
    (htaken : List.Forall₂ (Archived builder usable source next) taken inventory.saved) :
    ∃ index, OpenIndex.openWith builder.config builder.analyzers builder.fields d next
        = .ok index ∧
      (⟨index, taken⟩ : Storehouse σ τ).Carries builder usable source
        (inventory.openAt committed) := by
  obtain ⟨store, hopen, hmakes, hpending, rfl, hcompression, hidentity, hfailure⟩ :=
    h.opens.openAt builder.config
  let index : OpenIndex σ := ⟨builder.config, builder.analyzers, builder.fields,
    .ofStore builder.config.capacityCeiling store d next,
    .empty builder.config.queryCacheSize⟩
  have hindex : OpenIndex.openWith builder.config builder.analyzers builder.fields d next
      = .ok index := by
    rw [OpenIndex.openWith, hopen]
    rfl
  refine ⟨index, hindex, rfl, WritePipeline.calm_ofStore _ _ _ _, ?_, hcompression, hidentity,
    hmakes, h.sound.narrowed, ?_, h, htaken⟩
  · show store.failure.isSome = false
    rw [hfailure]
    rfl
  · show _ ++ store.writer.pending.map _ = (committed.getD .empty).narrowed.narrowed.changes
    rw [hpending, Stock.changes_narrowed_narrowed]
    exact List.append_nil _

/-- A chunk that is converted is added to the stock. -/
theorem arrive_converted (h : house.Carries builder usable source inventory)
    {requests : List WriteRequest} {next : IdentifierSupply} {edits : List Edit}
    (hedits : builder.convert next requests = .ok edits) (turn : Work.TurnKey) (now : Moment)
    (hrereads : ∀ json ∈ builder.prepared next requests, json.Rereads) :
    ({ house with index := house.index.arrive (.convert requests turn) next now } :
      Storehouse σ τ).Carries builder usable source
        { inventory with current := inventory.current.add builder next requests edits } := by
  have hmade := DocumentStore.takeEdits_made (DocumentBuilder.analysable_of_convert hedits)
    house.index.store
  rw [h.identityField] at hmade
  have hcalm := h.calm_arrive (.convert requests turn) next now
  rw [house.index.arrive_edits turn now (h.made ▸ hedits), h.made] at hcalm ⊢
  refine ⟨h.made, hcalm, ?_, ?_, ?_, ?_, h.sound.add hedits hrereads, ?_, ?_, h.taken⟩
  · show (DocumentStore.takeEdits _ _ _).failure.isSome = _
    rw [hmade.failure]
    exact h.failed
  · exact hmade.compression.trans h.compression
  · exact hmade.identityField.trans h.identityField
  · exact (InvertedIndex.replay_append h.makes).trans hmade.index
  · show _ ++ (DocumentStore.takeEdits _ _ _).writer.pending.map _ = _
    rw [hmade.pending, List.map_append, ← List.append_assoc, h.pending, Stock.changes_narrowed_add]
  · show Lays _ _ _ (DocumentStore.takeEdits _ _ _).writer.last _ _
    rw [hmade.last]
    exact h.lays

/-- A chunk that is not converted leaves everything but the failure. -/
theorem arrive_failed (h : house.Carries builder usable source inventory)
    {requests : List WriteRequest} {next : IdentifierSupply} {e : Error}
    (hfailed : builder.convert next requests = .error e) (turn : Work.TurnKey) (now : Moment) :
    ({ house with index := house.index.arrive (.convert requests turn) next now } :
      Storehouse σ τ).Carries builder usable source { inventory with failed := true } := by
  have hcalm := h.calm_arrive (.convert requests turn) next now
  rw [house.index.arrive_failure turn now (h.made ▸ hfailed)] at hcalm ⊢
  exact ⟨h.made, hcalm, rfl, h.compression, h.identityField, h.makes, h.sound, h.pending, h.lays,
    h.taken⟩

theorem taken_later (h : house.Carries builder usable source inventory)
    {following : IdentifierSupply} (hle : house.index.pipeline.identifiers ≤ following) :
    List.Forall₂ (Archived builder usable source following) house.taken inventory.saved :=
  h.taken.imp fun _ _ harchived => harchived.later hle

/-- A commit that is refused leaves everything but the failure. -/
theorem commit_refused (h : house.Carries builder usable source inventory)
    (hfailed : inventory.failed = true) (turn : Work.TurnKey) (ticket : Nat)
    (next : IdentifierSupply) (now : Moment) :
    ({ house with index := house.index.arrive (.commit turn ticket) next now } :
      Storehouse σ τ).Carries builder usable source { inventory with failed := false } := by
  obtain ⟨e, he⟩ := Option.isSome_iff_exists.mp (h.failed.trans hfailed)
  have hrefused : house.index.store.answerCommit
      (Identifier.ofNat house.index.pipeline.identifiers) now house.index.pipeline.directory
      = (.error (.commitRefused e.message), { house.index.store with failure := none },
        house.index.pipeline.directory) := by
    simp only [DocumentStore.answerCommit, he]
  have hle : house.index.pipeline.identifiers ≤ house.index.pipeline.identifiers + 1 :=
    Nat.le_succ _
  have hcalm := h.calm_arrive (.commit turn ticket) next now
  rw [house.index.arrive_commit turn ticket now hrefused next] at hcalm ⊢
  exact ⟨h.made, hcalm, rfl, h.compression, h.identityField, h.makes, h.sound, h.pending,
    h.lays.later hle, h.taken_later hle⟩

/-- What a commit leaves: a directory of the stock that there is. -/
theorem answerCommit (hr : Reliable σ usable)
    (hcodec : ∀ data, builder.config.sourceCompression.Restores data)
    (h : house.Carries builder usable source inventory) (hfailed : inventory.failed = false)
    {now : Moment} (hrecoverable : house.index.store.Recoverable now) :
    ∃ (commit : Commit) (directory : σ),
      house.index.store.answerCommit (Identifier.ofNat house.index.pipeline.identifiers) now
          house.index.pipeline.directory
        = (.ok commit.generation, { house.index.store with
            writer := { house.index.store.writer with
              pending := [], last := .ofCommit commit } }, directory) ∧
      Lays builder usable directory (.ofCommit commit) (house.index.pipeline.identifiers + 1)
        (some inventory.current) := by
  have hreplays : ∀ index,
      (inventory.committed.getD .empty).narrowed.Makes builder.analyzers index →
        ∃ next, index.replay builder.analyzers
            (house.index.store.writer.pending.map Change.narrowed) = .ok next ∧
          inventory.current.narrowed.Makes builder.analyzers next := by
    intro index hmakes
    obtain ⟨next, hnext, -⟩ := h.sound.narrowed.makes
    refine ⟨next, ?_, hnext⟩
    rw [Stock.Makes, ← h.pending, InvertedIndex.replay_append hmakes] at hnext
    exact hnext
  obtain ⟨commit, directory, hanswer, husable, -, -, hsegments, hfrom, hpublished, hopens⟩ :=
    h.lays.opens.answerCommit hr h.lays.usable (h.failure_eq_none hfailed) h.lays.segments
      (h.lays.fresh _ (Nat.le_refl _)) hreplays (fun data => h.compression ▸ hcodec data)
      hrecoverable
  refine ⟨commit, directory, hanswer, husable, hsegments, fun m hm hmem => ?_, hopens, h.sound,
    (by cases ·), fun _ => ⟨commit, hpublished, rfl⟩⟩
  rcases hfrom _ hmem with hold | hnew
  · exact h.lays.fresh m (Nat.le_of_succ_le hm) hold
  · exact (Nat.ne_of_gt hm) (Identifier.ofNat_injective (Storage.segment_injective hnew))

/-- A commit that is not refused makes the stock the committed one. -/
theorem commit_made (hr : Reliable σ usable)
    (hcodec : ∀ data, builder.config.sourceCompression.Restores data)
    (h : house.Carries builder usable source inventory) (hfailed : inventory.failed = false)
    (turn : Work.TurnKey) (ticket : Nat) (next : IdentifierSupply) {now : Moment}
    (hrecoverable : house.index.store.Recoverable now) :
    ({ house with index := house.index.arrive (.commit turn ticket) next now } :
      Storehouse σ τ).Carries builder usable source
        { inventory with committed := some inventory.current } := by
  obtain ⟨commit, directory, hanswer, hlays⟩ := h.answerCommit hr hcodec hfailed hrecoverable
  have hcalm := h.calm_arrive (.commit turn ticket) next now
  rw [house.index.arrive_commit turn ticket now hanswer next] at hcalm ⊢
  exact ⟨h.made, hcalm, h.failed, h.compression, h.identityField, h.makes, h.sound,
    List.append_nil _, hlays, h.taken_later (Nat.le_succ _)⟩

/-- Whatever arrives, the index stays made of its stock. -/
theorem arrive (hr : Reliable σ usable)
    (hcodec : ∀ data, builder.config.sourceCompression.Restores data)
    (h : house.Carries builder usable source inventory) [SnapshotTarget τ] (task : WriteTask)
    (next : IdentifierSupply) (now : Moment)
    (hsound : house.Sound source (.arrive task next now)) :
    ({ house with index := house.index.arrive task next now } : Storehouse σ τ).Carries
      builder usable source (inventory.arrive builder next task) := by
  cases task with
  | convert requests turn =>
      rw [Sound, h.made] at hsound
      rw [Inventory.arrive]
      cases hedits : builder.convert next requests with
      | ok edits => exact h.arrive_converted hedits turn now hsound
      | error e => exact h.arrive_failed hedits turn now
  | commit turn ticket =>
      rw [Inventory.arrive]
      by_cases hfailed : inventory.failed = true
      · rw [if_pos hfailed]
        exact h.commit_refused hfailed turn ticket next now
      · rw [if_neg hfailed]
        have hfailed : inventory.failed = false := Bool.eq_false_iff.mpr hfailed
        exact h.commit_made hr hcodec hfailed turn ticket next
          (hsound (h.failure_eq_none hfailed))

/-- Closing leaves the directory as it is. -/
theorem close_eq (h : house.Carries builder usable source inventory) (now : Moment) :
    house.index.close now = house.index.pipeline.directory :=
  WritePipeline.close_calm (house.index.settings now) h.calm

theorem openWith_eq (h : house.Carries builder usable source inventory) :
    OpenIndex.openWith (σ := σ) house.index.config house.index.analyzers house.index.fields
      = OpenIndex.openWith builder.config builder.analyzers builder.fields := by
  rw [← h.made]
  rfl

/-- Opening the directory again goes back to the last commit. -/
theorem reopen [SnapshotTarget τ] (h : house.Carries builder usable source inventory)
    (now : Moment) :
    ∃ next, house.after source (.reopen now) = .ok next ∧
      next.Carries builder usable source (inventory.openAt inventory.committed) := by
  obtain ⟨index, hopen, hcarries⟩ := opened h.lays h.taken
  refine ⟨⟨index, house.taken⟩, ?_, hcarries⟩
  rw [after, h.close_eq, h.openWith_eq, hopen]
  rfl

/-- A snapshot saves the committed stock, if there is one. -/
theorem snapshot [SnapshotTarget τ] (hr : Reliable σ usable)
    (h : house.Carries builder usable source inventory) {target : τ}
    (hback : house.Sound source (.snapshot target)) :
    ∃ next, house.after source (.snapshot target) = .ok next ∧ next.Carries builder usable source
      { inventory with saved := inventory.saved ++ inventory.committed.toList } := by
  obtain ⟨current, committed, saved, failed⟩ := inventory
  cases committed with
  | none =>
      have hnothing : house.index.snapshot.runFrom target = (.error .nothingCommitted, target) :=
        Storage.Session.snapshot_of_unmarked (h.lays.unmarked rfl) target
      refine ⟨house, by rw [after, hnothing], ?_⟩
      rw [Option.toList_none, List.append_nil]
      exact h
  | some stock =>
      obtain ⟨generation, filled, hrun, harchived⟩ := h.lays.snapshot hr hback
      have hsnapshot : house.index.snapshot.runFrom target = (.ok generation, filled) := hrun
      refine ⟨{ house with taken := house.taken ++ [filled] }, by rw [after, hsnapshot], ?_⟩
      exact { h with taken := List.rel_append h.taken (.cons harchived .nil) }

/-- A restore goes back to the stock of the snapshot, if there is one of the number. -/
theorem restore [SnapshotTarget τ] (hr : Replaceable σ usable)
    (h : house.Carries builder usable source inventory) (place : Nat) (now : Moment) :
    ∃ next, house.after source (.restore place now) = .ok next ∧
      next.Carries builder usable source (inventory.restore place) := by
  by_cases hplace : place < house.taken.length
  · have hsaved : place < inventory.saved.length := h.taken.length_eq ▸ hplace
    have harchived : Archived builder usable source house.index.pipeline.identifiers
        house.taken[place] inventory.saved[place] := h.taken.get hplace hsaved
    obtain ⟨generation, restored, last, hrun, hlays⟩ := harchived.restore hr h.lays.usable
    obtain ⟨index, hopen, hcarries⟩ := opened hlays h.taken
    refine ⟨⟨index, house.taken⟩, ?_, ?_⟩
    · simp only [after, List.getElem?_eq_getElem hplace, OpenIndex.restore, h.close_eq, hrun,
        h.openWith_eq, hopen]
      rfl
    · rw [Inventory.restore, List.getElem?_eq_getElem hsaved]
      exact hcarries
  · have hnone := List.getElem?_eq_none (Nat.le_of_not_lt hplace)
    refine ⟨house, by rw [after, hnone], ?_⟩
    rw [Inventory.restore, List.getElem?_eq_none (h.taken.length_eq ▸ Nat.le_of_not_lt hplace)]
    exact h

/-- Every event leaves an index that is made of its stock. -/
theorem after [SnapshotTarget τ] (hr : Replaceable σ usable)
    (hcodec : ∀ data, builder.config.sourceCompression.Restores data)
    (h : house.Carries builder usable source inventory) {event : Event τ}
    (hsound : house.Sound source event) :
    ∃ next, house.after source event = .ok next ∧
      next.Carries builder usable source (inventory.after builder event) := by
  cases event with
  | arrive task next now => exact ⟨_, rfl, h.arrive hr.toReliable hcodec task next now hsound⟩
  | reopen now => exact h.reopen now
  | snapshot target => exact h.snapshot hr.toReliable hsound
  | restore place now => exact h.restore hr place now

/-- Every run leaves an index that is made of its stock. -/
theorem afterAll [SnapshotTarget τ] (hr : Replaceable σ usable)
    (hcodec : ∀ data, builder.config.sourceCompression.Restores data) :
    ∀ {events : List (Event τ)} {house : Storehouse σ τ} {inventory : Inventory},
      house.Carries builder usable source inventory →
      (∀ before event rest, events = before ++ event :: rest →
        ∀ middle, house.afterAll source before = .ok middle → middle.Sound source event) →
      ∃ last, house.afterAll source events = .ok last ∧
        last.Carries builder usable source (inventory.afterAll builder events)
  | [], house, _, h, _ => ⟨house, rfl, h⟩
  | event :: rest, house, inventory, h, hsound => by
      obtain ⟨next, hnext, hcarries⟩ := h.after hr hcodec (hsound [] event rest rfl house rfl)
      have hlater : ∀ before other others, rest = before ++ other :: others →
          ∀ middle, next.afterAll source before = .ok middle → middle.Sound source other := by
        intro before other others heq middle hmiddle
        refine hsound (event :: before) other others (congrArg (event :: ·) heq) middle ?_
        rw [Storehouse.afterAll, hnext]
        exact hmiddle
      obtain ⟨last, hlast, hall⟩ := afterAll hr hcodec hcarries hlater
      refine ⟨last, ?_, hall⟩
      rw [Storehouse.afterAll, hnext]
      exact hlast

end Storehouse.Carries

/-! ### Runs -/

namespace Storehouse

variable {σ τ : Type} [Storage σ] [SnapshotTarget τ]

/-- An index that was opened in a directory without a commit is made of its stock. -/
theorem run_carries {usable : σ → Prop} (hr : Replaceable σ usable) {d : σ} (hd : usable d)
    (hempty : Storage.hasFile d Storage.GenerationMarker.fileName = false)
    {builder : DocumentBuilder}
    (hcodec : ∀ data, builder.config.sourceCompression.Restores data)
    {source : τ → Except Error SnapshotReader} {identifiers : IdentifierSupply}
    {events : List (Event τ)}
    (hsound : ∀ before event rest, events = before ++ event :: rest →
      ∀ house, run builder source d identifiers before = .ok house → house.Sound source event) :
    ∃ last, run builder source d identifiers events = .ok last ∧
      last.Carries builder usable source (Inventory.empty.afterAll builder events) := by
  have hlays : Lays builder usable d .initial identifiers none := .initial hd hempty
  have htaken : List.Forall₂ (Archived builder usable source identifiers) ([] : List τ)
      Inventory.empty.saved := .nil
  obtain ⟨index, hopen, hstart⟩ := Carries.opened hlays htaken
  have hrun : ∀ events, run builder source d identifiers events
      = (⟨index, []⟩ : Storehouse σ τ).afterAll source events := fun events => by
    rw [run, hopen]
    rfl
  obtain ⟨last, hlast, hcarries⟩ := hstart.afterAll hr hcodec fun before event rest heq middle
    hmiddle => hsound before event rest heq middle ((hrun before).trans hmiddle)
  exact ⟨last, (hrun events).trans hlast, hcarries⟩

/--
**Every live document is read back as it was prepared**, with the identity that it was built
with.  Take an index in a directory without a commit, and whatever happens to it: chunks of
requests and commits arrive, the directory is opened again, and snapshots are taken and
restored.  If what is written can be read, none of this fails.  The index is made of its stock,
and a live document gives the JSON that was put in under its number, whatever members that has.
-/
theorem run_rehydrates {usable : σ → Prop} (hr : Replaceable σ usable) {d : σ} (hd : usable d)
    (hempty : Storage.hasFile d Storage.GenerationMarker.fileName = false)
    (builder : DocumentBuilder)
    (hcodec : ∀ data, builder.config.sourceCompression.Restores data)
    (source : τ → Except Error SnapshotReader) (identifiers : IdentifierSupply)
    {events : List (Event τ)}
    (hsound : ∀ before event rest, events = before ++ event :: rest →
      ∀ house, run builder source d identifiers before = .ok house → house.Sound source event) :
    ∃ last, run builder source d identifiers events = .ok last ∧
      let index := last.index.store.writer.index
      let stock := (Inventory.empty.afterAll builder events).current
      stock.Makes builder.analyzers index ∧
      ∀ doc ∈ index.live, ∃ json built, stock.documents[doc]? = some json ∧
        builder.build json = .ok built ∧
        Hit.read index builder.config.sourceField builder.config.identityField doc
          = .ok ⟨doc, some built.id, json⟩ := by
  obtain ⟨last, hlast, hcarries⟩ := run_carries hr hd hempty hcodec hsound
  exact ⟨last, hlast, hcarries.makes, fun doc hdoc =>
    hcarries.sound.read_live hcodec hcarries.makes hdoc⟩

/-- A document with a member named like the field of the source. -/
def misleading : Json := .object [("$id", .text "A"), ("$source", .text "B")]

/-- The document as it is prepared. -/
def misleadingPrepared : Json :=
  .object [("$contentType", .text "document"), ("$id", .text "A"), ("$source", .text "B")]

/-- A document is committed and copied, then deleted, and then the copy is restored. -/
def deletedAndRestored : List (Event Storage.Archive) :=
  [.arrive (.convert [.create misleading] ⟨[]⟩) 0 ⟨0, 0, 0⟩,
    .arrive (.commit ⟨[]⟩ 0) 0 ⟨0, 0, 0⟩,
    .snapshot (.empty "backups" ⟨0, 0, 0⟩),
    .arrive (.convert [.delete "A"] ⟨[]⟩) 0 ⟨0, 0, 0⟩,
    .restore 0 ⟨0, 0, 0⟩,
    .reopen ⟨0, 0, 0⟩]

/-- The index that such events leave. -/
def afterEvents (events : List (Event Storage.Archive)) :
    Except Error (Storehouse Storage.Directory Storage.Archive) :=
  run DocumentBuilder.standard Storage.Archive.reader .inMemory 0 events

theorem rereads_misleading {next : IdentifierSupply} :
    ∀ json ∈ DocumentBuilder.standard.prepared next [.create misleading], json.Rereads := by
  have hprepared : DocumentBuilder.standard.prepared next [.create misleading]
      = [misleadingPrepared] := rfl
  rw [hprepared, List.forall_mem_singleton]
  have hlegible : misleadingPrepared.Legible Json.maxDepth := by decide
  have htabular : misleadingPrepared.Tabular := ⟨by decide, trivial, trivial, trivial, trivial⟩
  exact ⟨by decide +kernel, Json.parse?_write hlegible htabular⟩

theorem recoverable_misleading {house : Storehouse Storage.Directory Storage.Archive}
    (h : afterEvents (deletedAndRestored.take 1) = .ok house) :
    house.index.store.Recoverable ⟨0, 0, 0⟩ := by
  have hwritten : (afterEvents (deletedAndRestored.take 1)).toOption.all (fun house =>
      decide ((Storage.Record.writeList Storage.Record.writeChange
          house.index.store.writer.pending).length < 256 ^ 4 ∧
        house.index.store.writer.last.generation < uint64Max ∧
        house.index.store.schemas.toStored.Legible Json.maxDepth)) = true := by
    decide +kernel
  rw [h] at hwritten
  obtain ⟨hsegment, hgeneration, hschemas⟩ := of_decide_eq_true hwritten
  have htime : Moment.Regular ⟨0, 0, 0⟩ := ⟨by decide, Or.inl (by decide)⟩
  exact ⟨hsegment, hgeneration, Json.parseWritten?_write hschemas, htime⟩

/-- After the commit the index is made of the stock of one document. -/
theorem carries_misleading {usable : Storage.Directory → Prop}
    (hr : Replaceable Storage.Directory usable) (hd : usable .inMemory) :
    ∃ house, afterEvents (deletedAndRestored.take 2) = .ok house ∧
      house.Carries DocumentBuilder.standard usable Storage.Archive.reader
        (Inventory.empty.afterAll DocumentBuilder.standard (deletedAndRestored.take 2)) := by
  refine run_carries hr hd rfl Compression.restores_lz4 ?_
  rintro (- | ⟨first, - | ⟨second, before⟩⟩) event rest heq house hhouse <;>
    simp only [deletedAndRestored, List.take_succ_cons, List.take_zero, List.nil_append,
      List.cons_append, List.cons.injEq] at heq
  · obtain ⟨rfl, -⟩ := heq
    obtain rfl := Except.ok.inj hhouse
    exact rereads_misleading
  · obtain ⟨rfl, rfl, -⟩ := heq
    exact fun _ => recoverable_misleading hhouse
  · simp at heq

/-- An empty archive gives back what it is handed then. -/
theorem handedBack_misleading {house : Storehouse Storage.Directory Storage.Archive}
    (hhouse : afterEvents (deletedAndRestored.take 2) = .ok house) (copy : Copy) (commit : Commit)
    (hof : copy.Of house.index.pipeline.directory commit) :
    copy.HandedBack (.empty "backups" ⟨0, 0, 0⟩ : Storage.Archive) Storage.Archive.reader := by
  obtain ⟨_, hsame, hcarries⟩ := carries_misleading Storage.replaceable_inMemory
    ⟨rfl, Table.sorted_nil⟩
  obtain rfl := Except.ok.inj (hsame.symm.trans hhouse)
  obtain ⟨published, hpublished, hlast⟩ := hcarries.lays.published rfl
  have hpoint : (afterEvents (deletedAndRestored.take 2)).toOption.map
      (fun house => (house.index.store.writer.last.generation,
        house.index.store.writer.last.segments))
      = some (1, ["00000000-0000-0000-0000-000000000000.seg"]) := by
    decide +kernel
  rw [hhouse] at hpoint
  obtain ⟨hgeneration, hsegments⟩ := Prod.mk.inj (Option.some.inj hpoint)
  rw [hlast] at hgeneration hsegments
  have hcommitted := hof.committed.symm.trans
    (hpublished.committed Storage.reliable_inMemory hcarries.lays.usable)
  obtain ⟨hnumber, hrest⟩ := Prod.mk.inj (Except.ok.inj hcommitted)
  obtain ⟨-, rfl⟩ := Prod.mk.inj hrest
  have hone : copy.generation = 1 := hnumber.trans hgeneration
  have hnames : copy.names = ["00000000-0000-0000-0000-000000000000.seg", "segments_1"] := by
    rw [Copy.names, hof.segments, hof.segmentsFile, hone, Storage.Commit.inUtc_segments]
    exact congrArg (· ++ _) hsegments
  exact Storage.Archive.handedBack {
    newest := List.forall_mem_nil _
    time := ⟨by decide, Or.inl (by decide)⟩
    generation := hone ▸ by decide
    allowed := hnames ▸ by decide
    distinct := hnames ▸ by decide }

theorem sound_deletedAndRestored {before rest : List (Event Storage.Archive)}
    {event : Event Storage.Archive} (heq : deletedAndRestored = before ++ event :: rest)
    {house : Storehouse Storage.Directory Storage.Archive}
    (hhouse : afterEvents before = .ok house) :
    house.Sound Storage.Archive.reader event := by
  rcases before with
    - | ⟨first, - | ⟨second, - | ⟨third, - | ⟨fourth, - | ⟨fifth, - | ⟨sixth, others⟩⟩⟩⟩⟩⟩ <;>
    simp only [deletedAndRestored, List.nil_append, List.cons_append, List.cons.injEq] at heq
  · obtain ⟨rfl, -⟩ := heq
    obtain rfl := Except.ok.inj hhouse
    exact rereads_misleading
  · obtain ⟨rfl, rfl, -⟩ := heq
    exact fun _ => recoverable_misleading hhouse
  · obtain ⟨rfl, rfl, rfl, -⟩ := heq
    exact handedBack_misleading hhouse
  · obtain ⟨-, -, -, rfl, -⟩ := heq
    exact List.forall_mem_nil _
  · obtain ⟨-, -, -, -, rfl, -⟩ := heq
    trivial
  · obtain ⟨-, -, -, -, -, rfl, -⟩ := heq
    trivial
  · simp at heq

theorem run_rehydrates_restored : ∃ last, afterEvents deletedAndRestored = .ok last ∧
    last.index.store.writer.index.live = [0] ∧
    Hit.read last.index.store.writer.index "$source" "$id" 0
      = .ok ⟨0, some "A", misleadingPrepared⟩ := by
  obtain ⟨last, hlast, hmakes, hreads⟩ := run_rehydrates Storage.replaceable_inMemory
    (show Storage.Directory.inMemory.medium = .memory ∧
      Table.Sorted Storage.Directory.inMemory.files from ⟨rfl, Table.sorted_nil⟩) rfl
    DocumentBuilder.standard Compression.restores_lz4 Storage.Archive.reader 0
    fun before event rest heq house hhouse => sound_deletedAndRestored heq hhouse
  let stock := (Inventory.empty.afterAll DocumentBuilder.standard deletedAndRestored).current
  have hlive : (InvertedIndex.empty.replay DocumentBuilder.standard.analyzers
      stock.changes).toOption.map InvertedIndex.live = some [0] := by
    decide +kernel
  have hindex : last.index.store.writer.index.live = [0] := by
    rw [hmakes] at hlive
    exact Option.some.inj hlive
  obtain ⟨json, built, hjson, hbuild, hread⟩ := hreads 0 (by rw [hindex]; exact List.mem_cons_self)
  obtain rfl : json = misleadingPrepared := (Option.some.inj hjson).symm
  have hid : some built.id = some "A" := by
    obtain ⟨_, _, _, -, hid, -, -, rfl⟩ := DocumentBuilder.build_eq_ok hbuild
    exact hid.symm
  exact ⟨last, hlast, hindex, hid ▸ hread⟩

end Storehouse

end DocIndex
