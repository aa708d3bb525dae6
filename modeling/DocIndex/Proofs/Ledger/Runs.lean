/-
An index that is written to, searched, committed and opened again, as a plain list of documents.

The list is kept twice: as it is and as it was at the last commit, which is what opening the
directory again goes back to.  `Mirrors` ties an open index to both.  What it says of the
documents in memory and what it says of the directory meet in the pending changes: they revise
what was committed to what is current, so a commit that writes them makes the directory hold
what the index lists.

Every event keeps `Mirrors`.  A write and a commit leave nothing on its way, so that the next
event begins with an idle pipeline again.
-/
import DocIndex.Proofs.Ledger.Requests
import DocIndex.Proofs.Writing.Reopening
import DocIndex.Proofs.Writing.Settling

namespace DocIndex

open DocumentBuilder (standard)
open Storage (CommitPoint Reliable Segments)
open Work (Priority)

/-! ### Events -/

/-- What is done with an index, and when. -/
inductive Event where
  | write (requests : List WriteRequest) (priority : Priority) (now : Moment)
  | commit (now : Moment)
  /-- Somebody searches, with or without success. -/
  | search (text : String) (limit : Option Nat) (now : Moment)
  /-- The index is closed and its directory opened again. -/
  | reopen (now : Moment)

/-- A list of documents, and the one at the last commit. -/
structure Ledger where
  current : List Listed
  committed : List Listed

namespace Ledger

def empty : Ledger := ⟨[], []⟩

/-- The list after an event. -/
def after (ledger : Ledger) : Event → Ledger
  | .write requests _ _ => { ledger with current := reviseAll ledger.current requests }
  | .commit _ => { ledger with committed := ledger.current }
  | .search _ _ _ => ledger
  | .reopen _ => { ledger with current := ledger.committed }

/-- The list after events, one after the other. -/
def afterAll (ledger : Ledger) (events : List Event) : Ledger := events.foldl after ledger

end Ledger

namespace OpenIndex

variable {σ : Type} [Storage σ]

/-- The index that a step leaves, if it succeeds. -/
def kept {α : Type} (step : Storage.Step (OpenIndex σ) α) (index : OpenIndex σ) :
    Except Error (OpenIndex σ) :=
  match step.runFrom index with
  | (.ok _, next) => .ok next
  | (.error e, _) => .error e

/-- The index after an event. -/
def after (index : OpenIndex σ) : Event → Except Error (OpenIndex σ)
  | .write requests priority now => kept (write requests priority now) index
  | .commit now => kept (commit now) index
  | .search text limit now => .ok ((search text limit now).runFrom index).2
  | .reopen now => openAt index.config (index.close now) index.pipeline.identifiers

/-- The index after events, one after the other, if all of them succeed. -/
def afterAll (index : OpenIndex σ) : List Event → Except Error (OpenIndex σ)
  | [] => .ok index
  | event :: rest => do afterAll (← index.after event) rest

/-! ### The index and the list -/

/-- An index at rest that lists the documents of a ledger. -/
structure Mirrors (usable : σ → Prop) (index : OpenIndex σ) (ledger : Ledger) : Prop where
  config : index.config = .default
  analyzers : index.analyzers = Analyzers.builtIn
  fields : index.fields = .ofConfig .default
  cache : index.cache.Faithful readKey
  calm : index.pipeline.Calm
  failure : index.store.failure = none
  identityField : index.store.identityField = Config.default.identityField
  compression : index.store.writer.compression = .lz4
  usable : usable index.pipeline.directory
  segments : Segments index.store.writer.last.segments
  /-- No identifier that is still to be handed out names a segment. -/
  fresh : ∀ n, index.pipeline.identifiers ≤ n →
    Storage.Segment.fileName (Identifier.ofNat n) ∉ index.store.writer.last.segments
  lists : index.store.writer.index.Lists .default (ledger.current.map Listed.entry)
  /-- The pending changes make what is listed of what was committed. -/
  revises : RevisesAll Analyzers.builtIn .default index.store.writer.pending
    (ledger.committed.map Listed.entry) (ledger.current.map Listed.entry)
  reopens : Reopens .default Analyzers.builtIn index.pipeline.directory index.store.writer.last
    (ledger.committed.map Listed.entry)
  currentReadable : ∀ document ∈ ledger.current, document.Readable
  committedReadable : ∀ document ∈ ledger.committed, document.Readable

/-- An event after which the index still mirrors the list. -/
def Recoverable (index : OpenIndex σ) : Event → Prop
  | .write requests _ _ => ∀ request ∈ requests, request.Listable
  | .commit now => index.store.Recoverable now
  | .search _ _ _ | .reopen _ => True

namespace Mirrors

variable {usable : σ → Prop} {index : OpenIndex σ} {ledger : Ledger}

theorem settings (h : index.Mirrors usable ledger) (now : Moment) :
    index.settings now = ⟨standard, Analyzers.builtIn, now⟩ := by
  unfold OpenIndex.settings
  rw [h.config, h.analyzers, h.fields]
  rfl

/-- What is opened lists what the directory holds. -/
theorem opened {d : σ} {last : CommitPoint} {identifiers : IdentifierSupply}
    {listed : List Listed} (hd : usable d) (hsegments : Segments last.segments)
    (hfresh : ∀ n, identifiers ≤ n →
      Storage.Segment.fileName (Identifier.ofNat n) ∉ last.segments)
    (hreopens : Reopens .default Analyzers.builtIn d last (listed.map Listed.entry))
    (hreadable : ∀ document ∈ listed, document.Readable) :
    ∃ index, openAt .default d identifiers = .ok index ∧ index.Mirrors usable ⟨listed, listed⟩ := by
  obtain ⟨store, hopen, hlists, hpending, rfl, hcompression, hidentity, hfailure⟩ :=
    hreopens.openAt
  let index : OpenIndex σ := ⟨.default, Analyzers.builtIn, .ofConfig .default,
    .ofStore Config.default.capacityCeiling store d identifiers,
    .empty Config.default.queryCacheSize⟩
  have hindex : openAt .default d identifiers = .ok index := by
    rw [openAt, openWith, hopen]
    rfl
  have hrevises : RevisesAll Analyzers.builtIn .default store.writer.pending
      (listed.map Listed.entry) (listed.map Listed.entry) := by
    rw [hpending]
    exact .nil
  have hcache : index.cache.Faithful readKey := Query.QueryCache.faithful_empty _ _
  have hcalm : index.pipeline.Calm := WritePipeline.calm_ofStore _ _ _ _
  exact ⟨index, hindex, rfl, rfl, rfl, hcache, hcalm, hfailure, hidentity, hcompression, hd,
    hsegments, hfresh, hlists, hrevises, hreopens, hreadable, hreadable⟩

/-- What a write leaves: the edits of its requests are made, and nothing else is different. -/
theorem write_made (h : index.Mirrors usable ledger) {requests : List WriteRequest}
    (hrequests : ∀ request ∈ requests, standard.Convertible request) (priority : Priority)
    (now : Moment) :
    ∃ pipeline, index.after (.write requests priority now) = .ok { index with pipeline } ∧
      WritePipeline.Taken Analyzers.builtIn index.pipeline (standard.editsOf requests) pipeline ∧
      pipeline.Calm := by
  have hsettings := h.settings now
  obtain ⟨sent, hsubmit, htaken, hcalm⟩ :=
    WritePipeline.submit_settled ⟨standard, Analyzers.builtIn, now⟩ h.calm priority rfl hrequests
  refine ⟨sent.settle ⟨standard, Analyzers.builtIn, now⟩, ?_, htaken, hcalm⟩
  have hrun : (OpenIndex.write requests priority now).runFrom index
      = (.ok (), index.settled now sent) := by
    have hget : (get : Storage.Step (OpenIndex σ) (OpenIndex σ)).runFrom index
        = (.ok index, index) := rfl
    rw [OpenIndex.write, Storage.runFrom_bind hget, hsettings, hsubmit]
    rfl
  rw [after, kept, hrun, settled, hsettings]

/-- Writing revises the list. -/
theorem write (h : index.Mirrors usable ledger) {requests : List WriteRequest}
    (hrequests : ∀ request ∈ requests, request.Listable) (priority : Priority) (now : Moment) :
    ∃ next, index.after (.write requests priority now) = .ok next ∧
      next.Mirrors usable (ledger.after (.write requests priority now)) := by
  obtain ⟨pipeline, hafter, htaken, hcalm⟩ :=
    h.write_made (fun request hrequest => (hrequests request hrequest).1) priority now
  have hanalysable : ∀ edit ∈ standard.editsOf requests, edit.Analysable Analyzers.builtIn :=
    DocumentBuilder.analysable_editsOf requests
  have hmade := DocumentStore.takeEdits_made hanalysable index.store
  have hstore : index.store.takeEdits Analyzers.builtIn (standard.editsOf requests)
      = pipeline.store := htaken.store.symm
  rw [h.identityField, hstore] at hmade
  obtain ⟨hrevises, hreadable⟩ := revises_editsOf hrequests ledger.current
  obtain ⟨replayed, hreplay, hlists⟩ := h.lists.replay hrevises
  have hreplayed : replayed = pipeline.store.writer.index :=
    Except.ok.inj (hreplay.symm.trans hmade.index)
  refine ⟨_, hafter, h.config, h.analyzers, h.fields, h.cache, hcalm,
    hmade.failure.trans h.failure, hmade.identityField.trans h.identityField,
    hmade.compression.trans h.compression, ?_, ?_, ?_, hreplayed ▸ hlists, ?_, ?_, ?_,
    h.committedReadable⟩
  · show usable pipeline.directory
    rw [htaken.directory]
    exact h.usable
  · show Segments pipeline.store.writer.last.segments
    rw [hmade.last]
    exact h.segments
  · show ∀ n, pipeline.identifiers ≤ n → _ ∉ pipeline.store.writer.last.segments
    rw [hmade.last]
    exact fun n hn => h.fresh n (htaken.identifiers.trans hn)
  · show RevisesAll _ _ pipeline.store.writer.pending _ _
    rw [hmade.pending]
    exact h.revises.append hrevises
  · show Reopens _ _ pipeline.directory pipeline.store.writer.last _
    rw [htaken.directory, hmade.last]
    exact h.reopens
  · intro document hdocument
    exact (hreadable document hdocument).elim (h.currentReadable document) id

/-- What a commit leaves: the pending changes are in the directory, under a new generation. -/
theorem commit_made (hr : Reliable σ usable) (h : index.Mirrors usable ledger) {now : Moment}
    (hrecoverable : index.store.Recoverable now) :
    ∃ n names pipeline,
      let last : CommitPoint :=
        ⟨index.store.writer.last.generation + 1, names, index.store.userData⟩
      index.after (.commit now) = .ok { index with pipeline } ∧ pipeline.Calm ∧
        pipeline.store
          = { index.store with writer := { index.store.writer with pending := [], last } } ∧
        index.pipeline.identifiers ≤ n ∧ n < pipeline.identifiers ∧
        usable pipeline.directory ∧ Segments names ∧
        (∀ name ∈ names, name ∈ index.store.writer.last.segments ∨
          name = Storage.Segment.fileName (Identifier.ofNat n)) ∧
        Reopens .default Analyzers.builtIn pipeline.directory last
          (ledger.current.map Listed.entry) := by
  obtain ⟨sent, hcommit, ⟨n, hfrom, hto, answer, hanswer, hanswers⟩, hcalm⟩ :=
    WritePipeline.commit_settled (index.settings now) h.calm
  have hcodec : ∀ data, index.store.writer.compression.Restores data := by
    rw [h.compression]
    exact Compression.restores_lz4
  obtain ⟨names, directory, hmade, husable, hsegments, hnames, hreopens⟩ :=
    h.reopens.answerCommit hr h.usable h.failure h.segments (h.fresh n hfrom) h.revises hcodec
      hrecoverable
  obtain ⟨rfl, hafter⟩ := Prod.mk.inj (hanswer.symm.trans hmade)
  obtain ⟨hstore, rfl⟩ := Prod.mk.inj hafter
  refine ⟨n, names, sent.settle (index.settings now), ?_, hcalm, hstore, hfrom, hto, husable,
    hsegments, hnames, hreopens⟩
  have hanswered : (index.settled now sent).answerOf (.ok index.pipeline.nextTicket)
      = .ok (index.store.writer.last.generation + 1) := by
    show (Table.find? (sent.settle (index.settings now)).answers _).getD _ = _
    rw [hanswers, Table.find?_insert_self]
    rfl
  have hrun : (OpenIndex.commit now).runFrom index
      = (.ok (index.store.writer.last.generation + 1), index.settled now sent) := by
    have hget : (get : Storage.Step (OpenIndex σ) (OpenIndex σ)).runFrom index
        = (.ok index, index) := rfl
    rw [OpenIndex.commit, Storage.runFrom_bind hget, hcommit]
    show ((index.settled now sent).answerOf _, index.settled now sent) = _
    rw [hanswered]
  rw [after, kept, hrun]
  rfl

/-- A commit makes the list the committed one. -/
theorem commit (hr : Reliable σ usable) (h : index.Mirrors usable ledger) {now : Moment}
    (hrecoverable : index.store.Recoverable now) :
    ∃ next, index.after (.commit now) = .ok next ∧
      next.Mirrors usable (ledger.after (.commit now)) := by
  obtain ⟨n, names, pipeline, hafter, hcalm, hstore, hfrom, hto, husable, hsegments, hnames,
    hreopens⟩ := h.commit_made hr hrecoverable
  let next : OpenIndex σ := { index with pipeline }
  have hnext : next.store = pipeline.store := rfl
  rw [hstore] at hnext
  refine ⟨next, hafter, h.config, h.analyzers, h.fields, h.cache, hcalm, ?_, ?_, ?_, husable, ?_,
    ?_, ?_, ?_, ?_, h.currentReadable, h.currentReadable⟩
  · rw [hnext]
    exact h.failure
  · rw [hnext]
    exact h.identityField
  · rw [hnext]
    exact h.compression
  · rw [hnext]
    exact hsegments
  · intro m hm hmem
    -- The new segment has the number `n`, which is not handed out again.
    rw [hnext] at hmem
    have hlater : n < m := Nat.lt_of_lt_of_le hto hm
    rcases hnames _ hmem with hold | hnew
    · exact h.fresh m (hfrom.trans hlater.le) hold
    · exact hlater.ne' (Identifier.ofNat_injective (Storage.segment_injective hnew))
  · rw [hnext]
    exact h.lists
  · rw [hnext]
    exact .nil
  · rw [hnext]
    exact hreopens

/-- Searching changes nothing but the cache. -/
theorem search (h : index.Mirrors usable ledger) (text : String) (limit : Option Nat)
    (now : Moment) : ∃ next, index.after (.search text limit now) = .ok next ∧
      next.Mirrors usable (ledger.after (.search text limit now)) := by
  obtain ⟨cache, hfaithful, hsearch⟩ := search_frame h.config h.cache text limit now
  rw [after, hsearch]
  exact ⟨_, rfl, h.config, h.analyzers, h.fields, hfaithful, h.calm, h.failure, h.identityField,
    h.compression, h.usable, h.segments, h.fresh, h.lists, h.revises, h.reopens,
    h.currentReadable, h.committedReadable⟩

/-- Opening the directory again goes back to the committed list. -/
theorem reopen (h : index.Mirrors usable ledger) (now : Moment) :
    ∃ next, index.after (.reopen now) = .ok next ∧
      next.Mirrors usable (ledger.after (.reopen now)) := by
  have hclosed : index.close now = index.pipeline.directory :=
    WritePipeline.close_calm (index.settings now) h.calm
  rw [after, hclosed, h.config]
  exact opened h.usable h.segments h.fresh h.reopens h.committedReadable

/-- Every event keeps the index and the list alike. -/
theorem after (hr : Reliable σ usable) (h : index.Mirrors usable ledger) {event : Event}
    (hrecoverable : index.Recoverable event) :
    ∃ next, index.after event = .ok next ∧ next.Mirrors usable (ledger.after event) := by
  cases event with
  | write requests priority now => exact h.write hrecoverable priority now
  | commit now => exact h.commit hr hrecoverable
  | search text limit now => exact h.search text limit now
  | reopen now => exact h.reopen now

/-- Every run keeps them alike. -/
theorem afterAll (hr : Reliable σ usable) : ∀ {events : List Event} {index : OpenIndex σ}
    {ledger : Ledger}, index.Mirrors usable ledger →
      (∀ before event rest, events = before ++ event :: rest →
        ∀ middle, index.afterAll before = .ok middle → middle.Recoverable event) →
      ∃ last, index.afterAll events = .ok last ∧ last.Mirrors usable (ledger.afterAll events)
  | [], index, _, h, _ => ⟨index, rfl, h⟩
  | event :: rest, index, ledger, h, hrecoverable => by
      obtain ⟨next, hnext, hmirrors⟩ := h.after hr (hrecoverable [] event rest rfl index rfl)
      have hlater : ∀ before other others, rest = before ++ other :: others →
          ∀ middle, next.afterAll before = .ok middle → middle.Recoverable other := by
        intro before other others heq middle hmiddle
        refine hrecoverable (event :: before) other others (congrArg (event :: ·) heq) middle ?_
        rw [OpenIndex.afterAll, hnext]
        exact hmiddle
      obtain ⟨last, hlast, hall⟩ := hmirrors.afterAll hr hlater
      refine ⟨last, ?_, hall⟩
      rw [OpenIndex.afterAll, hnext]
      exact hlast

end Mirrors

/-! ### Runs -/

/-- The index that is opened in a directory, after events. -/
def run (d : σ) (identifiers : IdentifierSupply) (events : List Event) :
    Except Error (OpenIndex σ) := do
  (← openAt .default d identifiers).afterAll events

/-- An index that has just the listed documents, in their order, for everybody who searches it. -/
structure Gives (index : OpenIndex σ) (listed : List Listed) : Prop where
  size : index.size = listed.length
  everything : ∀ limit now, ∃ results cache,
    (search "*" limit now).runFrom index = (.ok results, { index with cache }) ∧
      results.hits.map (fun hit => (hit.id, hit.source))
        = (upTo limit listed).map (fun listed => (some listed.id, listed.document)) ∧
      results.total = listed.length

theorem Mirrors.gives {usable : σ → Prop} {index : OpenIndex σ} {ledger : Ledger}
    (h : index.Mirrors usable ledger) : index.Gives ledger.current where
  size := by
    rw [size, h.lists.size_eq, List.length_map]
  everything := search_everything h.config h.cache h.lists h.currentReadable

/--
**An index is a plain list of documents**: whatever is written to it, and whenever it is
searched, committed and its directory opened again, it has as many documents as the list, and a
search for everything gives those of the list, in its order, as they were prepared.
-/
theorem run_gives {usable : σ → Prop} (hr : Reliable σ usable) {d : σ} (hd : usable d)
    (hempty : Storage.hasFile d Storage.GenerationMarker.fileName = false)
    (identifiers : IdentifierSupply) {events : List Event}
    (hrequests : ∀ requests priority now, .write requests priority now ∈ events →
      ∀ request ∈ requests, request.Listable)
    (hcommits : ∀ before now rest, events = before ++ .commit now :: rest →
      ∀ index, run d identifiers before = .ok index → index.store.Recoverable now) :
    ∃ index, run d identifiers events = .ok index ∧
      index.Gives (Ledger.empty.afterAll events).current := by
  obtain ⟨start, hopen, hstart⟩ : ∃ start, openAt .default d identifiers = .ok start ∧
      start.Mirrors usable .empty :=
    Mirrors.opened hd (fun name hname => absurd hname List.not_mem_nil)
      (fun _ _ => List.not_mem_nil) (Reopens.initial hempty)
      (fun document hdocument => absurd hdocument List.not_mem_nil)
  have hrun : ∀ events, run d identifiers events = start.afterAll events := fun events => by
    rw [run, hopen]
    rfl
  have hrecoverable : ∀ before event rest, events = before ++ event :: rest →
      ∀ index, start.afterAll before = .ok index → index.Recoverable event := by
    intro before event rest heq index hindex
    cases event with
    | write requests priority now =>
        refine hrequests requests priority now ?_
        rw [heq]
        exact List.mem_append_right before List.mem_cons_self
    | commit now =>
        refine hcommits before now rest heq index ?_
        rw [hrun, hindex]
    | search text limit now => trivial
    | reopen now => trivial
  obtain ⟨last, hlast, hmirrors⟩ := hstart.afterAll hr hrecoverable
  exact ⟨last, by rw [hrun, hlast], hmirrors.gives⟩

/-- Two documents are committed, and that one of them is deleted then is not. -/
def lostDeletion : List Event :=
  [.write [.create (.object [("$id", .int 7)]), .create (.object [("$id", .text "a")])] .medium
      ⟨0, 0, 0⟩,
    .commit ⟨0, 0, 0⟩, .write [.delete "7"] .medium ⟨0, 0, 0⟩, .reopen ⟨0, 0, 0⟩]

theorem run_gives_lostDeletion :
    ∃ index, run Storage.Directory.inMemory 0 lostDeletion = .ok index ∧
      index.Gives [⟨"7", .object [("$contentType", .text "document"), ("$id", .int 7)]⟩,
        ⟨"a", .object [("$contentType", .text "document"), ("$id", .text "a")]⟩] := by
  have hrequests : ∀ requests priority now, .write requests priority now ∈ lostDeletion →
      ∀ request ∈ requests, request.Listable := by
    intro requests priority now hwrite request hrequest
    simp only [lostDeletion, List.mem_cons, Event.write.injEq, reduceCtorEq, List.not_mem_nil,
      false_or, or_false] at hwrite
    rcases hwrite with ⟨rfl, rfl, rfl⟩ | ⟨rfl, rfl, rfl⟩
    · rcases List.mem_pair.mp hrequest with rfl | rfl
      · refine ⟨⟨rfl, "", _, rfl⟩, .of_legible ⟨by decide, by decide⟩ (by decide)
          ⟨by decide, trivial, trivial⟩ fun listed hlisted => ?_⟩
        obtain rfl := Option.some.inj hlisted
        decide +kernel
      · refine ⟨⟨rfl, "", _, rfl⟩, .of_legible ⟨by decide, by decide⟩ (by decide)
          ⟨by decide, trivial, trivial⟩ fun listed hlisted => ?_⟩
        obtain rfl := Option.some.inj hlisted
        decide +kernel
    · obtain rfl := List.mem_singleton.mp hrequest
      exact ⟨⟨trivial, "", _, rfl⟩, trivial⟩
  have hwritten : ((run Storage.Directory.inMemory 0 (lostDeletion.take 1)).toOption.all
      fun index => decide ((Storage.Record.writeList Storage.Record.writeChange
          index.store.writer.pending).length < 256 ^ 4 ∧
        index.store.writer.last.generation < uint64Max ∧
        index.store.schemas.toStored.Legible Json.maxDepth)) = true := by
    decide +kernel
  have hcommits : ∀ before now rest, lostDeletion = before ++ .commit now :: rest →
      ∀ index, run Storage.Directory.inMemory 0 before = .ok index →
        index.store.Recoverable now := by
    intro before now rest heq index hindex
    rcases before with - | ⟨first, - | ⟨second, - | ⟨third, - | ⟨fourth, others⟩⟩⟩⟩
    · simp [lostDeletion] at heq
    · simp only [lostDeletion, List.cons_append, List.nil_append, List.cons.injEq,
        Event.commit.injEq] at heq
      obtain ⟨rfl, rfl, -⟩ := heq
      have hrun : run Storage.Directory.inMemory 0 (lostDeletion.take 1) = .ok index := hindex
      rw [hrun] at hwritten
      obtain ⟨hsegment, hgeneration, hschemas⟩ := of_decide_eq_true hwritten
      have htime : Moment.Regular ⟨0, 0, 0⟩ := ⟨by decide, Or.inl (by decide)⟩
      exact ⟨hsegment, hgeneration, Json.parseWritten?_write hschemas, htime⟩
    · simp [lostDeletion] at heq
    · simp [lostDeletion] at heq
    · simp [lostDeletion] at heq
  exact run_gives Storage.reliable_inMemory ⟨rfl, Table.sorted_nil⟩ rfl 0 hrequests hcommits

end OpenIndex

end DocIndex
