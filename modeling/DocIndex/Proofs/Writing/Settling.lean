/-
Writes and commits of a pipeline that is left to settle.

When nothing is on its way, submitting requests and letting the workers run is one of the
executions that `Traffic` describes: the caller makes all his moves, and then a worker always
takes the first job.  What arrives is therefore known, and so is what becomes of the store:
the edits of the requests are made, or the commit is answered.  The rounds of a worker are
enough because every round with a job takes one out of the queue and puts none in.
-/
import DocIndex.Proofs.Writing.InOrder

namespace DocIndex

open Work

variable {σ : Type} [Storage σ]

/-! ### What no move touches -/

namespace WritePipeline

omit [Storage σ] in
/-- Pipelines with the same ingests, whose workers are both paused or both not. -/
def SameIntake (a b : WritePipeline σ) : Prop :=
  a.scheduler.sources = b.scheduler.sources ∧ a.scheduler.paused = b.scheduler.paused

omit [Storage σ] in
theorem SameIntake.trans {a b c : WritePipeline σ} (h : SameIntake a b) (h' : SameIntake b c) :
    SameIntake a c :=
  ⟨h.1.trans h'.1, h.2.trans h'.2⟩

theorem sameIntake_finishTurn (settings : WriteSettings) (p : WritePipeline σ) (turn : TurnKey)
    (outcome : Turn Delivery) : SameIntake (p.finishTurn settings turn outcome) p := by
  have hscheduler := (finishTurn_frame settings p turn outcome).2.1
  unfold SameIntake
  rw [hscheduler]
  exact ⟨rfl, rfl⟩

theorem sameIntake_enqueue (settings : WriteSettings) (p : WritePipeline σ) (task : WriteTask)
    (priority : Priority) : SameIntake (p.enqueue settings task priority).2 p := by
  unfold enqueue Scheduler.enqueue
  cases p.scheduler.queue.enqueue? task.job priority with
  | some queue => exact ⟨rfl, rfl⟩
  | none =>
      cases task with
      | convert requests turn => exact sameIntake_finishTurn settings _ turn .abandoned
      | commit turn ticket => exact sameIntake_finishTurn settings _ turn .abandoned

theorem sameIntake_commit (settings : WriteSettings) (p : WritePipeline σ) :
    SameIntake (p.commit settings).2 p := by
  have hqueued := sameIntake_enqueue settings
    { p with sequencer := p.sequencer.reserve.1, nextTicket := p.nextTicket + 1 }
    (.commit p.sequencer.reserve.2 p.nextTicket) .highest
  unfold commit
  dsimp only
  split
  · rename_i next henqueue
    rw [henqueue] at hqueued
    exact hqueued
  · rename_i e next henqueue
    rw [henqueue] at hqueued
    exact hqueued

end WritePipeline

namespace Traffic

open WritePipeline (SameIntake)

variable {settings : WriteSettings} {w next last : Traffic σ}

theorem sameIntake_moved (h : Moved settings w next) : SameIntake next.pipeline w.pipeline := by
  cases h with
  | chunk hwriting =>
      exact WritePipeline.sameIntake_enqueue settings
        { w.pipeline with sequencer := (w.pipeline.sequencer.split _).1 } _ _
  | close hwriting => exact WritePipeline.sameIntake_finishTurn settings w.pipeline _ _
  | skip hcalls hempty => exact ⟨rfl, rfl⟩
  | begin hwriting hcalls hsome => exact ⟨rfl, rfl⟩
  | commit hwriting hcalls => exact WritePipeline.sameIntake_commit settings w.pipeline
  | @work place priority job hentry =>
      exact WritePipeline.sameIntake_finishTurn settings (w.pipeline.begun place job.task) _ _

/-- No run adds an ingest or pauses the workers. -/
theorem sameIntake_run {moves : List Move} (h : w.run settings moves = some last) :
    SameIntake last.pipeline w.pipeline := by
  have hkept : ∀ {v next : Traffic σ}, SameIntake v.pipeline w.pipeline →
      Moved settings v next → SameIntake next.pipeline w.pipeline := by
    intro v next hsame hmoved
    exact (sameIntake_moved hmoved).trans hsame
  exact run_keeps hkept ⟨rfl, rfl⟩ h

end Traffic

/-! ### Workers -/

namespace WritePipeline

/-- Without an ingest nothing is taken in. -/
theorem checkCapacity_eq (settings : WriteSettings) {p : WritePipeline σ}
    (h : p.scheduler.sources = []) : p.checkCapacity settings = p := by
  have hsame : ({ p with scheduler := { p.scheduler with sources := [] } } : WritePipeline σ)
      = p := by
    rw [← h]
  unfold checkCapacity
  split
  · rw [h, pullAll]
    exact hsame
  · rfl

end WritePipeline

namespace Traffic

variable {settings : WriteSettings} {w next : Traffic σ}

/-- A worker who takes the first job leaves one job less. -/
theorem work_tasks (h : w.work settings 0 = some next) :
    next.pipeline.tasks.length + 1 = w.pipeline.tasks.length ∧ next.calls = w.calls ∧
      next.writing = w.writing := by
  unfold work at h
  split at h
  · rename_i priority job hentry
    obtain ⟨rest, hrest⟩ : ∃ rest, w.pipeline.scheduler.queue.entries = (priority, job) :: rest :=
      List.head?_eq_some_iff.mp (List.head?_eq_getElem? ▸ hentry)
    obtain rfl := Option.some.inj h
    refine ⟨?_, rfl, rfl⟩
    have hscheduler := (WritePipeline.finishTurn_frame settings (w.pipeline.begun 0 job.task)
      job.task.turn (.ready (job.task.result settings.builder w.pipeline.identifiers))).2.1
    have hentries : (w.doJob settings 0 job).pipeline.scheduler.queue.entries = rest := by
      refine (congrArg (fun s => s.queue.entries) hscheduler).trans ?_
      show w.pipeline.scheduler.queue.entries.eraseIdx 0 = rest
      rw [hrest, List.eraseIdx_cons_zero]
    show ((w.doJob settings 0 job).pipeline.scheduler.queue.entries.map _).length + 1
      = (w.pipeline.scheduler.queue.entries.map _).length
    rw [List.length_map, List.length_map, hentries, hrest, List.length_cons]
  · simp at h

/-- Rounds of a worker are moves that do all jobs, if there are enough of them. -/
theorem run_work (settings : WriteSettings) : ∀ {rounds : Nat} {w : Traffic σ},
    w.pipeline.scheduler.sources = [] → w.pipeline.tasks.length < rounds →
    ∃ moves last, w.run settings moves = some last ∧
      w.pipeline.work settings rounds = last.pipeline ∧ last.pipeline.tasks = [] ∧
      last.calls = w.calls ∧ last.writing = w.writing
  | 0, w, _, hrounds => absurd hrounds (Nat.not_lt_zero _)
  | rounds + 1, w, hsources, hrounds => by
      have hfed := WritePipeline.checkCapacity_eq settings hsources
      cases hwork : w.work settings 0 with
      | some next =>
          obtain ⟨hlength, hcalls, hwriting⟩ := work_tasks hwork
          have hstep : w.step settings (.work 0) = some next := hwork
          have hnext : next.pipeline.scheduler.sources = [] := by
            rw [(sameIntake_moved (moved_of_step hstep)).1]
            exact hsources
          obtain ⟨moves, last, hrun, hrounds', htasks, hcalls', hwriting'⟩ :=
            run_work settings hnext (show _ < rounds by omega)
          refine ⟨.work 0 :: moves, last, ?_, ?_, htasks, hcalls'.trans hcalls,
            hwriting'.trans hwriting⟩
          · rw [run, hstep]
            exact hrun
          · rw [WritePipeline.work, hfed, work_first hwork]
            exact hrounds'
      | none =>
          have hentries : w.pipeline.scheduler.queue.entries = [] := by
            unfold work at hwork
            split at hwork
            · simp at hwork
            · rename_i hnone
              exact List.head?_eq_none_iff.mp (List.head?_eq_getElem? ▸ hnone)
          refine ⟨[], w, rfl, ?_, ?_, rfl, rfl⟩
          · have hidle : w.pipeline.runNext settings = none := by
              simp only [WritePipeline.runNext, Scheduler.takeJob, PriorityQueue.dequeue, hentries]
              split
              · rename_i job scheduler htaken
                split at htaken <;> simp at htaken
              · rfl
            rw [WritePipeline.work, hfed, hidle]
          · rw [WritePipeline.tasks, hentries]
            rfl

end Traffic

/-! ### Settling -/

namespace WritePipeline

/-- A pipeline that can settle, with nothing on its way. -/
structure Calm (p : WritePipeline σ) : Prop where
  idle : p.Idle
  running : p.scheduler.paused = false
  sources : p.scheduler.sources = []

omit [Storage σ] in
theorem calm_ofStore (ceiling : Nat) (store : DocumentStore) (directory : σ)
    (identifiers : IdentifierSupply) :
    (ofStore ceiling store directory identifiers).Calm :=
  ⟨idle_ofStore ceiling store directory identifiers, rfl, rfl⟩

end WritePipeline

namespace Traffic

open WritePipeline (Calm)

variable {settings : WriteSettings} {allowed : Delivery → Prop}
  {holds : List (Delivery × WritePipeline σ) → WritePipeline σ → Prop}

/--
A call that was made is settled by an execution of it, so that all it asked for arrives; what
such deliveries keep holds afterwards.
-/
theorem settle_call (hlasting : Lasting settings allowed holds) {p : WritePipeline σ}
    (hcalm : p.Calm) {call : Call} (hcall : call.Convertible settings.builder)
    (hallowed : ∀ delivery ∈ askedDeliveries settings.builder p.nextTicket [call],
      allowed delivery)
    (hfirst : holds [] p) {moves : List Move} {made : Traffic σ}
    (hmade : (Traffic.start p [call]).run settings moves = some made) (hdone : made.calls = [])
    (hwriting : made.writing = none) :
    ∃ arrived, holds arrived (made.pipeline.settle settings) ∧
      arrived.map Prod.fst = askedDeliveries settings.builder p.nextTicket [call] ∧
      (made.pipeline.settle settings).Calm := by
  have hintake := sameIntake_run hmade
  have hsources : made.pipeline.scheduler.sources = [] := hintake.1.trans hcalm.sources
  have hrunning : made.pipeline.scheduler.paused = false := hintake.2.trans hcalm.running
  have hrounds : made.pipeline.tasks.length < made.pipeline.roundsLeft := by
    have hlength : made.pipeline.tasks.length = made.pipeline.scheduler.queue.entries.length :=
      List.length_map ..
    unfold WritePipeline.roundsLeft PriorityQueue.size
    omega
  obtain ⟨worked, last, hrun, hwork, htasks, hcalls', hwriting'⟩ :=
    run_work settings hsources hrounds
  have hsettle : made.pipeline.settle settings = last.pipeline := by
    rw [WritePipeline.settle, hrunning, if_neg Bool.false_ne_true, hwork]
  have hall : (Traffic.start p [call]).run settings (moves ++ worked) = some last := by
    rw [run_append hmade]
    exact hrun
  have hdone' : last.Done := ⟨hcalls'.trans hdone, hwriting'.trans hwriting, htasks⟩
  have hcalls : ∀ other ∈ [call], other.Convertible settings.builder := by simpa using hcall
  have hflight := InFlight.start hcalm.idle hcalls
  obtain ⟨plan, hlast⟩ := hflight.run hall
  have hintake' := sameIntake_run hall
  rw [hsettle]
  exact ⟨last.arrived, hlasting.run hallowed hflight hfirst hall, hlast.arrived_eq hdone',
    hlast.idle hdone', hintake'.2.trans hcalm.running, hintake'.1.trans hcalm.sources⟩

end Traffic

namespace WritePipeline

variable {settings : WriteSettings}

/-! ### Writes -/

/-- What a pipeline comes to when it only takes the edits of what arrived. -/
structure Taken (analyzers : Analyzers) (p : WritePipeline σ) (edits : List Edit)
    (next : WritePipeline σ) : Prop where
  store : next.store = p.store.takeEdits analyzers edits
  directory : next.directory = p.directory
  answers : next.answers = p.answers
  identifiers : p.identifiers ≤ next.identifiers

/-- Deliveries that neither fail nor commit have their edits taken and change nothing else. -/
theorem lasting_taken (settings : WriteSettings) (p : WritePipeline σ) :
    Traffic.Lasting settings
      (fun delivery => delivery.Sound settings.analyzers ∧ delivery.isCommit = false)
      (fun arrived next =>
        (∀ delivery ∈ arrived.map Prod.fst, delivery.Sound settings.analyzers) ∧
          Taken settings.analyzers p (editsIn (arrived.map Prod.fst)) next) where
  congr := fun ⟨hsound, h⟩ hstore hdirectory hanswers hidentifiers =>
    ⟨hsound, hstore.trans h.store, hdirectory.trans h.directory, hanswers.trans h.answers,
      h.identifiers.trans hidentifiers⟩
  deliver := by
    rintro arrived q delivery ⟨hsound, hcommit⟩ ⟨hbefore, h⟩
    refine ⟨?_, ?_⟩
    · intro other hother
      rw [List.map_append, List.map_singleton] at hother
      rcases List.mem_append.mp hother with hold | hnew
      · exact hbefore other hold
      · rw [List.mem_singleton.mp hnew]
        exact hsound
    · rw [List.map_append, List.map_singleton, editsIn_append]
      cases delivery with
      | edits edits =>
          refine ⟨?_, h.directory, h.answers, h.identifiers⟩
          have hedits : editsIn [.edits edits] = edits := List.append_nil edits
          rw [hedits, DocumentStore.takeEdits_append (analysable_editsIn hbefore), ← h.store]
          rfl
      | failed e => exact absurd hsound id
      | commit ticket => simp [Delivery.isCommit] at hcommit
      | nothing =>
          have hedits : editsIn [.nothing] = [] := rfl
          rw [hedits, List.append_nil]
          exact ⟨h.store, h.directory, h.answers, h.identifiers⟩

/-- **When a write has settled, the edits of its requests are made and nothing is on its way.** -/
theorem submit_settled (settings : WriteSettings) {p : WritePipeline σ} (hcalm : p.Calm)
    {requests : List WriteRequest} (priority : Priority)
    (hanalyzers : settings.builder.analyzers = settings.analyzers)
    (hrequests : ∀ request ∈ requests, settings.builder.Convertible request) :
    ∃ sent, p.submit settings requests priority = (.ok (), sent) ∧
      Taken settings.analyzers p (settings.builder.editsOf requests) (sent.settle settings) ∧
      (sent.settle settings).Calm := by
  obtain ⟨moves, made, hmade, hsubmit, hcalls, hwriting⟩ :=
    Traffic.run_submit (w := Traffic.start p [.write requests priority]) rfl rfl
      hcalm.idle.acceptsJobs
  have hcall : (Call.write requests priority).Convertible settings.builder := hrequests
  have hallowed : ∀ delivery ∈
      askedDeliveries settings.builder p.nextTicket [.write requests priority],
      delivery.Sound settings.analyzers ∧ delivery.isCommit = false := by
    intro delivery hdelivery
    have hnone : (askedDeliveries settings.builder p.nextTicket
        [.write requests priority]).countP Delivery.isCommit = 0 := countP_isCommit_asked _ _
    exact ⟨hanalyzers ▸ sound_asked _ _ delivery hdelivery,
      Bool.eq_false_iff.mpr (List.countP_eq_zero.mp hnone delivery hdelivery)⟩
  obtain ⟨arrived, ⟨-, htaken⟩, harrived, hsettled⟩ :=
    Traffic.settle_call (lasting_taken settings p) hcalm hcall hallowed
      ⟨by simp, rfl, rfl, rfl, Nat.le_refl _⟩ hmade hcalls hwriting
  refine ⟨made.pipeline, hsubmit, ?_, hsettled⟩
  rw [harrived, editsIn_asked] at htaken
  simpa [requestsOf, Call.requests] using htaken

/-! ### Commits -/

/-- What a pipeline comes to when a commit is answered. -/
def Committed (now : Moment) (p next : WritePipeline σ) : Prop :=
  ∃ n, p.identifiers ≤ n ∧ n < next.identifiers ∧
    ∃ answer, p.store.answerCommit (Identifier.ofNat n) now p.directory
        = (answer, next.store, next.directory) ∧
      next.answers = Table.insert p.answers p.nextTicket answer

theorem lasting_committed (settings : WriteSettings) (p : WritePipeline σ) :
    Traffic.Lasting settings (fun delivery => delivery = .commit p.nextTicket)
      (fun arrived next =>
        (arrived = [] → Taken settings.analyzers p [] next) ∧
          (arrived.map Prod.fst = [.commit p.nextTicket] → Committed settings.now p next)) where
  congr := by
    rintro arrived q next ⟨hbefore, hafter⟩ hstore hdirectory hanswers hidentifiers
    refine ⟨fun hnil => ?_, fun hone => ?_⟩
    · have h := hbefore hnil
      exact ⟨hstore.trans h.store, hdirectory.trans h.directory, hanswers.trans h.answers,
        h.identifiers.trans hidentifiers⟩
    · obtain ⟨n, hfrom, hto, answer, hanswer, hall⟩ := hafter hone
      exact ⟨n, hfrom, hto.trans_le hidentifiers, answer, by rw [hstore, hdirectory, hanswer],
        hanswers.trans hall⟩
  deliver := by
    rintro arrived q delivery rfl ⟨hbefore, -⟩
    refine ⟨by simp, fun hone => ?_⟩
    obtain rfl : arrived = [] := by simpa using hone
    obtain ⟨hstore, hdirectory, hanswers, hidentifiers⟩ := hbefore rfl
    have hstore' : q.store = p.store := hstore
    refine ⟨q.identifiers, hidentifiers, Nat.lt_succ_self _,
      (p.store.answerCommit (Identifier.ofNat q.identifiers) settings.now p.directory).1, ?_, ?_⟩
    · simp only [deliver, answer, hstore', hdirectory]
    · simp only [deliver, answer, hstore', hdirectory, hanswers]

/-- **When a commit has settled, it is answered and nothing is on its way.** -/
theorem commit_settled (settings : WriteSettings) {p : WritePipeline σ} (hcalm : p.Calm) :
    ∃ sent, p.commit settings = (.ok p.nextTicket, sent) ∧
      Committed settings.now p (sent.settle settings) ∧ (sent.settle settings).Calm := by
  obtain ⟨scheduler, henqueue, -⟩ := enqueue_ok settings
    (p := { p with sequencer := p.sequencer.reserve.1, nextTicket := p.nextTicket + 1 })
    hcalm.idle.acceptsJobs (.commit p.sequencer.reserve.2 p.nextTicket) .highest
  let sent : WritePipeline σ :=
    { p with sequencer := p.sequencer.reserve.1, nextTicket := p.nextTicket + 1, scheduler }
  have hcommit : p.commit settings = (.ok p.nextTicket, sent) := by
    simp only [commit, henqueue, sent]
  have hmade : (Traffic.start p [.commit]).run settings [.call] = some ⟨sent, [], none, []⟩ := by
    simp only [Traffic.run, Traffic.step, Traffic.callNext, Traffic.start, hcommit]
  have hcall : Call.commit.Convertible settings.builder := trivial
  obtain ⟨arrived, ⟨-, hcommitted⟩, harrived, hsettled⟩ :=
    Traffic.settle_call (lasting_committed settings p) hcalm hcall (by simp [askedDeliveries])
      ⟨fun _ => ⟨rfl, rfl, rfl, Nat.le_refl _⟩, by simp⟩ hmade rfl rfl
  exact ⟨sent, hcommit, hcommitted harrived, hsettled⟩

/-! ### Closing -/

/-- With nothing on its way, closing leaves the directory alone. -/
theorem close_calm (settings : WriteSettings) {p : WritePipeline σ} (hcalm : p.Calm) :
    (p.close settings).directory = p.directory := by
  have hentries : p.scheduler.queue.entries = [] := List.map_eq_nil_iff.mp hcalm.idle.tasks
  have hjobs : p.scheduler.close.1 = [] := by
    simp only [Scheduler.close, Scheduler.takeQueued, PriorityQueue.drain, PriorityQueue.close,
      PriorityQueue.items, hentries, List.map_nil]
  simp only [close, hcalm.sources, hjobs, List.foldl_nil]

end WritePipeline

end DocIndex
