/-
One caller and the workers of a pipeline.

The caller makes his calls one after the other, and a write takes him several moves: one
reserves the turn, one queues each chunk, and the last one ends the turn.  Between any two of
his moves a worker may do any job that is queued, so a list of moves is an execution order of
the jobs together with how far the caller was ahead of it.

What arrives at the store is known from the calls alone.  `InFlight` is the invariant that
says so: what arrived, the values of the turns that are on their way, in the order of the
turns, and what the caller has not asked for yet make up what was asked for.
-/
import Mathlib.Data.List.Perm.Basic
import DocIndex.Proofs.Work.Planned
import DocIndex.Proofs.Writing.Conversion
import DocIndex.Writing.Pipeline

namespace DocIndex

open Work

/-- What a caller asks for. -/
inductive Call where
  | write (requests : List WriteRequest) (priority : Priority)
  | commit

/-- A write whose turn is reserved, and the chunks that are still to be queued. -/
structure OpenWrite where
  root : TurnKey
  priority : Priority
  chunks : List (List WriteRequest)

/-- A pipeline with its caller, and what has arrived at its store. -/
structure Traffic (σ : Type) where
  pipeline : WritePipeline σ
  /-- The calls that are still to be made. -/
  calls : List Call
  /-- The write that the caller is at. -/
  writing : Option OpenWrite
  /-- What arrived, each with the pipeline right after it. -/
  arrived : List (Delivery × WritePipeline σ)

/-- What happens next. -/
inductive Move where
  /-- The caller goes on. -/
  | call
  /-- A worker does the job at a place of the queue. -/
  | work (place : Nat)

/-! ### Moves -/

namespace WritePipeline

variable {σ : Type}

/-- The pipeline without the job at a place of the queue. -/
def takeOut (p : WritePipeline σ) (place : Nat) : WritePipeline σ :=
  let queue := p.scheduler.queue
  { p with scheduler := { p.scheduler with
      queue := { queue with entries := queue.entries.eraseIdx place } } }

/-- The pipeline when the job at a place of the queue is begun. -/
def begun (p : WritePipeline σ) (place : Nat) (task : WriteTask) : WritePipeline σ :=
  { p.takeOut place with identifiers := p.identifiers + task.identifiers }

/-- The tasks that are queued. -/
def tasks (p : WritePipeline σ) : List WriteTask :=
  p.scheduler.queue.entries.map fun entry => entry.2.task

/-- A pipeline that takes jobs, with nothing on its way. -/
structure Idle (p : WritePipeline σ) : Prop where
  planned : p.sequencer.Planned []
  tasks : p.tasks = []
  acceptsJobs : p.scheduler.queue.closed = false

theorem idle_ofStore (ceiling : Nat) (store : DocumentStore) (directory : σ)
    (identifiers : IdentifierSupply) :
    (ofStore ceiling store directory identifiers).Idle :=
  ⟨Sequencer.Planned.empty, rfl, rfl⟩

variable [Storage σ] (settings : WriteSettings)

/-- Deliveries one after the other, each with the pipeline right after it. -/
def trail (p : WritePipeline σ) : List Delivery → List (Delivery × WritePipeline σ)
  | [] => []
  | delivery :: rest =>
    let next := p.deliver settings delivery
    (delivery, next) :: trail next rest

end WritePipeline

namespace Traffic

variable {σ : Type} [Storage σ]

/-- The traffic before the first call. -/
def start (p : WritePipeline σ) (calls : List Call) : Traffic σ := ⟨p, calls, none, []⟩

variable (settings : WriteSettings)

/-- Ends a turn in a pipeline and notes what arrives. -/
def endTurn (w : Traffic σ) (p : WritePipeline σ) (turn : TurnKey) (value : Delivery) :
    Traffic σ :=
  let (arrived, sequencer) := p.sequencer.finish turn (.ready value)
  { w with
    pipeline := p.finishTurn settings turn (.ready value)
    arrived := w.arrived ++ WritePipeline.trail settings { p with sequencer } arrived }

/-- The next move of the caller, if there is something left to be asked for. -/
def callNext (w : Traffic σ) : Option (Traffic σ) :=
  match w.writing, w.calls with
  | some ⟨root, priority, chunk :: chunks⟩, _ =>
    let (sequencer, turn) := w.pipeline.sequencer.split root
    let (_, pipeline) :=
      WritePipeline.enqueue settings { w.pipeline with sequencer } (.convert chunk turn) priority
    some { w with pipeline, writing := some ⟨root, priority, chunks⟩ }
  | some ⟨root, _, []⟩, _ =>
    some { w.endTurn settings w.pipeline root .nothing with writing := none }
  | none, .write requests priority :: calls =>
    if requests.isEmpty then some { w with calls }
    else
      let (sequencer, root) := w.pipeline.sequencer.reserve
      let chunks := chunksOf settings.builder.config.batchSize requests
      some { w with
        pipeline := { w.pipeline with sequencer }, calls
        writing := some ⟨root, priority, chunks⟩ }
  | none, .commit :: calls => some { w with pipeline := (w.pipeline.commit settings).2, calls }
  | none, [] => none

/-- A worker does the job at a place of the queue, if there is one. -/
def work (w : Traffic σ) (place : Nat) : Option (Traffic σ) :=
  match w.pipeline.scheduler.queue.entries[place]? with
  | some (_, job) =>
    let taken := w.pipeline.takeOut place
    let value := job.task.result settings.builder taken.identifiers
    let begun := { taken with identifiers := taken.identifiers + job.task.identifiers }
    let ended := w.endTurn settings begun job.task.turn value
    let scheduler := ended.pipeline.scheduler.finishJob job
    some { ended with pipeline := { ended.pipeline with scheduler } }
  | none => none

/-- A move, if it can be made. -/
def step (w : Traffic σ) : Move → Option (Traffic σ)
  | .call => w.callNext settings
  | .work place => w.work settings place

/-- Moves one after the other, if all of them can be made. -/
def run (w : Traffic σ) : List Move → Option (Traffic σ)
  | [] => some w
  | move :: rest =>
    match w.step settings move with
    | some next => run next rest
    | none => none

/-- Whether everything was asked for and every job is done. -/
def Done (w : Traffic σ) : Prop := w.calls = [] ∧ w.writing = none ∧ w.pipeline.tasks = []

end Traffic

/-! ### The moves and the pipeline's own operations -/

namespace Traffic

variable {σ : Type} [Storage σ] {settings : WriteSettings}

/-- A worker who takes the first job does what the next round of a worker does. -/
theorem work_first {w next : Traffic σ} (h : w.work settings 0 = some next) :
    w.pipeline.runNext settings = some next.pipeline := by
  unfold work at h
  split at h
  · rename_i priority job hentry
    obtain ⟨rest, hrest⟩ : ∃ rest, w.pipeline.scheduler.queue.entries = (priority, job) :: rest :=
      List.head?_eq_some_iff.mp (List.head?_eq_getElem? ▸ hentry)
    obtain rfl := Option.some.inj h
    simp only [WritePipeline.runNext, Scheduler.takeJob, PriorityQueue.dequeue, hrest,
      WritePipeline.perform, WritePipeline.takeOut, endTurn, List.eraseIdx_cons_zero]
  · simp at h

theorem run_append {w middle : Traffic σ} {first second : List Move}
    (h : w.run settings first = some middle) :
    w.run settings (first ++ second) = middle.run settings second := by
  induction first generalizing w with
  | nil =>
      obtain rfl := Option.some.inj h
      rfl
  | cons move rest ih =>
      simp only [run, List.cons_append] at h ⊢
      split at h
      · exact ih h
      · simp at h

/-- The traffic when the job at a place of the queue is done. -/
def doJob (settings : WriteSettings) (w : Traffic σ) (place : Nat) (job : Job WriteTask) :
    Traffic σ :=
  let ended := w.endTurn settings (w.pipeline.begun place job.task) job.task.turn
    (job.task.result settings.builder w.pipeline.identifiers)
  { ended with
    pipeline := { ended.pipeline with scheduler := ended.pipeline.scheduler.finishJob job } }

/-- What a move does. -/
inductive Moved (settings : WriteSettings) (w : Traffic σ) : Traffic σ → Prop where
  | chunk {root : TurnKey} {priority : Priority} {chunk : List WriteRequest}
      {chunks : List (List WriteRequest)}
      (hwriting : w.writing = some ⟨root, priority, chunk :: chunks⟩) :
      Moved settings w { w with
        pipeline := (WritePipeline.enqueue settings
          { w.pipeline with sequencer := (w.pipeline.sequencer.split root).1 }
          (.convert chunk (w.pipeline.sequencer.split root).2) priority).2
        writing := some ⟨root, priority, chunks⟩ }
  | close {root : TurnKey} {priority : Priority}
      (hwriting : w.writing = some ⟨root, priority, []⟩) :
      Moved settings w { w.endTurn settings w.pipeline root .nothing with writing := none }
  | skip {requests : List WriteRequest} {priority : Priority} {calls : List Call}
      (hcalls : w.calls = .write requests priority :: calls) (hempty : requests.isEmpty = true) :
      Moved settings w { w with calls }
  | begin {requests : List WriteRequest} {priority : Priority} {calls : List Call}
      (hwriting : w.writing = none) (hcalls : w.calls = .write requests priority :: calls)
      (hsome : requests.isEmpty = false) :
      Moved settings w { w with
        pipeline := { w.pipeline with sequencer := w.pipeline.sequencer.reserve.1 }, calls
        writing := some ⟨w.pipeline.sequencer.reserve.2, priority,
          chunksOf settings.builder.config.batchSize requests⟩ }
  | commit {calls : List Call} (hwriting : w.writing = none) (hcalls : w.calls = .commit :: calls) :
      Moved settings w { w with pipeline := (w.pipeline.commit settings).2, calls }
  | work {place : Nat} {priority : Priority} {job : Job WriteTask}
      (hentry : w.pipeline.scheduler.queue.entries[place]? = some (priority, job)) :
      Moved settings w (w.doJob settings place job)

/-- A step makes one of the moves. -/
theorem moved_of_step {w next : Traffic σ} {move : Move} (h : w.step settings move = some next) :
    Moved settings w next := by
  cases move with
  | work place =>
      simp only [step, work] at h
      split at h
      · rename_i priority job hentry
        obtain rfl := Option.some.inj h
        exact .work hentry
      · simp at h
  | call =>
      simp only [step, callNext] at h
      split at h
      · rename_i calls root priority chunk chunks hwriting
        obtain rfl := Option.some.inj h
        exact .chunk hwriting
      · rename_i calls root priority hwriting
        obtain rfl := Option.some.inj h
        exact .close hwriting
      · rename_i requests priority calls hwriting hcalls
        by_cases hempty : requests.isEmpty = true
        · rw [if_pos hempty] at h
          obtain rfl := Option.some.inj h
          exact .skip hcalls hempty
        · rw [if_neg hempty] at h
          obtain rfl := Option.some.inj h
          exact .begin hwriting hcalls (by simpa using hempty)
      · rename_i calls hwriting hcalls
        obtain rfl := Option.some.inj h
        exact .commit hwriting hcalls
      · simp at h

/-- What every move keeps is kept by a run. -/
theorem run_keeps {kept : Traffic σ → Prop}
    (hmoved : ∀ {w next : Traffic σ}, kept w → Moved settings w next → kept next)
    {moves : List Move} : ∀ {w last : Traffic σ}, kept w → w.run settings moves = some last →
      kept last := by
  induction moves with
  | nil =>
      intro w last h hrun
      obtain rfl := Option.some.inj hrun
      exact h
  | cons move rest ih =>
      intro w last h hrun
      rw [run] at hrun
      split at hrun
      · rename_i next hstep
        exact ih (hmoved h (moved_of_step hstep)) hrun
      · cases hrun

end Traffic

namespace WritePipeline

variable {σ : Type} [Storage σ] {settings : WriteSettings}

/-- An open queue takes every task, somewhere among those that it has. -/
theorem enqueue_ok (settings : WriteSettings) {p : WritePipeline σ}
    (hopen : p.scheduler.queue.closed = false) (task : WriteTask) (priority : Priority) :
    ∃ scheduler, p.enqueue settings task priority = (.ok (), { p with scheduler }) ∧
      scheduler.queue.closed = false ∧
      ({ p with scheduler } : WritePipeline σ).tasks.Perm (task :: p.tasks) := by
  refine ⟨{ p.scheduler with
    queue := { p.scheduler.queue with
      entries := PriorityQueue.place task.job priority p.scheduler.queue.entries }
    capacity := p.scheduler.capacity.charge task.job.cost }, ?_, hopen, ?_⟩
  · simp [enqueue, Scheduler.enqueue, PriorityQueue.enqueue?, hopen]
  · have hjob : task.job.task = task := by cases task <;> rfl
    simp only [tasks, PriorityQueue.place, List.map_append, List.map_cons, hjob]
    refine List.perm_middle.trans (List.Perm.of_eq ?_)
    rw [← List.map_append, List.takeWhile_append_dropWhile]

/-- Deliveries change neither the turns nor the queue. -/
theorem deliver_frame (settings : WriteSettings) (p : WritePipeline σ) (delivery : Delivery) :
    (p.deliver settings delivery).sequencer = p.sequencer ∧
      (p.deliver settings delivery).scheduler = p.scheduler ∧
      (p.deliver settings delivery).nextTicket = p.nextTicket := by
  cases delivery <;> exact ⟨rfl, rfl, rfl⟩

theorem foldl_deliver_frame (deliveries : List Delivery) : ∀ p : WritePipeline σ,
    (deliveries.foldl (deliver settings) p).sequencer = p.sequencer ∧
      (deliveries.foldl (deliver settings) p).scheduler = p.scheduler ∧
      (deliveries.foldl (deliver settings) p).nextTicket = p.nextTicket := by
  induction deliveries with
  | nil => intro p; exact ⟨rfl, rfl, rfl⟩
  | cons delivery rest ih =>
      intro p
      obtain ⟨hsequencer, hscheduler, hticket⟩ := deliver_frame settings p delivery
      rw [List.foldl_cons, ← hsequencer, ← hscheduler, ← hticket]
      exact ih _

theorem map_fst_trail (deliveries : List Delivery) : ∀ p : WritePipeline σ,
    (trail settings p deliveries).map Prod.fst = deliveries := by
  induction deliveries with
  | nil => intro p; rfl
  | cons delivery rest ih =>
      intro p
      rw [trail, List.map_cons, ih]

/-- Ending a turn hands over what the sequencer lets go, and changes nothing else. -/
theorem finishTurn_frame (settings : WriteSettings) (p : WritePipeline σ) (turn : TurnKey)
    (outcome : Turn Delivery) :
    (p.finishTurn settings turn outcome).sequencer = (p.sequencer.finish turn outcome).2 ∧
      (p.finishTurn settings turn outcome).scheduler = p.scheduler ∧
      (p.finishTurn settings turn outcome).nextTicket = p.nextTicket :=
  foldl_deliver_frame _ _

end WritePipeline

namespace Traffic

variable {σ : Type} [Storage σ] {settings : WriteSettings}

/-- Queueing chunks is what the caller's moves in a row do. -/
theorem run_chunks (settings : WriteSettings) {root : TurnKey} {priority : Priority} :
    ∀ {chunks : List (List WriteRequest)} {w : Traffic σ},
      w.writing = some ⟨root, priority, chunks⟩ → w.pipeline.scheduler.queue.closed = false →
      ∃ p last, WritePipeline.submitChunks settings root priority w.pipeline chunks = (.ok (), p) ∧
        w.run settings (List.replicate (chunks.length + 1) .call) = some last ∧
        last.pipeline = p.finishTurn settings root (.ready .nothing) ∧
        last.calls = w.calls ∧ last.writing = none
  | [], w, hwriting, _ => by
      refine ⟨w.pipeline, { w.endTurn settings w.pipeline root .nothing with writing := none }, rfl,
        ?_, rfl, rfl, rfl⟩
      simp [run, step, callNext, hwriting]
  | chunk :: rest, w, hwriting, hopen => by
      obtain ⟨scheduler, henqueue, haccepts, -⟩ := WritePipeline.enqueue_ok settings
        (p := { w.pipeline with sequencer := (w.pipeline.sequencer.split root).1 }) hopen
        (.convert chunk (w.pipeline.sequencer.split root).2) priority
      let next : Traffic σ := { w with
        pipeline := { w.pipeline with
          sequencer := (w.pipeline.sequencer.split root).1, scheduler }
        writing := some ⟨root, priority, rest⟩ }
      have hstep : w.step settings .call = some next := by
        simp only [step, callNext, hwriting, henqueue]
        rfl
      obtain ⟨p, last, hsubmit, hrun, hlast⟩ := run_chunks settings (w := next) rfl haccepts
      refine ⟨p, last, ?_, ?_, hlast⟩
      · simp only [WritePipeline.submitChunks, henqueue]
        exact hsubmit
      · rw [List.length_cons, List.replicate_succ, run, hstep]
        exact hrun

/-- Submitting a write is what the caller's moves for it in a row do. -/
theorem run_submit {w : Traffic σ} {requests : List WriteRequest} {priority : Priority}
    {calls : List Call} (hwriting : w.writing = none)
    (hcalls : w.calls = .write requests priority :: calls)
    (hopen : w.pipeline.scheduler.queue.closed = false) :
    ∃ moves last, w.run settings (List.replicate moves .call) = some last ∧
      w.pipeline.submit settings requests priority = (.ok (), last.pipeline) ∧
      last.calls = calls ∧ last.writing = none := by
  by_cases hempty : requests.isEmpty = true
  · refine ⟨1, { w with calls }, ?_, ?_, rfl, hwriting⟩
    · simp [run, step, callNext, hwriting, hcalls, hempty]
    · simp [WritePipeline.submit, hempty]
  · let chunks := chunksOf settings.builder.config.batchSize requests
    let next : Traffic σ := { w with
      pipeline := { w.pipeline with sequencer := w.pipeline.sequencer.reserve.1 }, calls
      writing := some ⟨w.pipeline.sequencer.reserve.2, priority, chunks⟩ }
    have hstep : w.step settings .call = some next := by
      simp [step, callNext, hwriting, hcalls, hempty, next, chunks]
    obtain ⟨p, last, hsubmit, hrun, hlast, hrest, hnone⟩ :=
      run_chunks settings (w := next) rfl hopen
    refine ⟨chunks.length + 1 + 1, last, ?_, ?_, hrest, hnone⟩
    · rw [List.replicate_succ, run, hstep]
      exact hrun
    · rw [hlast]
      simp only [WritePipeline.submit, hempty]
      rw [if_neg (by simp), show WritePipeline.submitChunks settings _ priority
        { w.pipeline with sequencer := w.pipeline.sequencer.reserve.1 } _ = _ from hsubmit]

end Traffic

/-! ### What is asked for -/

/-- What the chunks of a write deliver, and then its own turn. -/
def writtenDeliveries (builder : DocumentBuilder) (chunks : List (List WriteRequest)) :
    List Delivery :=
  chunks.map (fun chunk => .edits (builder.editsOf chunk)) ++ [.nothing]

/-- What calls deliver, if commits are numbered from a given number on. -/
def askedDeliveries (builder : DocumentBuilder) : Nat → List Call → List Delivery
  | _, [] => []
  | ticket, .write requests _ :: rest =>
    (if requests.isEmpty then []
      else writtenDeliveries builder (chunksOf builder.config.batchSize requests)) ++
      askedDeliveries builder ticket rest
  | ticket, .commit :: rest => .commit ticket :: askedDeliveries builder (ticket + 1) rest

/-- What a task delivers, whatever identifiers are handed out. -/
def WriteTask.outcome (builder : DocumentBuilder) : WriteTask → Delivery
  | convert requests _ => .edits (builder.editsOf requests)
  | commit _ ticket => .commit ticket

/-- A task that can be done. -/
def WriteTask.Convertible (builder : DocumentBuilder) : WriteTask → Prop
  | convert requests _ => ∀ request ∈ requests, builder.Convertible request
  | commit _ _ => True

theorem WriteTask.result_eq {builder : DocumentBuilder} {task : WriteTask}
    (h : task.Convertible builder) (next : IdentifierSupply) :
    task.result builder next = task.outcome builder := by
  cases task with
  | convert requests turn =>
      simp only [result, DocumentBuilder.convert_eq h]
      rfl
  | commit turn ticket => rfl

/-- A call whose requests can all be converted. -/
def Call.Convertible (builder : DocumentBuilder) : Call → Prop
  | write requests _ => ∀ request ∈ requests, builder.Convertible request
  | commit => True

/-- Chunks put together are what was cut. -/
theorem chunksOf_flatten {α : Type} (size : Nat) (xs : List α) :
    (chunksOf size xs).flatten = xs := by
  induction xs using chunksOf.induct size with
  | case1 => simp [chunksOf]
  | case2 x rest ih => rw [chunksOf, List.flatten_cons, ih, List.cons_append, List.take_append_drop]

/-! ### What is on its way -/

namespace Traffic

variable {σ : Type}

/-- The turn of the write that the caller is at; it delivers nothing itself. -/
def openTurn : Option OpenWrite → List (TurnKey × Delivery)
  | some write => [(write.root, .nothing)]
  | none => []

/-- What has no turn yet. -/
def upcoming (builder : DocumentBuilder) (w : Traffic σ) : List Delivery :=
  (match w.writing with
    | some write => writtenDeliveries builder write.chunks
    | none => []) ++ askedDeliveries builder w.pipeline.nextTicket w.calls

/--
Where everything that was asked for is: it arrived, it is planned for a turn that is there, or
it has no turn yet.
-/
structure InFlight (builder : DocumentBuilder) (asked : List Delivery) (w : Traffic σ)
    (plan : List (TurnKey × Delivery)) : Prop where
  planned : w.pipeline.sequencer.Planned (plan ++ openTurn w.writing)
  /-- Every queued task ends a pending turn as it was planned. -/
  queued : ∀ task ∈ w.pipeline.tasks, w.pipeline.sequencer.Pending task.turn ∧
    (task.turn, task.outcome builder) ∈ plan
  queuedOnce : (w.pipeline.tasks.map WriteTask.turn).Nodup
  openPending : ∀ entry ∈ openTurn w.writing, w.pipeline.sequencer.Pending entry.1
  /-- Somebody is going to end every pending turn. -/
  held : ∀ turn, w.pipeline.sequencer.Pending turn →
    turn ∈ w.pipeline.tasks.map WriteTask.turn ∨ turn ∈ (openTurn w.writing).map Prod.fst
  acceptsJobs : w.pipeline.scheduler.queue.closed = false
  tasksConvertible : ∀ task ∈ w.pipeline.tasks, task.Convertible builder
  callsConvertible : ∀ call ∈ w.calls, call.Convertible builder
  chunksConvertible : ∀ write, w.writing = some write → ∀ chunk ∈ write.chunks,
    ∀ request ∈ chunk, builder.Convertible request
  accounts : w.arrived.map Prod.fst ++ plan.map Prod.snd ++ w.upcoming builder = asked

namespace InFlight

variable {builder : DocumentBuilder} {asked : List Delivery} {w : Traffic σ}
  {plan : List (TurnKey × Delivery)}

/-- When everything is done, everything that was asked for arrived. -/
theorem arrived_eq (h : w.InFlight builder asked plan) (hdone : w.Done) :
    w.arrived.map Prod.fst = asked := by
  obtain ⟨hcalls, hwriting, htasks⟩ := hdone
  have hnil : plan ++ openTurn w.writing = [] := by
    refine h.planned.eq_nil fun turn hturn => ?_
    rcases h.held turn hturn with hmem | hmem
    · simp [htasks] at hmem
    · simp [hwriting, openTurn] at hmem
  have haccounts := h.accounts
  rw [(List.append_eq_nil_iff.mp hnil).1] at haccounts
  simpa [upcoming, hwriting, hcalls, askedDeliveries] using haccounts

/-- In the end nothing is on its way. -/
theorem idle (h : w.InFlight builder asked plan) (hdone : w.Done) : w.pipeline.Idle := by
  obtain ⟨-, hwriting, htasks⟩ := hdone
  have hplanned := h.planned
  have hnil := h.planned.eq_nil fun turn hturn => by
    rcases h.held turn hturn with hmem | hmem
    · simp [htasks] at hmem
    · simp [hwriting, openTurn] at hmem
  rw [hnil] at hplanned
  exact ⟨hplanned, htasks, h.acceptsJobs⟩

/-- Nothing is on its way before the first call. -/
theorem start {p : WritePipeline σ} {calls : List Call} (hidle : p.Idle)
    (hcalls : ∀ call ∈ calls, call.Convertible builder) :
    (Traffic.start p calls).InFlight builder (askedDeliveries builder p.nextTicket calls) [] := by
  have hnone : ∀ turn, ¬p.sequencer.Pending turn := fun turn hturn => by
    simpa using hidle.planned.pending_mem_keys hturn
  refine ⟨hidle.planned, ?_, ?_, ?_, ?_, hidle.acceptsJobs, ?_, hcalls, ?_, ?_⟩
  · simp [Traffic.start, hidle.tasks]
  · simp [Traffic.start, hidle.tasks]
  · simp [Traffic.start, openTurn]
  · exact fun turn hturn => absurd hturn (hnone turn)
  · simp [Traffic.start, hidle.tasks]
  · simp [Traffic.start]
  · simp [Traffic.start, upcoming]

/-! ### The moves of the caller -/

/-- An empty write asks for nothing. -/
theorem skip (h : w.InFlight builder asked plan) {requests : List WriteRequest}
    {priority : Priority} {calls : List Call} (hcalls : w.calls = .write requests priority :: calls)
    (hempty : requests.isEmpty = true) :
    ({ w with calls } : Traffic σ).InFlight builder asked plan where
  planned := h.planned
  queued := h.queued
  queuedOnce := h.queuedOnce
  openPending := h.openPending
  held := h.held
  acceptsJobs := h.acceptsJobs
  tasksConvertible := h.tasksConvertible
  callsConvertible := fun call hcall =>
    h.callsConvertible call (by rw [hcalls]; exact List.mem_cons_of_mem _ hcall)
  chunksConvertible := h.chunksConvertible
  accounts := by
    have haccounts := h.accounts
    simpa [upcoming, hcalls, askedDeliveries, hempty] using haccounts

/-- A write begins with a turn for all of it. -/
theorem begin (h : w.InFlight builder asked plan) {requests : List WriteRequest}
    {priority : Priority} {calls : List Call} (hwriting : w.writing = none)
    (hcalls : w.calls = .write requests priority :: calls) (hsome : requests.isEmpty = false) :
    (⟨{ w.pipeline with sequencer := w.pipeline.sequencer.reserve.1 }, calls,
      some ⟨w.pipeline.sequencer.reserve.2, priority,
        chunksOf builder.config.batchSize requests⟩, w.arrived⟩ :
      Traffic σ).InFlight builder asked plan := by
  have hplanned := h.planned
  rw [hwriting, openTurn, List.append_nil] at hplanned
  obtain ⟨hreserved, -, hpending⟩ := hplanned.reserve .nothing
  have hcall := h.callsConvertible (.write requests priority) (by rw [hcalls]; simp)
  refine ⟨hreserved, ?_, h.queuedOnce, ?_, ?_, h.acceptsJobs, h.tasksConvertible, ?_, ?_, ?_⟩
  · intro task htask
    obtain ⟨hpend, hmem⟩ := h.queued task htask
    exact ⟨(hpending _).mpr (Or.inr hpend), hmem⟩
  · intro entry hentry
    rw [List.mem_singleton.mp hentry]
    exact (hpending _).mpr (Or.inl rfl)
  · intro turn hturn
    rcases (hpending turn).mp hturn with rfl | hturn
    · exact Or.inr (List.mem_cons_self)
    · rcases h.held turn hturn with hmem | hmem
      · exact Or.inl hmem
      · simp [hwriting, openTurn] at hmem
  · intro call hcall
    refine h.callsConvertible call ?_
    rw [hcalls]
    exact List.mem_cons_of_mem _ hcall
  · intro write hwrite chunk hchunk request hrequest
    obtain rfl := Option.some.inj hwrite
    refine hcall request ?_
    rw [← chunksOf_flatten builder.config.batchSize requests]
    exact List.mem_flatten.mpr ⟨chunk, hchunk, hrequest⟩
  · have haccounts := h.accounts
    simpa [upcoming, hwriting, hcalls, askedDeliveries, hsome] using haccounts

variable [Storage σ] {settings : WriteSettings}

/-- Queueing a task for a new turn puts its delivery at the end of the plan. -/
theorem enqueue (h : w.InFlight builder asked plan) (settings : WriteSettings) (task : WriteTask)
    (priority : Priority) {sequencer : Sequencer Delivery} (nextTicket : Nat) (calls : List Call)
    (writing : Option OpenWrite) {last : List (TurnKey × Delivery)}
    (hlast : openTurn w.writing = last ∧ openTurn writing = last)
    (hplanned : sequencer.Planned (plan ++ (task.turn, task.outcome builder) :: last))
    (hfresh : task.turn ∉ (plan ++ last).map Prod.fst)
    (hpending : ∀ turn, sequencer.Pending turn ↔
      turn = task.turn ∨ w.pipeline.sequencer.Pending turn)
    (htask : task.Convertible builder) (hcalls : ∀ call ∈ calls, call.Convertible builder)
    (hchunks : ∀ write, writing = some write → ∀ chunk ∈ write.chunks,
      ∀ request ∈ chunk, builder.Convertible request)
    (hupcoming : w.upcoming builder = task.outcome builder :: (⟨{ w.pipeline with nextTicket },
      calls, writing, w.arrived⟩ : Traffic σ).upcoming builder) :
    ∃ pipeline, WritePipeline.enqueue settings { w.pipeline with sequencer, nextTicket } task
        priority = (.ok (), pipeline) ∧
      (⟨pipeline, calls, writing, w.arrived⟩ : Traffic σ).InFlight builder asked
        (plan ++ [(task.turn, task.outcome builder)]) := by
  obtain ⟨scheduler, henqueue, hopen, hperm⟩ := WritePipeline.enqueue_ok settings
    (p := { w.pipeline with sequencer, nextTicket }) h.acceptsJobs task priority
  obtain ⟨hbefore, hafter⟩ := hlast
  subst hbefore
  have hold : ∀ other, other ∈ w.pipeline.tasks → other.turn ≠ task.turn := by
    intro other hother heq
    refine hfresh (heq ▸ ?_)
    rw [List.map_append]
    exact List.mem_append_left _ (List.mem_map_of_mem (f := Prod.fst) (h.queued other hother).2)
  refine ⟨_, henqueue, ?_, ?_, ?_, ?_, ?_, hopen, ?_, hcalls, hchunks, ?_⟩
  · show sequencer.Planned _
    rw [hafter, List.append_assoc]
    exact hplanned
  · intro other hother
    rcases List.mem_cons.mp (hperm.subset hother) with rfl | hother
    · exact ⟨(hpending _).mpr (Or.inl rfl), by simp⟩
    · obtain ⟨hpend, hmem⟩ := h.queued other hother
      exact ⟨(hpending _).mpr (Or.inr hpend), List.mem_append_left _ hmem⟩
  · refine ((hperm.map WriteTask.turn).nodup_iff).mpr (List.nodup_cons.mpr ⟨?_, h.queuedOnce⟩)
    intro hmem
    obtain ⟨other, hother, heq⟩ := List.mem_map.mp hmem
    exact hold other hother heq
  · intro entry hentry
    exact (hpending _).mpr (Or.inr (h.openPending entry (hafter ▸ hentry)))
  · intro turn hturn
    rcases (hpending turn).mp hturn with rfl | hturn
    · exact Or.inl ((hperm.map WriteTask.turn).mem_iff.mpr List.mem_cons_self)
    · rcases h.held turn hturn with hmem | hmem
      · exact Or.inl ((hperm.map WriteTask.turn).mem_iff.mpr (List.mem_cons_of_mem _ hmem))
      · exact Or.inr (hafter ▸ hmem)
  · intro other hother
    rcases List.mem_cons.mp (hperm.subset hother) with rfl | hother
    · exact htask
    · exact h.tasksConvertible other hother
  · have haccounts := h.accounts
    rw [hupcoming] at haccounts
    simpa [upcoming] using haccounts

/-- A chunk gets a part of the turn of its write. -/
theorem chunk (h : w.InFlight builder asked plan) (settings : WriteSettings) {root : TurnKey}
    {priority : Priority}
    {chunk : List WriteRequest} {chunks : List (List WriteRequest)}
    (hwriting : w.writing = some ⟨root, priority, chunk :: chunks⟩) :
    ∃ pipeline plan', WritePipeline.enqueue settings
        { w.pipeline with sequencer := (w.pipeline.sequencer.split root).1 }
        (.convert chunk (w.pipeline.sequencer.split root).2) priority = (.ok (), pipeline) ∧
      ({ w with pipeline, writing := some ⟨root, priority, chunks⟩ } :
        Traffic σ).InFlight builder asked plan' := by
  have hplanned := h.planned
  have hroot := h.openPending (root, .nothing) (by simp [hwriting, openTurn])
  rw [hwriting, openTurn] at hplanned
  obtain ⟨hsplit, hfresh, hpending⟩ :=
    hplanned.split hroot (.edits (builder.editsOf chunk))
  have hchunks := h.chunksConvertible _ hwriting
  obtain ⟨pipeline, henqueue, hnext⟩ := h.enqueue settings
    (.convert chunk (w.pipeline.sequencer.split root).2) priority w.pipeline.nextTicket w.calls
    (some ⟨root, priority, chunks⟩) ⟨by rw [hwriting]; rfl, rfl⟩ hsplit hfresh hpending
    (hchunks chunk List.mem_cons_self) h.callsConvertible
    (fun write hwrite other hother => by
      obtain rfl := Option.some.inj hwrite
      exact hchunks other (List.mem_cons_of_mem _ hother))
    (by simp [upcoming, hwriting, writtenDeliveries, WriteTask.outcome])
  exact ⟨pipeline, _, henqueue, hnext⟩

/-- A commit has a turn after everything that was asked for before. -/
theorem commit (h : w.InFlight builder asked plan) {calls : List Call}
    (hwriting : w.writing = none) (hcalls : w.calls = .commit :: calls) :
    ∃ plan', ({ w with pipeline := (w.pipeline.commit settings).2, calls } :
      Traffic σ).InFlight builder asked plan' := by
  have hplanned := h.planned
  rw [hwriting, openTurn, List.append_nil] at hplanned
  obtain ⟨hreserved, hfresh, hpending⟩ := hplanned.reserve (.commit w.pipeline.nextTicket)
  obtain ⟨pipeline, henqueue, hnext⟩ := h.enqueue settings
    (.commit w.pipeline.sequencer.reserve.2 w.pipeline.nextTicket) .highest
    (w.pipeline.nextTicket + 1) calls none ⟨by rw [hwriting], rfl⟩ hreserved
    (by simpa [openTurn, WriteTask.turn] using hfresh)
    hpending trivial
    (fun call hcall => h.callsConvertible call (by rw [hcalls]; exact List.mem_cons_of_mem _ hcall))
    (by simp) (by simp [upcoming, hwriting, hcalls, askedDeliveries, WriteTask.outcome])
  have hcommit : (w.pipeline.commit settings).2 = pipeline := by
    simp only [WritePipeline.commit, henqueue]
  rw [hcommit]
  exact ⟨_, hwriting ▸ hnext⟩

/-! ### Ending turns -/

/-- Ending a turn as planned hands over the front of the plan. -/
theorem endTurn (h : w.InFlight builder asked plan) (settings : WriteSettings)
    {p : WritePipeline σ} (turn : TurnKey) (value : Delivery) (writing : Option OpenWrite)
    (mine : List (TurnKey × Delivery))
    (hsequencer : p.sequencer = w.pipeline.sequencer)
    (hticket : p.nextTicket = w.pipeline.nextTicket)
    (haccepts : p.scheduler.queue.closed = false)
    (htasks : ∀ task ∈ p.tasks, task ∈ w.pipeline.tasks ∧ task.turn ≠ turn)
    (honce : (p.tasks.map WriteTask.turn).Nodup)
    (hheld : ∀ other, w.pipeline.sequencer.Pending other → other ≠ turn →
      other ∈ p.tasks.map WriteTask.turn ∨ other ∈ (openTurn writing).map Prod.fst)
    (hopen : ∀ entry ∈ openTurn writing, w.pipeline.sequencer.Pending entry.1)
    (hplan : plan ++ openTurn w.writing = mine ++ openTurn writing) (hmine : plan ⊆ mine)
    (hturn : (turn, value) ∈ mine)
    (hchunks : ∀ write, writing = some write → ∀ chunk ∈ write.chunks,
      ∀ request ∈ chunk, builder.Convertible request)
    (hupcoming : plan.map Prod.snd ++ w.upcoming builder
      = mine.map Prod.snd ++ ({ w with writing } : Traffic σ).upcoming builder) :
    ∃ plan', ({ w.endTurn settings p turn value with writing } :
      Traffic σ).InFlight builder asked plan' := by
  have hplanned := h.planned
  rw [hplan, ← hsequencer] at hplanned
  obtain ⟨n, harrived, hrest, hpending, hstays⟩ :=
    hplanned.finish_front (hsequencer ▸ hopen) hturn
  obtain ⟨hseq, hscheduler, hnext⟩ :=
    WritePipeline.finishTurn_frame settings p turn (.ready value)
  have hsame : (w.endTurn settings p turn value).pipeline.tasks = p.tasks := by
    simp only [Traffic.endTurn, WritePipeline.tasks, hscheduler]
  have hseq' : (w.endTurn settings p turn value).pipeline.sequencer
      = (p.sequencer.finish turn (.ready value)).2 := hseq
  rw [← hseq'] at hrest hpending hstays
  refine ⟨mine.drop n, hrest, ?_, ?_, ?_, ?_, ?_, ?_, h.callsConvertible, hchunks, ?_⟩
  · intro task htask
    obtain ⟨hold, hne⟩ := htasks task (hsame ▸ htask)
    obtain ⟨hpend, hmem⟩ := h.queued task hold
    have hpend' := (hpending task.turn).mpr ⟨hne, hsequencer ▸ hpend⟩
    exact ⟨hpend', hstays _ (hmine hmem) hpend'⟩
  · exact hsame ▸ honce
  · intro entry hentry
    refine (hpending entry.1).mpr ⟨fun heq => ?_, hsequencer ▸ hopen entry hentry⟩
    have hnodup := hplanned.keys_nodup
    rw [List.map_append] at hnodup
    exact (List.nodup_append.mp hnodup).2.2 turn (List.mem_map_of_mem (f := Prod.fst) hturn)
      entry.1 (List.mem_map_of_mem hentry) heq.symm
  · intro other hother
    obtain ⟨hne, hpend⟩ := (hpending other).mp hother
    exact hsame ▸ hheld other (hsequencer ▸ hpend) hne
  · show (p.finishTurn settings turn (.ready value)).scheduler.queue.closed = false
    rw [hscheduler]
    exact haccepts
  · intro task htask
    exact h.tasksConvertible task (htasks task (hsame ▸ htask)).1
  · have hup : ({ w.endTurn settings p turn value with writing } : Traffic σ).upcoming builder
        = ({ w with writing } : Traffic σ).upcoming builder := by
      show _ ++ askedDeliveries builder (p.finishTurn settings turn _).nextTicket w.calls = _
      rw [hnext, hticket]
      rfl
    have harrived' : (w.endTurn settings p turn value).arrived.map Prod.fst
        = w.arrived.map Prod.fst ++ (mine.take n).map Prod.snd := by
      simp only [Traffic.endTurn, List.map_append, WritePipeline.map_fst_trail, harrived]
    calc (w.endTurn settings p turn value).arrived.map Prod.fst ++ (mine.drop n).map Prod.snd ++
          ({ w.endTurn settings p turn value with writing } : Traffic σ).upcoming builder
        = w.arrived.map Prod.fst ++ (mine.map Prod.snd ++
            ({ w with writing } : Traffic σ).upcoming builder) := by
          rw [hup, harrived', List.append_assoc (w.arrived.map Prod.fst), ← List.map_append,
            List.take_append_drop, List.append_assoc]
      _ = asked := by rw [← hupcoming, ← List.append_assoc, h.accounts]

/-- A write ends with its own turn. -/
theorem close (h : w.InFlight builder asked plan) {root : TurnKey} {priority : Priority}
    (hwriting : w.writing = some ⟨root, priority, []⟩) :
    ∃ plan', ({ w.endTurn settings w.pipeline root .nothing with writing := none } :
      Traffic σ).InFlight builder asked plan' := by
  have hplanned := h.planned
  rw [hwriting, openTurn] at hplanned
  refine h.endTurn settings root .nothing none (plan ++ [(root, .nothing)]) rfl rfl h.acceptsJobs
    ?_ h.queuedOnce ?_ (by simp [openTurn]) (by simp [hwriting, openTurn])
    (List.subset_append_left _ _) (by simp)
    (by simp) (by simp [upcoming, hwriting, writtenDeliveries])
  · intro task htask
    refine ⟨htask, fun heq => ?_⟩
    have hnodup := hplanned.keys_nodup
    rw [List.map_append] at hnodup
    exact (List.nodup_append.mp hnodup).2.2 task.turn
      (List.mem_map_of_mem (f := Prod.fst) (h.queued task htask).2) root (by simp) heq
  · intro other hother hne
    refine Or.inl ((h.held other hother).resolve_right fun hmem => ?_)
    simp only [hwriting, openTurn, List.map_cons, List.map_nil, List.mem_singleton] at hmem
    exact hne hmem

/-- A job ends the turn of its task. -/
theorem work (h : w.InFlight settings.builder asked plan) {place : Nat} {priority : Priority}
    {job : Job WriteTask}
    (hentry : w.pipeline.scheduler.queue.entries[place]? = some (priority, job)) :
    ∃ plan', (w.doJob settings place job).InFlight settings.builder asked plan' := by
  -- The queue is the job and what is left when it is taken out.
  have hperm : w.pipeline.tasks.Perm (job.task :: (w.pipeline.takeOut place).tasks) := by
    obtain ⟨hplace, hget⟩ := List.getElem?_eq_some_iff.mp hentry
    have hentries := (List.getElem_cons_eraseIdx_perm hplace).symm.map fun entry => entry.2.task
    rwa [List.map_cons, hget] at hentries
  have htask := hperm.symm.subset List.mem_cons_self
  have honce := (hperm.map WriteTask.turn).nodup_iff.mp h.queuedOnce
  rw [List.map_cons] at honce
  have hvalue := WriteTask.result_eq (h.tasksConvertible _ htask) w.pipeline.identifiers
  obtain ⟨plan', hended⟩ := h.endTurn settings (p := w.pipeline.begun place job.task)
    job.task.turn (job.task.outcome settings.builder) w.writing plan rfl rfl h.acceptsJobs
    (fun task hmem => ⟨hperm.symm.subset (List.mem_cons_of_mem _ hmem), fun heq =>
      (List.nodup_cons.mp honce).1 (heq ▸ List.mem_map_of_mem (f := WriteTask.turn) hmem)⟩)
    (List.nodup_cons.mp honce).2
    (fun other hother hne => (h.held other hother).imp_left fun hmem =>
      (List.mem_cons.mp ((hperm.map WriteTask.turn).subset hmem)).resolve_left hne)
    h.openPending rfl (List.Subset.refl _) (h.queued _ htask).2 h.chunksConvertible rfl
  unfold doJob
  rw [hvalue]
  exact ⟨plan', hended.planned, hended.queued, hended.queuedOnce, hended.openPending,
    hended.held, hended.acceptsJobs, hended.tasksConvertible, hended.callsConvertible,
    hended.chunksConvertible, hended.accounts⟩

/-! ### Runs -/

/-- Every move keeps account of what was asked for. -/
theorem moved (h : w.InFlight settings.builder asked plan) {next : Traffic σ}
    (hmoved : Moved settings w next) : ∃ plan', next.InFlight settings.builder asked plan' := by
  cases hmoved with
  | chunk hwriting =>
      obtain ⟨pipeline, plan', henqueue, hnext⟩ := h.chunk settings hwriting
      rw [henqueue]
      exact ⟨plan', hnext⟩
  | close hwriting => exact h.close hwriting
  | skip hcalls hempty => exact ⟨plan, h.skip hcalls hempty⟩
  | begin hwriting hcalls hsome => exact ⟨plan, h.begin hwriting hcalls hsome⟩
  | commit hwriting hcalls => exact h.commit hwriting hcalls
  | work hentry => exact h.work hentry

/-- Every run keeps account of what was asked for. -/
theorem run (h : w.InFlight settings.builder asked plan) {moves : List Move} {last : Traffic σ}
    (hrun : w.run settings moves = some last) :
    ∃ plan', last.InFlight settings.builder asked plan' := by
  have hkept : ∀ {w next : Traffic σ}, (∃ plan, w.InFlight settings.builder asked plan) →
      Moved settings w next → ∃ plan, next.InFlight settings.builder asked plan := by
    rintro w next ⟨plan, hflight⟩ hmoved
    exact hflight.moved hmoved
  exact Traffic.run_keeps hkept ⟨plan, h⟩ hrun

end InFlight

/-! ### What lasts through a run -/

/--
What deliveries of a kind keep, whatever else happens in between: it depends on what arrived, on
the store, the directory and the answers, and on no more of the identifiers than that they are
used up.
-/
structure Lasting {σ : Type} [Storage σ] (settings : WriteSettings) (allowed : Delivery → Prop)
    (holds : List (Delivery × WritePipeline σ) → WritePipeline σ → Prop) : Prop where
  congr : ∀ {arrived p next}, holds arrived p → next.store = p.store →
    next.directory = p.directory → next.answers = p.answers → p.identifiers ≤ next.identifiers →
    holds arrived next
  deliver : ∀ {arrived p delivery}, allowed delivery → holds arrived p →
    holds (arrived ++ [(delivery, p.deliver settings delivery)]) (p.deliver settings delivery)

namespace Lasting

variable {σ : Type} [Storage σ] {settings : WriteSettings} {allowed : Delivery → Prop}
  {holds : List (Delivery × WritePipeline σ) → WritePipeline σ → Prop}

theorem trail (hl : Lasting settings allowed holds) :
    ∀ {deliveries : List Delivery} {arrived : List (Delivery × WritePipeline σ)}
      {p : WritePipeline σ}, holds arrived p → (∀ delivery ∈ deliveries, allowed delivery) →
        holds (arrived ++ WritePipeline.trail settings p deliveries)
          (deliveries.foldl (WritePipeline.deliver settings) p)
  | [], arrived, p, h, _ => by
      rw [WritePipeline.trail, List.append_nil]
      exact h
  | delivery :: rest, arrived, p, h, hallowed => by
      have hnext := hl.deliver (hallowed delivery List.mem_cons_self) h
      have hrest := hl.trail hnext fun d hd => hallowed d (List.mem_cons_of_mem _ hd)
      rwa [List.append_assoc] at hrest

theorem endTurn (hl : Lasting settings allowed holds) {w : Traffic σ} {q : WritePipeline σ}
    {turn : TurnKey} {value : Delivery} (h : holds w.arrived q)
    (hallowed : ∀ delivery ∈ (w.endTurn settings q turn value).arrived.map Prod.fst,
      allowed delivery) :
    holds (w.endTurn settings q turn value).arrived (w.endTurn settings q turn value).pipeline := by
  have hquiet : holds w.arrived
      { q with sequencer := (q.sequencer.finish turn (.ready value)).2 } :=
    hl.congr h rfl rfl rfl (Nat.le_refl _)
  refine hl.trail hquiet fun delivery hdelivery => hallowed delivery ?_
  simp only [Traffic.endTurn, List.map_append, WritePipeline.map_fst_trail]
  exact List.mem_append_right _ hdelivery

/-- It lasts through every move. -/
theorem moved (hl : Lasting settings allowed holds) {w next : Traffic σ} {asked : List Delivery}
    {plan plan' : List (TurnKey × Delivery)} (hflight : w.InFlight settings.builder asked plan)
    (hnext : next.InFlight settings.builder asked plan')
    (hasked : ∀ delivery ∈ asked, allowed delivery) (h : holds w.arrived w.pipeline)
    (hmoved : Moved settings w next) : holds next.arrived next.pipeline := by
  have hallowed : ∀ delivery ∈ next.arrived.map Prod.fst, allowed delivery := by
    intro delivery hdelivery
    refine hasked delivery ?_
    rw [← hnext.accounts]
    exact List.mem_append_left _ (List.mem_append_left _ hdelivery)
  cases hmoved with
  | @chunk root priority chunk chunks hwriting =>
      obtain ⟨scheduler, henqueue, -⟩ := WritePipeline.enqueue_ok settings
        (p := { w.pipeline with sequencer := (w.pipeline.sequencer.split root).1 })
        hflight.acceptsJobs (.convert chunk (w.pipeline.sequencer.split root).2) priority
      rw [henqueue]
      exact hl.congr h rfl rfl rfl (Nat.le_refl _)
  | close hwriting => exact hl.endTurn h hallowed
  | skip hcalls hempty => exact h
  | begin hwriting hcalls hsome => exact hl.congr h rfl rfl rfl (Nat.le_refl _)
  | commit hwriting hcalls =>
      obtain ⟨scheduler, henqueue, -⟩ := WritePipeline.enqueue_ok settings
        (p := { w.pipeline with
          sequencer := w.pipeline.sequencer.reserve.1, nextTicket := w.pipeline.nextTicket + 1 })
        hflight.acceptsJobs (.commit w.pipeline.sequencer.reserve.2 w.pipeline.nextTicket)
        .highest
      have hcommit : (w.pipeline.commit settings).2 = { w.pipeline with
          sequencer := w.pipeline.sequencer.reserve.1
          nextTicket := w.pipeline.nextTicket + 1, scheduler } := by
        simp only [WritePipeline.commit, henqueue]
      rw [hcommit]
      exact hl.congr h rfl rfl rfl (Nat.le_refl _)
  | @work place priority job hentry =>
      have hbegun : holds w.arrived (w.pipeline.begun place job.task) :=
        hl.congr h rfl rfl rfl (Nat.le_add_right _ _)
      exact hl.congr (hl.endTurn hbegun hallowed) rfl rfl rfl (Nat.le_refl _)

/-- It lasts through every run. -/
theorem run (hl : Lasting settings allowed holds) {asked : List Delivery}
    (hasked : ∀ delivery ∈ asked, allowed delivery) {w : Traffic σ}
    {plan : List (TurnKey × Delivery)} (hflight : w.InFlight settings.builder asked plan)
    (h : holds w.arrived w.pipeline) {moves : List Move} {last : Traffic σ}
    (hrun : w.run settings moves = some last) : holds last.arrived last.pipeline := by
  have hkept : ∀ {w next : Traffic σ},
      (∃ plan, w.InFlight settings.builder asked plan) ∧ holds w.arrived w.pipeline →
      Moved settings w next →
        (∃ plan, next.InFlight settings.builder asked plan) ∧ holds next.arrived next.pipeline := by
    rintro w next ⟨⟨plan, hflight⟩, h⟩ hmoved
    obtain ⟨plan', hnext⟩ := hflight.moved hmoved
    exact ⟨⟨plan', hnext⟩, hl.moved hflight hnext hasked h hmoved⟩
  exact (Traffic.run_keeps hkept ⟨⟨plan, hflight⟩, h⟩ hrun).2

end Lasting

end Traffic

end DocIndex
