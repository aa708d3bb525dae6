/-
A pipeline, its caller, its workers and its shutdown, step by step.

`Traffic` lets a worker do a whole job at once.  Here every step of it is one of its own: a task is
taken from the queue, its turn is ended, what is completed is collected, and each value is handed
to the store.  So are the steps of the caller, who queues a task after he got its turn, and those
of a shutdown, which first closes the queue, then takes all tasks out of it, and then drops them
one by one.  Whoever ends a turn may have to deliver, and does nothing else until he is done.

The turns are those of a workshop, and so its invariant holds here.  A service keeps what a
workshop does not know: which tasks are still to be ended and by whom, what the caller asked for,
and what arrived at the store and how it was left.
-/
import DocIndex.Proofs.Work.Delivery
import DocIndex.Proofs.Writing.Traffic

namespace DocIndex

open Work
open TurnKey (Before)

/-- A write whose turn is reserved. -/
structure Sending where
  number : Nat
  priority : Priority
  requests : List WriteRequest
  /-- The chunks that have turns, with their turns. -/
  placed : List (TurnKey × List WriteRequest)
  left : List (List WriteRequest)

/-- The turn that is reserved under a number. -/
def rootTurn (number : Nat) : TurnKey := ⟨[number]⟩

/-- Where the caller is. -/
inductive Stage where
  | free
  | sending (write : Sending)
  /-- A task has its turn and is to be queued, for a write or for a commit. -/
  | queueing (task : WriteTask) (priority : Priority) (write : Option Sending)
  /-- A chunk of a write was refused, and with it the write. -/
  | refused (number : Nat)

namespace Stage

/-- The number of the turn that the caller is going to end. -/
def number? : Stage → Option Nat
  | .free => none
  | .sending write => some write.number
  | .queueing _ _ write => write.map Sending.number
  | .refused number => some number

/-- The write that the caller is at. -/
def write? : Stage → Option Sending
  | .sending write => some write
  | .queueing _ _ write => write
  | .free | .refused _ => none

/-- The task that the caller has. -/
def tasks : Stage → List WriteTask
  | .queueing task _ _ => [task]
  | .free | .sending _ | .refused _ => []

/-- A task was queued. -/
def resume : Option Sending → Stage
  | some write => .sending write
  | none => .free

/-- A task was refused. -/
def giveUp : Option Sending → Stage
  | some write => .refused write.number
  | none => .free

theorem number?_resume (write : Option Sending) :
    (resume write).number? = write.map Sending.number := by
  cases write <;> rfl

theorem number?_giveUp (write : Option Sending) :
    (giveUp write).number? = write.map Sending.number := by
  cases write <;> rfl

theorem write?_resume (write : Option Sending) : (resume write).write? = write := by
  cases write <;> rfl

theorem write?_giveUp (write : Option Sending) : (giveUp write).write? = none := by
  cases write <;> rfl

theorem tasks_resume (write : Option Sending) : (resume write).tasks = [] := by
  cases write <;> rfl

theorem tasks_giveUp (write : Option Sending) : (giveUp write).tasks = [] := by
  cases write <;> rfl

end Stage

/-- What the caller was given: a write that was accepted, or a commit that was asked for. -/
inductive Asked where
  | write (number : Nat) (requests : List WriteRequest)
    (chunks : List (TurnKey × List WriteRequest))
  | commit (number : Nat) (ticket : Nat)

/-- A delivery at its turn, with the store before and after it. -/
structure Arrival where
  turn : TurnKey
  delivery : Delivery
  before : DocumentStore
  after : DocumentStore

/-- A pipeline and everybody at work on it. -/
structure Service (ι σ : Type) where
  pipeline : WritePipeline σ
  /-- The turns that somebody can split or end. -/
  held : List TurnKey
  /-- For one who delivers, the turns of the values that he has in hand. -/
  inHand : ι → Option (List TurnKey)
  /-- The values that turns were ended with. -/
  given : List (TurnKey × Delivery)
  /-- The values that reached the store. -/
  sunk : List (TurnKey × Delivery)
  calls : List Call
  stage : Stage
  /-- Tasks that workers took from the queue. -/
  begun : List WriteTask
  /-- Tasks that were refused or taken out of the queue, and are to be dropped. -/
  doomed : List WriteTask
  /-- Tasks that were dropped. -/
  lost : List WriteTask
  made : List Asked
  arrived : List Arrival

/-- Takes no more jobs, and asks nobody for more. -/
def Work.Scheduler.shut {τ ς : Type} (s : Scheduler τ ς) : Scheduler τ ς :=
  { s with closed := true, queue := s.queue.close, sources := [] }

/-- Whoever waits for a commit is told that its task was dropped. -/
def WritePipeline.notice {σ : Type} [Storage σ] (p : WritePipeline σ) : WriteTask → WritePipeline σ
  | .convert _ _ => p
  | .commit _ ticket => p.answer ticket (.error .commitAbandoned)

namespace WritePipeline

variable {σ : Type} [Storage σ]

/-- A notice changes the answers only. -/
theorem notice_frame (p : WritePipeline σ) (task : WriteTask) :
    (p.notice task).sequencer = p.sequencer ∧ (p.notice task).scheduler = p.scheduler ∧
      (p.notice task).nextTicket = p.nextTicket ∧ (p.notice task).store = p.store := by
  cases task <;> exact ⟨rfl, rfl, rfl, rfl⟩

end WritePipeline

namespace Service

variable {ι σ : Type}

/-- What happens next. -/
inductive Move where
  /-- The caller goes on. -/
  | call
  /-- A worker takes the task at a place of the queue. -/
  | take (place : Nat)
  /-- A worker ends the turn of a task that was taken. -/
  | finish (place : Nat)
  /-- Nothing is queued any more. -/
  | shut
  /-- All tasks are taken out of a queue that is shut. -/
  | drain
  /-- A task is dropped, and its turn ends without a value. -/
  | discard (place : Nat)
  | collect
  | sink

/-- The turns and those who work on them. -/
def shop (w : Service ι σ) : Workshop ι Delivery :=
  ⟨w.pipeline.sequencer, w.held, w.inHand, w.given, w.sunk⟩

/-- The service with another workshop. -/
def withShop (w : Service ι σ) (shop : Workshop ι Delivery) : Service ι σ :=
  { w with
    pipeline := { w.pipeline with sequencer := shop.sequencer }
    held := shop.held
    inHand := shop.inHand
    given := shop.given
    sunk := shop.sunk }

/-- The service before the first call. -/
def start (p : WritePipeline σ) (calls : List Call) : Service ι σ :=
  ⟨p, [], fun _ => none, [], [], calls, .free, [], [], [], [], []⟩

section Steps

variable [DecidableEq ι] [Storage σ] (settings : WriteSettings)

/-- A step at the turns. -/
def act (w : Service ι σ) (who : ι) (action : Action Delivery) : Option (Service ι σ) :=
  (w.shop.step who action).map w.withShop

/-- The caller queues the task that has its turn. -/
def queue (w : Service ι σ) (task : WriteTask) (priority : Priority) (write : Option Sending) :
    Service ι σ :=
  let (verdict, scheduler) := w.pipeline.scheduler.enqueue task.job priority
  let queued := { w with pipeline := { w.pipeline with scheduler } }
  match verdict with
  | .ok _ => { queued with stage := .resume write }
  | .error _ => { queued with stage := .giveUp write, doomed := task :: w.doomed }

/-- The caller goes on with a write. -/
def send (w : Service ι σ) (who : ι) (write : Sending) : Option (Service ι σ) :=
  match write.left with
  | chunk :: left =>
    let turn := (w.pipeline.sequencer.split (rootTurn write.number)).2
    let write := { write with placed := write.placed ++ [(turn, chunk)], left }
    (w.act who (.split (rootTurn write.number))).map fun next =>
      { next with stage := .queueing (.convert chunk turn) write.priority (some write) }
  | [] =>
    (w.act who (.ready (rootTurn write.number) .nothing)).map fun next =>
      { next with
        stage := .free
        made := w.made ++ [.write write.number write.requests write.placed] }

/-- The caller makes a call. -/
def ask (w : Service ι σ) (who : ι) : Option (Service ι σ) :=
  let number := w.pipeline.sequencer.nextTurn
  let ticket := w.pipeline.nextTicket
  match w.calls with
  | .write requests priority :: calls =>
    if requests.isEmpty then some { w with calls }
    else
      let chunks := chunksOf settings.builder.config.batchSize requests
      (w.act who .reserve).map fun next =>
        { next with calls, stage := .sending ⟨number, priority, requests, [], chunks⟩ }
  | .commit :: calls =>
    (w.act who .reserve).map fun next =>
      { next with
        calls
        pipeline := { next.pipeline with nextTicket := ticket + 1 }
        stage := .queueing (.commit (rootTurn number) ticket) .highest none
        made := w.made ++ [.commit number ticket] }
  | [] => none

/-- The caller goes on from where he is. -/
def goOn (w : Service ι σ) (who : ι) : Option (Service ι σ) :=
  match w.stage with
  | .free => w.ask settings who
  | .sending write => w.send who write
  | .queueing task priority write => some (w.queue task priority write)
  | .refused number =>
    (w.act who (.drop (rootTurn number))).map fun next => { next with stage := .free }

/-- A worker takes the task at a place of the queue. -/
def take (w : Service ι σ) (place : Nat) : Option (Service ι σ) :=
  match w.pipeline.scheduler.queue.entries[place]? with
  | some (_, job) =>
    some { w with pipeline := w.pipeline.takeOut place, begun := job.task :: w.begun }
  | none => none

/-- A worker ends the turn of a task that was taken. -/
def finish (w : Service ι σ) (who : ι) (place : Nat) : Option (Service ι σ) :=
  match w.begun[place]? with
  | some task =>
    let value := task.result settings.builder w.pipeline.identifiers
    (w.act who (.ready task.turn value)).map fun next =>
      { next with
        pipeline := { next.pipeline with
          identifiers := next.pipeline.identifiers + task.identifiers
          scheduler := next.pipeline.scheduler.finishJob task.job }
        begun := w.begun.eraseIdx place }
  | none => none

/-- Nothing is queued any more. -/
def shut (w : Service ι σ) : Service ι σ :=
  { w with pipeline := { w.pipeline with scheduler := w.pipeline.scheduler.shut } }

/-- All tasks are taken out of a queue that is shut. -/
def drain (w : Service ι σ) : Option (Service ι σ) :=
  if w.pipeline.scheduler.closed then
    let (jobs, scheduler) := w.pipeline.scheduler.takeQueued
    some { w with
      pipeline := { w.pipeline with scheduler }
      doomed := jobs.map Job.task ++ w.doomed }
  else none

/-- A task is dropped. -/
def discard (w : Service ι σ) (who : ι) (place : Nat) : Option (Service ι σ) :=
  match w.doomed[place]? with
  | some task =>
    (w.act who (.drop task.turn)).map fun next =>
      { next with
        pipeline := next.pipeline.notice task
        doomed := w.doomed.eraseIdx place
        lost := task :: w.lost }
  | none => none

/-- The next collected value is handed to the store. -/
def sink (w : Service ι σ) (who : ι) : Option (Service ι σ) :=
  match w.act who .sink with
  | some next =>
    match next.sunk.getLast? with
    | some (turn, delivery) =>
      let pipeline := next.pipeline.deliver settings delivery
      let arrival := ⟨turn, delivery, w.pipeline.store, pipeline.store⟩
      some { next with pipeline, arrived := w.arrived ++ [arrival] }
    | none => none
  | none => none

/-- A move that is not part of a delivery. -/
def begin? (w : Service ι σ) (who : ι) : Move → Option (Service ι σ)
  | .call => w.goOn settings who
  | .take place => w.take place
  | .finish place => w.finish settings who place
  | .shut => some w.shut
  | .drain => w.drain
  | .discard place => w.discard who place
  | .collect | .sink => none

/-- A move, if it can be made; whoever delivers does nothing else. -/
def step (w : Service ι σ) (who : ι) : Move → Option (Service ι σ)
  | .collect => w.act who .collect
  | .sink => w.sink settings who
  | move => if (w.inHand who).isNone then w.begin? settings who move else none

/-- Moves one after the other, if all of them can be made. -/
def run (w : Service ι σ) : List (ι × Move) → Option (Service ι σ)
  | [] => some w
  | (who, move) :: rest =>
    match w.step settings who move with
    | some next => run next rest
    | none => none

end Steps

end Service

/-! ### What steps at the turns do -/

namespace Work.Workshop

variable {ι α : Type} [DecidableEq ι] {w next : Workshop ι α} {who : ι}

theorem of_reserve (h : w.step who .reserve = some next) :
    next.sequencer = w.sequencer.reserve.1 ∧ next.held = ⟨[w.sequencer.nextTurn]⟩ :: w.held ∧
      next.given = w.given ∧ next.sunk = w.sunk := by
  simp only [step, Option.some.injEq] at h
  subst h
  exact ⟨rfl, rfl, rfl, rfl⟩

theorem of_split {turn : TurnKey} (h : w.step who (.split turn) = some next) :
    turn ∈ w.held ∧ next.sequencer = (w.sequencer.split turn).1 ∧
      next.held = (w.sequencer.split turn).2 :: w.held ∧
      next.given = w.given ∧ next.sunk = w.sunk := by
  simp only [step, Option.ite_none_right_eq_some, Option.some.injEq] at h
  obtain ⟨hturn, rfl⟩ := h
  exact ⟨hturn, rfl, rfl, rfl, rfl⟩

theorem of_ready {turn : TurnKey} {value : α} (h : w.step who (.ready turn value) = some next) :
    turn ∈ w.held ∧ next.sequencer = w.sequencer.complete turn (.ready value) ∧
      next.held = w.held.erase turn ∧ next.given = w.given ++ [(turn, value)] ∧
      next.sunk = w.sunk := by
  simp only [step, Option.ite_none_right_eq_some, Option.some.injEq] at h
  obtain ⟨hturn, rfl⟩ := h
  exact ⟨hturn, rfl, rfl, rfl, rfl⟩

theorem of_drop {turn : TurnKey} (h : w.step who (.drop turn) = some next) :
    turn ∈ w.held ∧ next.sequencer = w.sequencer.complete turn .abandoned ∧
      next.held = w.held.erase turn ∧ next.given = w.given ∧ next.sunk = w.sunk := by
  simp only [step, Option.ite_none_right_eq_some, Option.some.injEq] at h
  obtain ⟨hturn, rfl⟩ := h
  exact ⟨hturn, rfl, rfl, rfl, rfl⟩

theorem of_collect (h : w.step who .collect = some next) :
    next.sequencer.nextTurn = w.sequencer.nextTurn ∧ next.held = w.held ∧
      next.given = w.given ∧ next.sunk = w.sunk := by
  simp only [step, Option.ite_none_right_eq_some, Option.some.injEq] at h
  obtain ⟨-, rfl⟩ := h
  exact ⟨rfl, rfl, rfl, rfl⟩

theorem of_sink (h : w.step who .sink = some next) :
    next.sequencer.nextTurn = w.sequencer.nextTurn ∧ next.held = w.held ∧
      next.given = w.given ∧ ∃ entry, next.sunk = w.sunk ++ [entry] := by
  simp only [step] at h
  split at h
  · rename_i turn rest value sequencer hhand hdeliver
    cases h
    refine ⟨?_, rfl, rfl, _, rfl⟩
    unfold Sequencer.deliver at hdeliver
    split at hdeliver <;> cases hdeliver
    rfl
  · cases h

end Work.Workshop

namespace Service

variable {ι σ : Type}

/-! ### Who ends which turn -/

/-- The tasks that are still to be ended. -/
def alive (w : Service ι σ) : List WriteTask :=
  w.stage.tasks ++ (w.pipeline.tasks ++ (w.begun ++ w.doomed))

variable {w next : Service ι σ} {who : ι}

theorem perm_place (task : WriteTask) (priority : Priority)
    (entries : List (Priority × Job WriteTask)) :
    ((PriorityQueue.place task.job priority entries).map fun entry => entry.2.task).Perm
      (task :: entries.map fun entry => entry.2.task) := by
  have hjob : task.job.task = task := by cases task <;> rfl
  simp only [PriorityQueue.place, List.map_append, List.map_cons, hjob]
  refine List.perm_middle.trans (List.Perm.of_eq ?_)
  rw [← List.map_append, List.takeWhile_append_dropWhile]

/-- A task is queued, unless the queue is closed; then it is to be dropped. -/
theorem queue_cases (w : Service ι σ) (task : WriteTask) (priority : Priority)
    (write : Option Sending) :
    (∃ scheduler, scheduler.closed = w.pipeline.scheduler.closed ∧
      scheduler.queue.closed = w.pipeline.scheduler.queue.closed ∧
      ({ w.pipeline with scheduler } : WritePipeline σ).tasks.Perm (task :: w.pipeline.tasks) ∧
      w.queue task priority write =
        { w with pipeline := { w.pipeline with scheduler }, stage := .resume write }) ∨
    (∃ scheduler, w.pipeline.scheduler.queue.closed = true ∧
      scheduler.closed = w.pipeline.scheduler.closed ∧
      scheduler.queue = w.pipeline.scheduler.queue ∧
      w.queue task priority write =
        { w with
          pipeline := { w.pipeline with scheduler }
          stage := .giveUp write
          doomed := task :: w.doomed }) := by
  let before := w.pipeline.scheduler
  let charged := before.capacity.charge task.job.cost
  unfold queue Scheduler.enqueue PriorityQueue.enqueue?
  by_cases hclosed : before.queue.closed = true
  · rw [if_pos hclosed]
    exact Or.inr ⟨{ before with capacity := charged.discharge task.job.cost }, hclosed, rfl, rfl,
      rfl⟩
  · rw [if_neg hclosed]
    let entries := PriorityQueue.place task.job priority before.queue.entries
    refine Or.inl ⟨{ before with queue := { before.queue with entries }, capacity := charged },
      rfl, rfl, perm_place task priority before.queue.entries, rfl⟩

/-- Queueing a task touches the queue, the caller and what is to be dropped. -/
theorem queue_frame (w : Service ι σ) (task : WriteTask) (priority : Priority)
    (write : Option Sending) : ∃ scheduler stage doomed, w.queue task priority write =
      { w with pipeline := { w.pipeline with scheduler }, stage, doomed } := by
  rcases w.queue_cases task priority write with ⟨scheduler, -, -, -, heq⟩ |
    ⟨scheduler, -, -, -, heq⟩
  · exact ⟨scheduler, .resume write, w.doomed, heq⟩
  · exact ⟨scheduler, .giveUp write, task :: w.doomed, heq⟩

theorem alive_queue {task : WriteTask} {priority : Priority} {write : Option Sending}
    (hstage : w.stage = .queueing task priority write) :
    (w.queue task priority write).alive.Perm w.alive := by
  have halive : w.alive = task :: (w.pipeline.tasks ++ (w.begun ++ w.doomed)) := by
    rw [alive, hstage]
    rfl
  rcases w.queue_cases task priority write with ⟨scheduler, -, -, hperm, heq⟩ |
    ⟨scheduler, -, -, hqueue, heq⟩
  · rw [heq, halive, alive, Stage.tasks_resume, List.nil_append]
    exact hperm.append_right _
  · have htasks : ({ w.pipeline with scheduler } : WritePipeline σ).tasks = w.pipeline.tasks := by
      rw [WritePipeline.tasks, WritePipeline.tasks, hqueue]
    rw [heq, halive, alive, Stage.tasks_giveUp, List.nil_append, htasks, ← List.append_assoc]
    exact (List.perm_middle).trans (List.Perm.of_eq (by rw [List.append_assoc]))

/-- A list is the item at a place and what is left without it. -/
theorem perm_eraseIdx {α : Type} {xs : List α} {place : Nat} {x : α} (h : xs[place]? = some x) :
    xs.Perm (x :: xs.eraseIdx place) := by
  obtain ⟨hplace, rfl⟩ := List.getElem?_eq_some_iff.mp h
  exact (List.getElem_cons_eraseIdx_perm hplace).symm

/-- The queue is the task at a place and what is left without it. -/
theorem tasks_takeOut {place : Nat} {priority : Priority} {job : Job WriteTask}
    (p : WritePipeline σ) (hentry : p.scheduler.queue.entries[place]? = some (priority, job)) :
    p.tasks.Perm (job.task :: (p.takeOut place).tasks) := by
  exact (perm_eraseIdx hentry).map fun entry => entry.2.task

theorem alive_take {place : Nat} {priority : Priority} {job : Job WriteTask}
    (hentry : w.pipeline.scheduler.queue.entries[place]? = some (priority, job)) :
    ({ w with pipeline := w.pipeline.takeOut place, begun := job.task :: w.begun } :
      Service ι σ).alive.Perm w.alive :=
  (List.perm_middle.trans ((tasks_takeOut w.pipeline hentry).symm.append_right _)).append_left _

theorem alive_drain :
    ({ w with
      pipeline := { w.pipeline with scheduler := w.pipeline.scheduler.takeQueued.2 }
      doomed := w.pipeline.scheduler.takeQueued.1.map Job.task ++ w.doomed } :
      Service ι σ).alive.Perm w.alive := by
  have htasks : w.pipeline.scheduler.takeQueued.1.map Job.task = w.pipeline.tasks := by
    rw [WritePipeline.tasks, Scheduler.takeQueued, PriorityQueue.drain, PriorityQueue.items,
      List.map_map]
    rfl
  refine List.Perm.append_left _ ?_
  show (w.begun ++ (w.pipeline.scheduler.takeQueued.1.map Job.task ++ w.doomed)).Perm _
  rw [htasks, ← List.append_assoc, ← List.append_assoc]
  exact List.perm_append_comm.append_right _

theorem alive_of_begun {place : Nat} {task : WriteTask} (hplace : w.begun[place]? = some task)
    (hnext : next.alive = w.stage.tasks ++
      (w.pipeline.tasks ++ (w.begun.eraseIdx place ++ w.doomed))) :
    w.alive.Perm (task :: next.alive) := by
  have hbegun := (((perm_eraseIdx hplace).append_right w.doomed).append_left
    w.pipeline.tasks).append_left w.stage.tasks
  rw [hnext]
  refine hbegun.trans ?_
  rw [List.cons_append, ← List.append_assoc]
  refine List.perm_middle.trans (List.Perm.of_eq ?_)
  rw [List.append_assoc]

theorem alive_of_doomed {place : Nat} {task : WriteTask} (hplace : w.doomed[place]? = some task)
    (hnext : next.alive = w.stage.tasks ++
      (w.pipeline.tasks ++ (w.begun ++ w.doomed.eraseIdx place))) :
    w.alive.Perm (task :: next.alive) := by
  have hdoomed := (((perm_eraseIdx hplace).append_left w.begun).append_left
    w.pipeline.tasks).append_left w.stage.tasks
  rw [hnext]
  refine hdoomed.trans ?_
  rw [← List.append_assoc, ← List.append_assoc]
  refine List.perm_middle.trans (List.Perm.of_eq ?_)
  rw [List.append_assoc, List.append_assoc]

/-! ### What a move does -/

variable [DecidableEq ι] [Storage σ]

/-- What a move does. -/
inductive Moved (settings : WriteSettings) (w : Service ι σ) : Service ι σ → Prop where
  | skip {calls : List Call} :
      Moved settings w { w with calls }
  | begin {who : ι} {requests : List WriteRequest} {priority : Priority} {calls : List Call}
      {shop : Workshop ι Delivery} (hstage : w.stage = .free)
      (hshop : w.shop.step who .reserve = some shop) :
      Moved settings w { w.withShop shop with
        calls
        stage := .sending ⟨w.pipeline.sequencer.nextTurn, priority, requests, [],
          chunksOf settings.builder.config.batchSize requests⟩ }
  | commit {who : ι} {calls : List Call} {shop : Workshop ι Delivery} (hstage : w.stage = .free)
      (hshop : w.shop.step who .reserve = some shop) :
      Moved settings w { w.withShop shop with
        calls
        pipeline := { w.pipeline with
          sequencer := shop.sequencer, nextTicket := w.pipeline.nextTicket + 1 }
        stage := .queueing
          (.commit (rootTurn w.pipeline.sequencer.nextTurn) w.pipeline.nextTicket) .highest none
        made := w.made ++ [.commit w.pipeline.sequencer.nextTurn w.pipeline.nextTicket] }
  | split {who : ι} {write : Sending} {chunk : List WriteRequest} {left : List (List WriteRequest)}
      {shop : Workshop ι Delivery} (hstage : w.stage = .sending write)
      (hleft : write.left = chunk :: left)
      (hshop : w.shop.step who (.split (rootTurn write.number)) = some shop) :
      Moved settings w { w.withShop shop with
        stage := .queueing
          (.convert chunk (w.pipeline.sequencer.split (rootTurn write.number)).2) write.priority
          (some { write with
            placed := write.placed ++
              [((w.pipeline.sequencer.split (rootTurn write.number)).2, chunk)]
            left }) }
  | accept {who : ι} {write : Sending} {shop : Workshop ι Delivery}
      (hstage : w.stage = .sending write) (hleft : write.left = [])
      (hshop : w.shop.step who (.ready (rootTurn write.number) .nothing) = some shop) :
      Moved settings w { w.withShop shop with
        stage := .free
        made := w.made ++ [.write write.number write.requests write.placed] }
  | queue {task : WriteTask} {priority : Priority} {write : Option Sending}
      (hstage : w.stage = .queueing task priority write) :
      Moved settings w (w.queue task priority write)
  | giveUp {who : ι} {number : Nat} {shop : Workshop ι Delivery}
      (hstage : w.stage = .refused number)
      (hshop : w.shop.step who (.drop (rootTurn number)) = some shop) :
      Moved settings w { w.withShop shop with stage := .free }
  | take {place : Nat} {priority : Priority} {job : Job WriteTask}
      (hentry : w.pipeline.scheduler.queue.entries[place]? = some (priority, job)) :
      Moved settings w { w with pipeline := w.pipeline.takeOut place, begun := job.task :: w.begun }
  | finish {who : ι} {place : Nat} {task : WriteTask} {shop : Workshop ι Delivery}
      (hplace : w.begun[place]? = some task)
      (hshop : w.shop.step who
        (.ready task.turn (task.result settings.builder w.pipeline.identifiers)) = some shop) :
      Moved settings w { w.withShop shop with
        pipeline := { w.pipeline with
          sequencer := shop.sequencer
          identifiers := w.pipeline.identifiers + task.identifiers
          scheduler := w.pipeline.scheduler.finishJob task.job }
        begun := w.begun.eraseIdx place }
  | shut : Moved settings w w.shut
  | drain (hclosed : w.pipeline.scheduler.closed = true) :
      Moved settings w { w with
        pipeline := { w.pipeline with scheduler := w.pipeline.scheduler.takeQueued.2 }
        doomed := w.pipeline.scheduler.takeQueued.1.map Job.task ++ w.doomed }
  | discard {who : ι} {place : Nat} {task : WriteTask} {shop : Workshop ι Delivery}
      (hplace : w.doomed[place]? = some task)
      (hshop : w.shop.step who (.drop task.turn) = some shop) :
      Moved settings w { w.withShop shop with
        pipeline := WritePipeline.notice { w.pipeline with sequencer := shop.sequencer } task
        doomed := w.doomed.eraseIdx place
        lost := task :: w.lost }
  | collect {who : ι} {shop : Workshop ι Delivery} (hshop : w.shop.step who .collect = some shop) :
      Moved settings w (w.withShop shop)
  | sink {who : ι} {turn : TurnKey} {delivery : Delivery} {shop : Workshop ι Delivery}
      (hshop : w.shop.step who .sink = some shop)
      (hsunk : shop.sunk = w.sunk ++ [(turn, delivery)]) :
      Moved settings w { w.withShop shop with
        pipeline := WritePipeline.deliver settings { w.pipeline with sequencer := shop.sequencer }
          delivery
        arrived := w.arrived ++ [⟨turn, delivery, w.pipeline.store,
          (WritePipeline.deliver settings { w.pipeline with sequencer := shop.sequencer }
            delivery).store⟩] }

variable {settings : WriteSettings}

omit [Storage σ] in
/-- What is made of a step at the turns. -/
theorem exists_of_act {action : Action Delivery} {after : Service ι σ → Service ι σ}
    (h : (w.act who action).map after = some next) :
    ∃ shop, w.shop.step who action = some shop ∧ after (w.withShop shop) = next := by
  obtain ⟨acted, hact, rfl⟩ := Option.map_eq_some_iff.mp h
  obtain ⟨shop, hshop, rfl⟩ := Option.map_eq_some_iff.mp hact
  exact ⟨shop, hshop, rfl⟩

theorem moved_of_ask (hstage : w.stage = .free) (h : w.ask settings who = some next) :
    Moved settings w next := by
  unfold ask at h
  split at h
  · rename_i requests priority calls hcalls
    by_cases hempty : requests.isEmpty = true
    · rw [if_pos hempty] at h
      cases h
      exact .skip
    · rw [if_neg hempty] at h
      obtain ⟨shop, hshop, rfl⟩ := exists_of_act h
      exact .begin hstage hshop
  · obtain ⟨shop, hshop, rfl⟩ := exists_of_act h
    exact .commit hstage hshop
  · cases h

theorem moved_of_send {write : Sending} (hstage : w.stage = .sending write)
    (h : w.send who write = some next) : Moved settings w next := by
  unfold send at h
  split at h
  · rename_i chunk left hleft
    obtain ⟨shop, hshop, rfl⟩ := exists_of_act h
    exact .split hstage hleft hshop
  · rename_i hleft
    obtain ⟨shop, hshop, rfl⟩ := exists_of_act h
    exact .accept hstage hleft hshop

theorem moved_of_goOn (h : w.goOn settings who = some next) : Moved settings w next := by
  unfold goOn at h
  split at h
  · rename_i hstage
    exact moved_of_ask hstage h
  · rename_i write hstage
    exact moved_of_send hstage h
  · rename_i task priority write hstage
    cases h
    exact .queue hstage
  · rename_i number hstage
    obtain ⟨shop, hshop, rfl⟩ := exists_of_act h
    exact .giveUp hstage hshop

/-- A step makes one of the moves. -/
theorem moved_of_step {move : Move} (h : w.step settings who move = some next) :
    Moved settings w next := by
  cases move with
  | collect =>
      obtain ⟨shop, hshop, rfl⟩ := Option.map_eq_some_iff.mp h
      exact .collect hshop
  | sink =>
      simp only [step, sink] at h
      split at h
      · rename_i acted hact
        obtain ⟨shop, hshop, rfl⟩ := Option.map_eq_some_iff.mp hact
        obtain ⟨-, -, -, entry, hsunk⟩ := Workshop.of_sink hshop
        have hlast : (w.withShop shop).sunk.getLast? = some entry := by
          show shop.sunk.getLast? = some entry
          rw [hsunk, List.getLast?_concat]
        simp only [hlast] at h
        cases h
        exact .sink hshop hsunk
      · cases h
  | call =>
      simp only [step, Option.ite_none_right_eq_some] at h
      exact moved_of_goOn h.2
  | take place =>
      simp only [step, Option.ite_none_right_eq_some, begin?, take] at h
      obtain ⟨-, h⟩ := h
      split at h
      · rename_i priority job hentry
        cases h
        exact .take hentry
      · cases h
  | finish place =>
      simp only [step, Option.ite_none_right_eq_some, begin?, finish] at h
      obtain ⟨-, h⟩ := h
      split at h
      · rename_i task hplace
        obtain ⟨shop, hshop, rfl⟩ := exists_of_act h
        exact .finish hplace hshop
      · cases h
  | shut =>
      simp only [step, Option.ite_none_right_eq_some, begin?] at h
      cases h.2
      exact .shut
  | drain =>
      simp only [step, Option.ite_none_right_eq_some, begin?, drain] at h
      obtain ⟨-, hclosed, h⟩ := h
      cases h
      exact .drain hclosed
  | discard place =>
      simp only [step, Option.ite_none_right_eq_some, begin?, discard] at h
      obtain ⟨-, h⟩ := h
      split at h
      · rename_i task hplace
        obtain ⟨shop, hshop, rfl⟩ := exists_of_act h
        exact .discard hplace hshop
      · cases h

/-- What every move keeps is kept by a run. -/
theorem run_keeps {kept : Service ι σ → Prop}
    (hmoved : ∀ {w next : Service ι σ}, kept w → Moved settings w next → kept next)
    {moves : List (ι × Move)} : ∀ {w last : Service ι σ}, kept w →
      w.run settings moves = some last → kept last := by
  induction moves with
  | nil =>
      intro w last h hrun
      obtain rfl := Option.some.inj hrun
      exact h
  | cons move rest ih =>
      intro w last h hrun
      rw [run] at hrun
      split at hrun
      · rename_i next hstep
        exact ih (hmoved h (moved_of_step hstep)) hrun
      · cases hrun

end Service

end DocIndex
