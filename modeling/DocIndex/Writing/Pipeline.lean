/-
The way of requests to the store.

Every write reserves a turn and splits a part off it for each chunk of its requests; the
chunks are converted by jobs, in whatever order these are run, and arrive at the store in the
order of their turns.  A commit is a turn of its own: its job only says that it was asked
for, and it is made once everything before it has arrived.

A job that is refused or dropped abandons its turn.  Turns that wait behind it then wait no
longer.
-/
import DocIndex.Work.Scheduler
import DocIndex.Work.Sequencer
import DocIndex.Writing.Store

namespace DocIndex

open Work

/-- What requests are converted and committed with. -/
structure WriteSettings where
  builder : DocumentBuilder
  /-- The analyzers of the index. -/
  analyzers : Analyzers
  /-- The time that commits are dated with. -/
  now : Moment

/-- The work of a job. -/
inductive WriteTask where
  /-- Converts requests for a turn. -/
  | convert (requests : List WriteRequest) (turn : TurnKey)
  /-- Asks at a turn for a commit, to be answered under a number. -/
  | commit (turn : TurnKey) (ticket : Nat)

namespace WriteTask

/-- The turn that ends with the task. -/
def turn : WriteTask → TurnKey
  | convert _ turn => turn
  | commit turn _ => turn

/-- The job that a task is done by. -/
def job (task : WriteTask) : Job WriteTask :=
  match task with
  | convert _ _ => ⟨"convert", 1, task⟩
  | commit _ _ => ⟨"commit", 1, task⟩

/-- What a task delivers. -/
def result (builder : DocumentBuilder) (next : IdentifierSupply) : WriteTask → Delivery
  | convert requests _ =>
    match builder.convert next requests with
    | .ok edits => .edits edits
    | .error e => .failed e
  | commit _ ticket => .commit ticket

/-- How many identifiers a task may take. -/
def identifiers : WriteTask → Nat
  | convert requests _ => requests.length
  | commit _ _ => 0

end WriteTask

/-- Documents that are taken in as there is room for them. -/
structure Ingest where
  source : BatchSource Json
  /-- The number that the end is answered under. -/
  ticket : Nat

/-- Requests on their way, and the store that they arrive at. -/
structure WritePipeline (σ : Type) where
  scheduler : Scheduler WriteTask Ingest
  sequencer : Sequencer Delivery
  store : DocumentStore
  directory : σ
  identifiers : IdentifierSupply
  nextTicket : Nat
  /-- What commits and ingests were answered, by their numbers. -/
  answers : Table Nat (Except Error Nat)

/-- A list in pieces of a given size, the last of which may be shorter; size 0 counts as 1. -/
def chunksOf {α : Type} (size : Nat) : List α → List (List α)
  | [] => []
  | x :: rest => (x :: rest.take (size - 1)) :: chunksOf size (rest.drop (size - 1))
termination_by xs => xs.length
decreasing_by
  simp only [List.length_drop, List.length_cons]
  omega

namespace WritePipeline

variable {σ : Type} [Storage σ]

/-- The pipeline of a store, with nothing on its way. -/
def ofStore (capacityCeiling : Nat) (store : DocumentStore) (directory : σ)
    (identifiers : IdentifierSupply) : WritePipeline σ :=
  ⟨.idle capacityCeiling, .empty, store, directory, identifiers, 0, []⟩

variable (settings : WriteSettings) (p : WritePipeline σ)

/-! ### Arriving -/

/-- Notes an answer. -/
def answer (ticket : Nat) (result : Except Error Nat) : WritePipeline σ :=
  { p with answers := Table.insert p.answers ticket result }

/-- Hands the store what arrives at it. -/
def deliver : Delivery → WritePipeline σ
  | .edits edits => { p with store := p.store.takeEdits settings.analyzers edits }
  | .failed e => { p with store := p.store.hold e }
  | .commit ticket =>
    let segment := Identifier.ofNat p.identifiers
    let (result, store, directory) := p.store.answerCommit segment settings.now p.directory
    { p with store, directory, identifiers := p.identifiers + 1 }.answer ticket result
  | .nothing => p

/-- Ends a turn; all that waited only for it arrives. -/
def finishTurn (turn : TurnKey) (outcome : Turn Delivery) : WritePipeline σ :=
  let (arrived, sequencer) := p.sequencer.finish turn outcome
  arrived.foldl (deliver settings) { p with sequencer }

/-! ### Asking -/

/-- Gives a task up. -/
def abandon (task : WriteTask) : WritePipeline σ :=
  match task with
  | .convert _ turn => p.finishTurn settings turn .abandoned
  | .commit turn ticket =>
    (p.answer ticket (.error .commitAbandoned)).finishTurn settings turn .abandoned

/-- Queues a task; one that is refused is given up. -/
def enqueue (task : WriteTask) (priority : Priority) : Except Error Unit × WritePipeline σ :=
  let (verdict, scheduler) := p.scheduler.enqueue task.job priority
  let p := { p with scheduler }
  match verdict with
  | .ok _ => (.ok (), p)
  | .error e => (.error e, p.abandon settings task)

/-- Queues chunks of requests, each at its part of a turn, up to the first that is refused. -/
def submitChunks (root : TurnKey) (priority : Priority) (p : WritePipeline σ) :
    List (List WriteRequest) → Except Error Unit × WritePipeline σ
  | [] => (.ok (), p)
  | chunk :: rest =>
    let (sequencer, turn) := p.sequencer.split root
    match enqueue settings { p with sequencer } (.convert chunk turn) priority with
    | (.ok _, p) => submitChunks root priority p rest
    | (.error e, p) => (.error e, p)

/-- Sends requests on their way. -/
def submit (requests : List WriteRequest) (priority : Priority) :
    Except Error Unit × WritePipeline σ :=
  if requests.isEmpty then (.ok (), p)
  else
    let (sequencer, root) := p.sequencer.reserve
    let chunks := chunksOf settings.builder.config.batchSize requests
    match submitChunks settings root priority { p with sequencer } chunks with
    | (.ok _, p) => (.ok (), p.finishTurn settings root (.ready .nothing))
    | (.error e, p) => (.error e, p.finishTurn settings root .abandoned)

/-- Asks for a commit of all that was submitted; gives the number of the answer. -/
def commit : Except Error Nat × WritePipeline σ :=
  let (sequencer, turn) := p.sequencer.reserve
  let ticket := p.nextTicket
  let p := { p with sequencer, nextTicket := ticket + 1 }
  match p.enqueue settings (.commit turn ticket) .highest with
  | (.ok _, p) => (.ok ticket, p)
  | (.error e, p) => (.error e, p)

/-- Takes documents in as there is room for them; gives the number of the answer. -/
def ingest (documents : List Json) : Nat × WritePipeline σ :=
  let source := BatchSource.ofItems documents settings.builder.config.batchSize
  let ticket := p.nextTicket
  let scheduler := p.scheduler.addSource ⟨source, ticket⟩
  (ticket, { p with scheduler, nextTicket := ticket + 1 })

/-! ### Working -/

/-- Does a task. -/
def perform (task : WriteTask) : WritePipeline σ :=
  let value := task.result settings.builder p.identifiers
  let p := { p with identifiers := p.identifiers + task.identifiers }
  p.finishTurn settings task.turn (.ready value)

/-- Takes the next batch of an ingest in; the ingest is kept unless it has ended. -/
def pullIngest (ingest : Ingest) (p : WritePipeline σ) : Option Ingest × WritePipeline σ :=
  let submit := fun (batch : List Json) (p : WritePipeline σ) =>
    p.submit settings (batch.map WriteRequest.create) .medium
  let (source, p) := ingest.source.pull submit p
  match source.result with
  | none => (some { ingest with source }, p)
  | some result => (none, p.answer ingest.ticket result)

/-- Takes a batch of every ingest in if there is room. -/
def checkCapacity : WritePipeline σ :=
  if p.scheduler.capacity.hasRoom then
    let (sources, p) := pullAll (pullIngest settings) p.scheduler.sources p
    { p with scheduler := { p.scheduler with sources } }
  else p

/-- Runs the next job, if there is one. -/
def runNext : Option (WritePipeline σ) :=
  match p.scheduler.takeJob with
  | (.item job, scheduler) =>
    let done := perform settings { p with scheduler } job.task
    some { done with scheduler := done.scheduler.finishJob job }
  | _ => none

/-- At most so many rounds of a worker, each of which takes batches in and runs a job. -/
def work (rounds : Nat) (p : WritePipeline σ) : WritePipeline σ :=
  match rounds with
  | 0 => p
  | rounds + 1 =>
    let fed := p.checkCapacity settings
    match fed.runNext settings with
    | some p => work rounds p
    | none => fed

/-- How many documents of ingests are still to be taken in. -/
def documentsLeft : Nat := p.scheduler.sources.foldl (fun n i => n + i.source.items.length) 0

/-- No more rounds than this have a job to run: a job each, and a job for each document. -/
def roundsLeft : Nat := p.scheduler.queue.size + p.documentsLeft + 1

/-- Lets workers run until nothing is left to do, unless they are paused. -/
def settle : WritePipeline σ :=
  if p.scheduler.paused then p else p.work settings p.roundsLeft

/-- Refuses requests from now on and gives up all that is queued. -/
def close : WritePipeline σ :=
  let ended := p.scheduler.sources
  let (jobs, scheduler) := p.scheduler.close
  let p := { p with scheduler }
  let p := ended.foldl (fun p i => p.answer i.ticket (.error .sourceDropped)) p
  jobs.foldl (fun p job => p.abandon settings job.task) p

end WritePipeline

end DocIndex
