/-
Schedulers: jobs that wait to be run, and sources of more.

A job is charged when it is queued and discharged when it is done or dropped.  A closed
scheduler refuses jobs and has dropped what was queued.
-/
import DocIndex.Error
import DocIndex.Work.Capacity
import DocIndex.Work.Queue
import DocIndex.Work.Source

namespace DocIndex.Work

/-- A job with what it counts against the capacity. -/
structure Job (τ : Type) where
  name : String
  cost : Nat
  task : τ
deriving DecidableEq

/-- Jobs that are queued, and sources of jobs. -/
structure Scheduler (τ ς : Type) where
  queue : PriorityQueue (Job τ)
  capacity : Capacity
  /-- Whether workers leave the queue alone. -/
  paused : Bool
  sources : List ς
  closed : Bool

namespace Scheduler

variable {τ ς : Type}

/-- A scheduler without jobs. -/
def idle (ceiling : Nat) : Scheduler τ ς := ⟨.empty, .idle ceiling, false, [], false⟩

/-- Queues a job; a closed scheduler drops it. -/
def enqueue (s : Scheduler τ ς) (job : Job τ) (priority : Priority) :
    Except Error Unit × Scheduler τ ς :=
  let charged := s.capacity.charge job.cost
  match s.queue.enqueue? job priority with
  | some queue => (.ok (), { s with queue, capacity := charged })
  | none => (.error (.schedulerClosed job.name), { s with capacity := charged.discharge job.cost })

def addSource (s : Scheduler τ ς) (source : ς) : Scheduler τ ς :=
  { s with sources := s.sources ++ [source] }

/-- Takes the next job to run it. -/
def takeJob (s : Scheduler τ ς) : Taken (Job τ) × Scheduler τ ς :=
  let (taken, queue) := s.queue.dequeue
  (taken, { s with queue })

/-- Notes that a job is done, in whatever way it ended. -/
def finishJob (s : Scheduler τ ς) (job : Job τ) : Scheduler τ ς :=
  { s with capacity := s.capacity.discharge job.cost }

/-- The capacity after jobs were dropped. -/
def dischargeAll (capacity : Capacity) (jobs : List (Job τ)) : Capacity :=
  jobs.foldl (fun c job => c.discharge job.cost) capacity

/-- Takes all queued jobs without running them. -/
def takeQueued (s : Scheduler τ ς) : List (Job τ) × Scheduler τ ς :=
  let (jobs, queue) := s.queue.drain
  (jobs, { s with queue, capacity := dischargeAll s.capacity jobs })

/-- Refuses new jobs and drops the queued ones, which are given back. -/
def close (s : Scheduler τ ς) : List (Job τ) × Scheduler τ ς :=
  { s with closed := true, queue := s.queue.close, sources := [] }.takeQueued

def pause (s : Scheduler τ ς) : Scheduler τ ς := { s with paused := true }

def resume (s : Scheduler τ ς) : Scheduler τ ς := { s with paused := false }

/-- Asks the sources for jobs if there is room; tells whether there was. -/
def checkCapacity (pull : ς → Scheduler τ ς → Option ς × Scheduler τ ς) (s : Scheduler τ ς) :
    Bool × Scheduler τ ς :=
  if s.capacity.hasRoom then
    let (kept, s) := pullAll pull s.sources s
    (true, { s with sources := kept })
  else (false, s)

end Scheduler

end DocIndex.Work
