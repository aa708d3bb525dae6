/-
Several threads at one scheduler.

The functions of a scheduler take its locks one after the other and for a short time each: to queue
a job is to charge it under the lock of the count, to put it into the queue under the lock of the
queue, and, if the queue refuses it, to discharge it again.  A crew is a scheduler together with
what its threads are in the middle of, and each of these short times is one step of one thread, so
that a run is any interleaving.  Done without interruption, the steps of an operation are the
function of the scheduler (`enqueue_alone`, `takeQueued_alone`, `close_alone`).

A job that runs may use the scheduler itself, as may a source that is asked for jobs; so the
operations of a thread stand on a stack, and it is the innermost one that goes on.  Whoever asks the
sources holds the lock of the count and that of the sources meanwhile.  The lock of the count can be
taken again by the thread that has it, since sources are asked so that they queue jobs; that of the
sources cannot.

The history tells where the jobs went.  A worker looks at two flags before it takes a job, whether
the scheduler is closed and whether it is paused, and both may change before it does: so a job may
be taken in any state.
-/
import Mathlib.Logic.Function.Basic
import DocIndex.Work.Scheduler

namespace DocIndex.Work

/-- How a job ends that was run. -/
inductive JobEnd where
  | succeeded
  | failed
  | panicked
deriving DecidableEq

/-- How far a thread is that closes the scheduler. -/
inductive Closing where
  | flagged
  | shut
  | cleared
deriving DecidableEq

/-- What a thread is in the middle of. -/
inductive Frame (τ ς : Type) where
  /-- The job was charged and is about to be queued. -/
  | charged (job : Job τ) (priority : Priority)
  /-- The queue refused the job, which is still to be discharged. -/
  | refused (job : Job τ)
  | running (job : Job τ)
  /-- The job was run and is still to be discharged. -/
  | ended (job : Job τ)
  /-- Jobs were taken off the queue, and these of them are still to be discharged. -/
  | releasing (jobs : List (Job τ))
  | closing (stage : Closing)
  /-- Sources are asked: those that were not asked yet, and those that stay. -/
  | asking (left kept : List ς)
  /-- The source was asked, and adds jobs. -/
  | adding (source : ς)

/-- What a thread does in one step. -/
inductive Move (τ ς : Type) where
  | enqueue (job : Job τ) (priority : Priority)
  | addSource (source : ς)
  | checkCapacity
  /-- Takes the next job, as a worker does. -/
  | take
  | takeQueued
  | close
  /-- The job that is run ends. -/
  | finish (how : JobEnd)
  /-- The source that is asked has added its jobs; it stays if it has more. -/
  | answer (kept? : Option ς)
  /-- The operation goes on that the thread is in the middle of. -/
  | advance

/-- A scheduler, the threads that use it, and what happened to the jobs. -/
structure Crew (ι τ ς : Type) where
  scheduler : Scheduler τ ς
  /-- What each thread is in the middle of, the innermost first. -/
  stack : ι → List (Frame τ ς)
  /-- Who asks the sources. -/
  asker : Option ι
  accepted : List (Job τ)
  refused : List (Job τ)
  /-- The jobs that were run to their end. -/
  ran : List (Job τ × JobEnd)
  handedOut : List (Job τ)
  dropped : List (Job τ)

namespace Crew

variable {ι τ ς : Type}

/-- A scheduler that nobody has used. -/
def start (ceiling : Nat) : Crew ι τ ς := ⟨.idle ceiling, fun _ => [], none, [], [], [], [], []⟩

/-- The cost of the work that is under way, as it is counted. -/
def inFlight (w : Crew ι τ ς) : Nat := w.scheduler.capacity.inFlight

/-- The queued jobs. -/
def queued (w : Crew ι τ ς) : List (Job τ) := w.scheduler.queue.items

section Steps

variable [DecidableEq ι]

/-- Whether a thread can begin an operation: it is in none, or in one that runs other code. -/
def canBegin (w : Crew ι τ ς) (who : ι) : Bool :=
  match w.stack who with
  | [] | .running _ :: _ | .adding _ :: _ => true
  | _ => false

/-- Whether a thread can have the lock of the count. -/
def canCount (w : Crew ι τ ς) (who : ι) : Bool := w.asker = none ∨ w.asker = some who

/-- A thread with other things to do. -/
def put (w : Crew ι τ ς) (who : ι) (frames : List (Frame τ ς)) : Crew ι τ ς :=
  { w with stack := Function.update w.stack who frames }

/-- A thread with one more thing to do first. -/
def push (w : Crew ι τ ς) (who : ι) (frame : Frame τ ς) : Crew ι τ ς :=
  w.put who (frame :: w.stack who)

/-- Takes a job off the count, if the thread can have its lock. -/
def release (w : Crew ι τ ς) (who : ι) (job : Job τ) (frames : List (Frame τ ς)) :
    Option (Crew ι τ ς) :=
  if w.canCount who then some { w.put who frames with scheduler := w.scheduler.finishJob job }
  else none

/-- The next step of the operation that a thread is in the middle of. -/
def advance (w : Crew ι τ ς) (who : ι) : Option (Crew ι τ ς) :=
  match w.stack who with
  | .charged job priority :: below =>
    match w.scheduler.queue.enqueue? job priority with
    | some queue =>
      some { w.put who below with
        scheduler := { w.scheduler with queue }
        accepted := w.accepted ++ [job] }
    | none =>
      some { w.put who (.refused job :: below) with refused := w.refused ++ [job] }
  | .refused job :: below => w.release who job below
  | .ended job :: below => w.release who job below
  | .releasing (job :: jobs) :: below => w.release who job (.releasing jobs :: below)
  | .releasing [] :: below => some (w.put who below)
  | .closing .flagged :: below =>
    some { w.put who (.closing .shut :: below) with
      scheduler := { w.scheduler with queue := w.scheduler.queue.close } }
  | .closing .shut :: below =>
    if w.asker = none then
      some { w.put who (.closing .cleared :: below) with
        scheduler := { w.scheduler with sources := [] } }
    else none
  | .closing .cleared :: below =>
    let (jobs, queue) := w.scheduler.queue.drain
    some { w.put who (.releasing jobs :: below) with
      scheduler := { w.scheduler with queue }
      dropped := w.dropped ++ jobs }
  | .asking (source :: left) kept :: below =>
    some (w.put who (.adding source :: .asking left kept :: below))
  | .asking [] kept :: below =>
    some { w.put who below with
      scheduler := { w.scheduler with sources := kept }
      asker := none }
  | _ => none

/-- A step of a thread, if it can make it. -/
def step (w : Crew ι τ ς) (who : ι) : Move τ ς → Option (Crew ι τ ς)
  | .enqueue job priority =>
    if w.canBegin who && w.canCount who then
      some { w.push who (.charged job priority) with
        scheduler := { w.scheduler with capacity := w.scheduler.capacity.charge job.cost } }
    else none
  | .addSource source =>
    if w.canBegin who && w.asker.isNone then
      some { w with scheduler := w.scheduler.addSource source }
    else none
  | .checkCapacity =>
    if w.canBegin who && w.asker.isNone then
      if w.scheduler.capacity.hasRoom then
        some { w.push who (.asking w.scheduler.sources []) with asker := some who }
      else some w
    else none
  | .take =>
    if (w.stack who).isEmpty then
      match w.scheduler.takeJob with
      | (.item job, scheduler) => some { w.push who (.running job) with scheduler }
      | (_, scheduler) => some { w with scheduler }
    else none
  | .takeQueued =>
    if w.canBegin who then
      let (jobs, queue) := w.scheduler.queue.drain
      some { w.push who (.releasing jobs) with
        scheduler := { w.scheduler with queue }
        handedOut := w.handedOut ++ jobs }
    else none
  | .close =>
    if w.canBegin who then
      some { w.push who (.closing .flagged) with scheduler := { w.scheduler with closed := true } }
    else none
  | .finish how =>
    match w.stack who with
    | .running job :: below =>
      some { w.put who (.ended job :: below) with ran := w.ran ++ [(job, how)] }
    | _ => none
  | .answer kept? =>
    match w.stack who with
    | .adding _ :: .asking left kept :: below =>
      some (w.put who (.asking left (kept ++ kept?.toList) :: below))
    | _ => none
  | .advance => w.advance who

/-- The steps of threads one after the other, if all of them can be made. -/
def run (w : Crew ι τ ς) : List (ι × Move τ ς) → Option (Crew ι τ ς)
  | [] => some w
  | (who, move) :: rest =>
    match w.step who move with
    | some next => run next rest
    | none => none

end Steps

/-! ### Operations without interruption -/

variable [DecidableEq ι] {w : Crew ι τ ς} {who : ι} {below : List (Frame τ ς)}

@[simp] theorem put_stack (w : Crew ι τ ς) (who : ι) (frames : List (Frame τ ς)) :
    (w.put who frames).stack who = frames :=
  Function.update_self _ _ _

theorem put_put (w : Crew ι τ ς) (who : ι) (first second : List (Frame τ ς)) :
    (w.put who first).put who second = w.put who second := by
  rw [put, put, put, Function.update_idem]

theorem run_cons {move : Move τ ς} {next : Crew ι τ ς} (h : w.step who move = some next)
    (rest : List (ι × Move τ ς)) : w.run ((who, move) :: rest) = next.run rest := by
  simp only [run, h]

/-- A thread begins an operation and goes on with it for so many steps, with nobody between. -/
def alone (w : Crew ι τ ς) (who : ι) (move : Move τ ς) (steps : Nat) : Option (Crew ι τ ς) :=
  w.run ((who, move) :: List.replicate steps (who, .advance))

theorem release_eq (hcount : w.canCount who = true) (job : Job τ) (frames : List (Frame τ ς)) :
    w.release who job frames
      = some { w.put who frames with scheduler := w.scheduler.finishJob job } := by
  rw [release, if_pos hcount]

/-- Jobs that were taken off the queue are taken off the count one after the other. -/
theorem run_releasing {jobs : List (Job τ)} (hstack : w.stack who = .releasing jobs :: below)
    (hcount : w.canCount who = true) :
    w.run (List.replicate (jobs.length + 1) (who, .advance)) = some { w.put who below with
      scheduler := { w.scheduler with
        capacity := Scheduler.dischargeAll w.scheduler.capacity jobs } } := by
  induction jobs generalizing w with
  | nil =>
    have hstep : w.step who .advance = some (w.put who below) := by
      simp only [step, advance, hstack]
    exact run_cons hstep []
  | cons job jobs ih =>
    let next : Crew ι τ ς :=
      { w.put who (.releasing jobs :: below) with scheduler := w.scheduler.finishJob job }
    have hstep : w.step who .advance = some next := by
      simp only [step, advance, hstack, release_eq hcount]
      rfl
    have hnext : next.stack who = .releasing jobs :: below := put_stack w who _
    have hput : Function.update next.stack who below = Function.update w.stack who below :=
      Function.update_idem _ _ _
    have hrest := ih hnext hcount
    rw [put, hput] at hrest
    rw [List.length_cons, List.replicate_succ, run_cons hstep, hrest]
    rfl

/-- The crew in which a thread has charged a job. -/
def charge (w : Crew ι τ ς) (who : ι) (job : Job τ) (priority : Priority) : Crew ι τ ς :=
  { w.push who (.charged job priority) with
    scheduler := { w.scheduler with capacity := w.scheduler.capacity.charge job.cost } }

theorem step_enqueue (job : Job τ) (priority : Priority) (hbegin : w.canBegin who = true)
    (hcount : w.canCount who = true) :
    w.step who (.enqueue job priority) = some (w.charge who job priority) := by
  simp only [step, hbegin, hcount, Bool.and_self, if_true]
  rfl

/-- To queue a job without interruption is what the scheduler does. -/
theorem enqueue_alone {job : Job τ} {priority : Priority} {s : Scheduler τ ς}
    (hqueue : w.scheduler.enqueue job priority = (.ok (), s)) (hbegin : w.canBegin who = true)
    (hcount : w.canCount who = true) :
    w.alone who (.enqueue job priority) 1
      = some { w with scheduler := s, accepted := w.accepted ++ [job] } := by
  have hstack : (w.charge who job priority).stack who = .charged job priority :: w.stack who :=
    put_stack w who _
  rw [Scheduler.enqueue] at hqueue
  split at hqueue
  case h_2 => cases hqueue
  case h_1 queue hplaced =>
    cases hqueue
    have hplaced' : (w.charge who job priority).scheduler.queue.enqueue? job priority
        = some queue := hplaced
    rw [alone, run_cons (step_enqueue job priority hbegin hcount)]
    simp only [List.replicate, run, step, advance, hstack, hplaced', put]
    simp only [charge, push, put, Function.update_idem, Function.update_eq_self]

/-- So it is if the job is refused. -/
theorem enqueue_alone_refused {job : Job τ} {priority : Priority} {e : Error} {s : Scheduler τ ς}
    (hqueue : w.scheduler.enqueue job priority = (.error e, s)) (hbegin : w.canBegin who = true)
    (hcount : w.canCount who = true) :
    w.alone who (.enqueue job priority) 2
      = some { w with scheduler := s, refused := w.refused ++ [job] } := by
  have hstack : (w.charge who job priority).stack who = .charged job priority :: w.stack who :=
    put_stack w who _
  rw [Scheduler.enqueue] at hqueue
  split at hqueue
  case h_1 => cases hqueue
  case h_2 hplaced =>
    cases hqueue
    let refused : Crew ι τ ς :=
      { (w.charge who job priority).put who (.refused job :: w.stack who) with
        refused := w.refused ++ [job] }
    have hplaced' : (w.charge who job priority).scheduler.queue.enqueue? job priority = none :=
      hplaced
    have hrefused : (w.charge who job priority).step who .advance = some refused := by
      simp only [step, advance, hstack, hplaced']
      rfl
    have htop : refused.stack who = .refused job :: w.stack who := put_stack _ who _
    have hcount' : refused.canCount who = true := hcount
    rw [alone, run_cons (step_enqueue job priority hbegin hcount), List.replicate_succ,
      run_cons hrefused]
    simp only [List.replicate, run, step, advance, htop, release_eq hcount', put]
    simp only [refused, charge, push, put, Function.update_idem, Function.update_eq_self]
    rfl

/-- To take all queued jobs without interruption is what the scheduler does. -/
theorem takeQueued_alone (hbegin : w.canBegin who = true) (hcount : w.canCount who = true) :
    w.alone who .takeQueued (w.queued.length + 1) = some { w with
      scheduler := w.scheduler.takeQueued.2
      handedOut := w.handedOut ++ w.scheduler.takeQueued.1 } := by
  let drained : Crew ι τ ς :=
    { w.push who (.releasing w.queued) with
      scheduler := { w.scheduler with queue := w.scheduler.queue.drain.2 }
      handedOut := w.handedOut ++ w.queued }
  have hbegun : w.step who .takeQueued = some drained := by
    simp only [step, hbegin, if_true]
    rfl
  have hstack : drained.stack who = .releasing w.queued :: w.stack who := put_stack w who _
  have hreleased := run_releasing hstack hcount
  rw [alone, run_cons hbegun, hreleased]
  simp only [drained, push, put, Function.update_idem, Function.update_eq_self]
  rfl

/-- To close the scheduler without interruption is what the scheduler does. -/
theorem close_alone (hbegin : w.canBegin who = true) (hasker : w.asker = none) :
    w.alone who .close (w.queued.length + 4) = some { w with
      scheduler := w.scheduler.close.2
      dropped := w.dropped ++ w.scheduler.close.1 } := by
  let flagged : Crew ι τ ς :=
    { w.push who (.closing .flagged) with scheduler := { w.scheduler with closed := true } }
  let shut : Crew ι τ ς :=
    { flagged.put who (.closing .shut :: w.stack who) with
      scheduler := { flagged.scheduler with queue := w.scheduler.queue.close } }
  let cleared : Crew ι τ ς :=
    { shut.put who (.closing .cleared :: w.stack who) with
      scheduler := { shut.scheduler with sources := [] } }
  let drained : Crew ι τ ς :=
    { cleared.put who (.releasing w.queued :: w.stack who) with
      scheduler := { cleared.scheduler with queue := w.scheduler.queue.close.drain.2 }
      dropped := w.dropped ++ w.queued }
  have hflagged : w.step who .close = some flagged := by
    simp only [step, hbegin, if_true]
    rfl
  have hshut : flagged.step who .advance = some shut := by
    have hstack : flagged.stack who = .closing .flagged :: w.stack who := put_stack w who _
    simp only [step, advance, hstack]
    rfl
  have hcleared : shut.step who .advance = some cleared := by
    have hstack : shut.stack who = .closing .shut :: w.stack who := put_stack flagged who _
    have hnone : shut.asker = none := hasker
    simp only [step, advance, hstack, hnone, if_true]
    rfl
  have hdrained : cleared.step who .advance = some drained := by
    have hstack : cleared.stack who = .closing .cleared :: w.stack who := put_stack shut who _
    simp only [step, advance, hstack]
    rfl
  have hstack : drained.stack who = .releasing w.queued :: w.stack who := put_stack cleared who _
  have hcount : drained.canCount who = true := by
    have hnone : drained.asker = none := hasker
    simp [canCount, hnone]
  have hreleased := run_releasing hstack hcount
  rw [alone, run_cons hflagged]
  show flagged.run ((who, .advance) :: (who, .advance) :: (who, .advance) ::
    List.replicate (w.queued.length + 1) (who, .advance)) = _
  rw [run_cons hshut, run_cons hcleared, run_cons hdrained, hreleased]
  simp only [drained, cleared, shut, flagged, push, put, Function.update_idem,
    Function.update_eq_self]
  rfl

end Crew

end DocIndex.Work
