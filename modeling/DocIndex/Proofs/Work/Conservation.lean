/-
What a scheduler counts, whatever its threads do.

A job is on the count from when it is charged to when it is discharged, and all that time it is
either queued or the matter of one frame of one thread.  So the count is, at every moment, the cost
of the queued jobs and of those that the frames have (`Sound.count`); the frames between the two
short times of an operation are what makes this true at every moment, and not only in the end.  It
follows that a job that is discharged is still on the count, so that nothing is cut off at zero.
Where no operation is under way the only frames are those of running jobs.

The same is shown of where the accepted jobs are (`Sound.accounted`).  Each invariant is an equation
of multisets in which a step moves jobs from one place to another, and as a step changes one frame
of one thread, `framesOf_cons` is all that is needed of the sum over threads.

A closed queue stays empty once it was drained.  Before that the thread that closed it is still on
its way to drain it.
-/
import Mathlib.Algebra.BigOperators.Group.Finset.Piecewise
import Mathlib.Algebra.Order.BigOperators.Group.Multiset
import Mathlib.Data.Fintype.Basic
import Mathlib.Tactic.Abel
import DocIndex.Proofs.Work.Crew

namespace DocIndex.Work

variable {ι τ ς : Type}

/-- What some jobs cost together. -/
def totalCost (jobs : Multiset (Job τ)) : Nat := (jobs.map Job.cost).sum

@[simp] theorem totalCost_zero : totalCost (0 : Multiset (Job τ)) = 0 := rfl

@[simp] theorem totalCost_singleton (job : Job τ) : totalCost {job} = job.cost := by
  rw [totalCost, Multiset.map_singleton, Multiset.sum_singleton]

@[simp] theorem totalCost_add (first second : Multiset (Job τ)) :
    totalCost (first + second) = totalCost first + totalCost second := by
  rw [totalCost, Multiset.map_add, Multiset.sum_add]
  rfl

@[simp] theorem totalCost_cons (job : Job τ) (jobs : Multiset (Job τ)) :
    totalCost (job ::ₘ jobs) = job.cost + totalCost jobs := by
  rw [totalCost, Multiset.map_cons, Multiset.sum_cons]
  rfl

namespace Frame

/-- The jobs of a frame that are on the count. -/
def charges : Frame τ ς → Multiset (Job τ)
  | charged job _ | refused job | running job | ended job => {job}
  | releasing jobs => jobs
  | _ => 0

/-- The job that is run in a frame. -/
def runs : Frame τ ς → Multiset (Job τ)
  | running job => {job}
  | _ => 0

/-- The job that the next step of a frame takes off the count. -/
def discharges : Frame τ ς → Option (Job τ)
  | refused job | ended job | releasing (job :: _) => some job
  | _ => none

end Frame

/-! ### The frames of all threads -/

section Frames

variable [Fintype ι]

/-- The frames of all threads. -/
def framesOf (stack : ι → List (Frame τ ς)) : Multiset (Frame τ ς) :=
  ∑ who, (stack who : Multiset (Frame τ ς))

theorem mem_framesOf {stack : ι → List (Frame τ ς)} {frame : Frame τ ς} :
    frame ∈ framesOf stack ↔ ∃ who, frame ∈ stack who := by
  simp [framesOf, Multiset.mem_sum]

theorem framesOf_nil : framesOf (fun _ : ι => ([] : List (Frame τ ς))) = 0 :=
  Finset.sum_const_zero

variable [DecidableEq ι]

/-- A frame of one thread stands beside the frames of all the others. -/
theorem framesOf_cons (stack : ι → List (Frame τ ς)) (who : ι) (frame : Frame τ ς)
    (below : List (Frame τ ς)) :
    framesOf (Function.update stack who (frame :: below))
      = frame ::ₘ framesOf (Function.update stack who below) := by
  have hsum (frames : List (Frame τ ς)) :
      framesOf (Function.update stack who frames)
        = ↑frames + ∑ other ∈ Finset.univ \ {who}, (stack other : Multiset (Frame τ ς)) := by
    have hupdate : (fun other => (Function.update stack who frames other : Multiset (Frame τ ς)))
        = Function.update (fun other => (stack other : Multiset (Frame τ ς))) who frames :=
      funext fun other => Function.apply_update
        (fun _ (frames : List (Frame τ ς)) => (frames : Multiset (Frame τ ς)))
        stack who frames other
    rw [framesOf, hupdate, Finset.sum_update_of_mem (Finset.mem_univ who)]
  rw [hsum, hsum, ← Multiset.cons_coe, Multiset.cons_add]

/-- The same of a thread whose first frame is known. -/
theorem framesOf_of_stack {stack : ι → List (Frame τ ς)} {who : ι} {frame : Frame τ ς}
    {below : List (Frame τ ς)} (h : stack who = frame :: below) :
    framesOf stack = frame ::ₘ framesOf (Function.update stack who below) := by
  rw [← framesOf_cons, ← h, Function.update_eq_self]

end Frames

/-- The jobs that some frames have, each frame its own. -/
def jobsOf (jobs : Frame τ ς → Multiset (Job τ)) (frames : Multiset (Frame τ ς)) :
    Multiset (Job τ) :=
  frames.bind jobs

@[simp] theorem jobsOf_zero (jobs : Frame τ ς → Multiset (Job τ)) : jobsOf jobs 0 = 0 := rfl

@[simp] theorem jobsOf_cons (jobs : Frame τ ς → Multiset (Job τ)) (frame : Frame τ ς)
    (frames : Multiset (Frame τ ς)) :
    jobsOf jobs (frame ::ₘ frames) = jobs frame + jobsOf jobs frames :=
  Multiset.cons_bind _ _ _

/-! ### Queues as multisets -/

theorem items_enqueue? {queue next : PriorityQueue (Job τ)} {job : Job τ} {priority : Priority}
    (h : queue.enqueue? job priority = some next) :
    queue.closed = false ∧ next.closed = false ∧
      (next.items : Multiset (Job τ)) = job ::ₘ ↑queue.items := by
  rw [PriorityQueue.enqueue?, Option.ite_none_left_eq_some, Bool.not_eq_true,
    Option.some.injEq] at h
  obtain ⟨hopen, rfl⟩ := h
  refine ⟨hopen, hopen, Multiset.coe_eq_coe.mpr ?_⟩
  simp only [PriorityQueue.items, PriorityQueue.place, List.map_append, List.map_cons]
  refine List.perm_middle.trans (List.Perm.of_eq ?_)
  rw [← List.map_append, List.takeWhile_append_dropWhile]

theorem items_dequeue {queue next : PriorityQueue (Job τ)} {job : Job τ}
    (h : queue.dequeue = (.item job, next)) :
    queue.items = job :: next.items ∧ next.closed = queue.closed := by
  rw [PriorityQueue.dequeue] at h
  split at h
  case h_1 _ _ rest hentries =>
    cases h
    exact ⟨by rw [PriorityQueue.items, hentries]; rfl, rfl⟩
  case h_2 =>
    split at h <;> cases h

@[simp] theorem jobsOf_singleton (jobs : Frame τ ς → Multiset (Job τ)) (frame : Frame τ ς) :
    jobsOf jobs {frame} = jobs frame :=
  Multiset.singleton_bind _ _

@[simp] theorem jobsOf_add (jobs : Frame τ ς → Multiset (Job τ))
    (first second : Multiset (Frame τ ς)) :
    jobsOf jobs (first + second) = jobsOf jobs first + jobsOf jobs second :=
  Multiset.add_bind _ _ _

/-- A queue that gives nothing stays as it is. -/
theorem dequeue_none {queue next : PriorityQueue (Job τ)} {taken : Taken (Job τ)}
    (h : queue.dequeue = (taken, next)) (hnone : ∀ job, taken ≠ .item job) : next = queue := by
  rw [PriorityQueue.dequeue] at h
  split at h
  case h_1 =>
    cases h
    exact absurd rfl (hnone _)
  case h_2 =>
    cases h
    rfl

namespace Crew

variable [Fintype ι] {w next : Crew ι τ ς}

/-- The frames of all threads of a crew. -/
def frames (w : Crew ι τ ς) : Multiset (Frame τ ς) := framesOf w.stack

/-- The jobs that were run to their end, handed out or dropped. -/
def gone (w : Crew ι τ ς) : Multiset (Job τ) :=
  ↑(w.ran.map Prod.fst) + ↑w.handedOut + ↑w.dropped

/-- Some thread has closed the queue and is still to drain it. -/
def Draining (w : Crew ι τ ς) : Prop :=
  .closing .shut ∈ w.frames ∨ .closing .cleared ∈ w.frames

/-- What holds after every step. -/
structure Sound (w : Crew ι τ ς) : Prop where
  /-- What is on the count is queued or in a frame. -/
  count : w.inFlight = totalCost ((w.queued : Multiset (Job τ)) + jobsOf Frame.charges w.frames)
  /-- No accepted job is lost and none is made up. -/
  accounted : (w.accepted : Multiset (Job τ))
    = ↑w.queued + jobsOf Frame.runs w.frames + w.gone
  /-- Whoever closed the queue is still to drain it, or it is empty. -/
  drained : w.scheduler.queue.closed = true → w.queued = [] ∨ w.Draining
  /-- Whoever closed the scheduler is still to close the queue, or it is closed. -/
  shut : w.scheduler.closed = true → w.scheduler.queue.closed = true ∨ .closing .flagged ∈ w.frames

namespace Sound

theorem start (ceiling : Nat) : (Crew.start ceiling : Crew ι τ ς).Sound where
  count := by
    have hframes : (Crew.start ceiling : Crew ι τ ς).frames = 0 := framesOf_nil
    rw [hframes]
    rfl
  accounted := by
    have hframes : (Crew.start ceiling : Crew ι τ ς).frames = 0 := framesOf_nil
    rw [hframes]
    rfl
  drained h := by cases h
  shut h := by cases h

/-- A job in a frame is still on the count. -/
theorem cost_le (h : w.Sound) {frame : Frame τ ς} {rest : Multiset (Frame τ ς)} {job : Job τ}
    (hframes : w.frames = frame ::ₘ rest) (hjob : frame.discharges = some job) :
    job.cost ≤ w.inFlight := by
  rw [h.count, hframes]
  cases frame with
  | refused other | ended other =>
    cases hjob
    simp only [jobsOf_cons, Frame.charges, totalCost_add, totalCost_singleton]
    omega
  | releasing jobs =>
    cases jobs with
    | nil => cases hjob
    | cons other jobs =>
      cases hjob
      simp only [jobsOf_cons, Frame.charges, totalCost_add, ← Multiset.cons_coe, totalCost_cons]
      omega
  | _ => cases hjob

/-- Who asks which sources, and what was refused, is of no account. -/
theorem untouched (h : w.Sound) (sources : List ς) (asker : Option ι) (refused : List (Job τ)) :
    ({ w with scheduler := { w.scheduler with sources }, asker, refused } : Crew ι τ ς).Sound :=
  ⟨h.count, h.accounted, h.drained, h.shut⟩

/-! ### One frame for another -/

variable {old new rest : Multiset (Frame τ ς)}

/--
A step that puts some frames in the place of others keeps the invariant, if it keeps the two sums of
what it touches: what it takes off the queue and off the frames it puts on the count, on frames or
into the history.
-/
theorem exchange (h : w.Sound) (hold : w.frames = old + rest) (hnew : next.frames = new + rest)
    (hcount : next.inFlight + totalCost ((w.queued : Multiset (Job τ)) + jobsOf Frame.charges old)
      = w.inFlight + totalCost ((next.queued : Multiset (Job τ)) + jobsOf Frame.charges new))
    (haccounted : (next.accepted : Multiset (Job τ)) + (↑w.queued + jobsOf Frame.runs old + w.gone)
      = ↑w.accepted + (↑next.queued + jobsOf Frame.runs new + next.gone))
    (hdrained : next.scheduler.queue.closed = true → next.queued = [] ∨ next.Draining)
    (hshut : next.scheduler.closed = true →
      next.scheduler.queue.closed = true ∨ .closing .flagged ∈ next.frames) : next.Sound where
  count := by
    have hbefore := h.count
    rw [hold] at hbefore
    rw [hnew]
    simp only [jobsOf_add, totalCost_add] at hbefore hcount ⊢
    omega
  accounted := by
    have hbefore := h.accounted
    rw [hold, jobsOf_add] at hbefore
    rw [hnew, jobsOf_add]
    rw [hbefore] at haccounted
    refine add_right_cancel (b := ↑w.queued + jobsOf Frame.runs old + w.gone) ?_
    rw [haccounted]
    abel
  drained := hdrained
  shut := hshut

/-- What drains the queue still does after a step that leaves its frame. -/
theorem draining_exchange (hold : w.frames = old + rest) (hnew : next.frames = new + rest)
    (hshut : .closing .shut ∉ old) (hcleared : .closing .cleared ∉ old) (h : w.Draining) :
    next.Draining := by
  rw [Draining, hold, Multiset.mem_add, Multiset.mem_add] at h
  rw [Draining, hnew, Multiset.mem_add, Multiset.mem_add]
  exact h.imp (fun hmem => .inr (hmem.resolve_left hshut))
    fun hmem => .inr (hmem.resolve_left hcleared)

/-- So does what closes the queue. -/
theorem flagged_exchange (hold : w.frames = old + rest) (hnew : next.frames = new + rest)
    (hflagged : .closing .flagged ∉ old) (h : .closing .flagged ∈ w.frames) :
    .closing .flagged ∈ next.frames := by
  rw [hold, Multiset.mem_add] at h
  rw [hnew, Multiset.mem_add]
  exact .inr (h.resolve_left hflagged)

/-- A step that leaves the queue and the flag as they are, and the frames of whoever closes. -/
theorem exchange_open (h : w.Sound) (hold : w.frames = old + rest)
    (hnew : next.frames = new + rest) (hclosing : ∀ stage, .closing stage ∉ old)
    (hqueue : next.scheduler.queue = w.scheduler.queue)
    (hclosed : next.scheduler.closed = w.scheduler.closed)
    (hcount : next.inFlight + totalCost (jobsOf Frame.charges old)
      = w.inFlight + totalCost (jobsOf Frame.charges new))
    (haccounted : (next.accepted : Multiset (Job τ)) + (jobsOf Frame.runs old + w.gone)
      = ↑w.accepted + (jobsOf Frame.runs new + next.gone)) : next.Sound := by
  have hqueued : next.queued = w.queued := congrArg PriorityQueue.items hqueue
  refine h.exchange hold hnew ?_ ?_ (fun hshut => ?_) fun hflag => ?_
  · rw [hqueued, totalCost_add, totalCost_add]
    omega
  · rw [hqueued]
    calc _ = ↑w.queued
          + ((next.accepted : Multiset (Job τ)) + (jobsOf Frame.runs old + w.gone)) := by
          abel
      _ = ↑w.queued + ((w.accepted : Multiset (Job τ)) + (jobsOf Frame.runs new + next.gone)) := by
          rw [haccounted]
      _ = _ := by abel
  · rw [hqueue] at hshut
    rw [hqueued]
    exact (h.drained hshut).imp_right (draining_exchange hold hnew (hclosing _) (hclosing _))
  · rw [hclosed] at hflag
    rw [hqueue]
    exact (h.shut hflag).imp_right (flagged_exchange hold hnew (hclosing _))

/-- A job that is taken off the count was on it with all that it costs. -/
theorem discharge (h : w.Sound) {stack : ι → List (Frame τ ς)} {frame : Frame τ ς} {job : Job τ}
    (hold : w.frames = {frame} + rest) (hnew : framesOf stack = new + rest)
    (hjob : frame.discharges = some job)
    (hcharges : frame.charges = job ::ₘ jobsOf Frame.charges new)
    (hruns : jobsOf Frame.runs new = 0) :
    ({ w with scheduler := w.scheduler.finishJob job, stack } : Crew ι τ ς).Sound ∧
      (w.scheduler.finishJob job).capacity.inFlight + job.cost = w.inFlight := by
  have hle : job.cost ≤ w.inFlight := h.cost_le hold hjob
  have hexact : (w.scheduler.finishJob job).capacity.inFlight + job.cost = w.inFlight :=
    Nat.sub_add_cancel hle
  have hclosing : ∀ stage, .closing stage ∉ ({frame} : Multiset (Frame τ ς)) := by
    intro stage hmem
    rw [← Multiset.mem_singleton.mp hmem] at hjob
    cases hjob
  have hidle : frame.runs = 0 := by
    cases frame with
    | running other => cases hjob
    | _ => rfl
  refine ⟨h.exchange_open hold hnew hclosing rfl rfl ?_ ?_, hexact⟩
  · rw [jobsOf_singleton, hcharges, totalCost_cons]
    show (w.scheduler.finishJob job).capacity.inFlight + _ = _
    omega
  · rw [jobsOf_singleton, hruns, hidle]
    rfl

/-- Whoever takes all jobs off the queue has them to discharge, and has put them somewhere. -/
theorem drain (h : w.Sound) {stack : ι → List (Frame τ ς)} {handedOut dropped : List (Job τ)}
    (hold : w.frames = old + rest) (hnew : framesOf stack = {.releasing w.queued} + rest)
    (hcharges : jobsOf Frame.charges old = 0) (hruns : jobsOf Frame.runs old = 0)
    (hflagged : .closing .flagged ∉ old)
    (hmoved : (handedOut : Multiset (Job τ)) + ↑dropped
      = ↑w.queued + ↑w.handedOut + ↑w.dropped) :
    ({ w with
      scheduler := { w.scheduler with queue := w.scheduler.queue.drain.2 }
      stack
      handedOut
      dropped } : Crew ι τ ς).Sound := by
  refine h.exchange hold hnew ?_ ?_ (fun _ => .inl rfl) fun hflag => ?_
  · show w.inFlight + _ = w.inFlight + totalCost ((([] : List (Job τ)) : Multiset (Job τ)) + _)
    rw [hcharges, jobsOf_singleton, add_zero]
    rfl
  · have hgone : (w.ran.map Prod.fst : Multiset (Job τ)) + (handedOut : Multiset (Job τ))
        + (dropped : Multiset (Job τ)) = ↑w.queued + w.gone := by
      rw [add_assoc, hmoved, gone]
      abel
    show _ = (w.accepted : Multiset (Job τ)) + ((0 : Multiset (Job τ)) + jobsOf Frame.runs _
      + ((w.ran.map Prod.fst : Multiset (Job τ)) + (handedOut : Multiset (Job τ))
        + (dropped : Multiset (Job τ))))
    rw [hgone, hruns, jobsOf_singleton]
    show _ = (w.accepted : Multiset (Job τ)) + (0 + 0 + _)
    abel
  · exact (h.shut hflag).imp_right (flagged_exchange hold hnew hflagged)

end Sound

/-! ### Steps and runs -/

section Steps

variable [DecidableEq ι] {who : ι} {below : List (Frame τ ς)}

theorem frames_push (w : Crew ι τ ς) (who : ι) (frame : Frame τ ς) :
    (w.push who frame).frames = {frame} + w.frames := by
  show framesOf (Function.update w.stack who (frame :: w.stack who)) = _
  rw [framesOf_cons, Function.update_eq_self]
  rfl

theorem frames_put_cons (w : Crew ι τ ς) (who : ι) (frame : Frame τ ς)
    (below : List (Frame τ ς)) :
    (w.put who (frame :: below)).frames = {frame} + (w.put who below).frames :=
  framesOf_cons w.stack who frame below

theorem frames_of_stack {frame : Frame τ ς} (h : w.stack who = frame :: below) :
    w.frames = {frame} + (w.put who below).frames :=
  framesOf_of_stack h

/-- What a step puts on the count. -/
def charged : Move τ ς → Nat
  | .enqueue job _ => job.cost
  | _ => 0

/-- What a step of a thread takes off the count. -/
def discharged (w : Crew ι τ ς) (who : ι) : Move τ ς → Nat
  | .advance => ((w.stack who).head?.bind Frame.discharges).elim 0 Job.cost
  | _ => 0

/-- The count changes by just what is charged and discharged. -/
def Exact (w : Crew ι τ ς) (who : ι) (move : Move τ ς) (next : Crew ι τ ς) : Prop :=
  next.inFlight + w.discharged who move = w.inFlight + charged move

namespace Sound

/-! ### Operations that begin -/

theorem enqueue (h : w.Sound) (who : ι) (job : Job τ) (priority : Priority) :
    (w.charge who job priority).Sound := by
  have hold : w.frames = 0 + w.frames := (zero_add _).symm
  have hnew : (w.charge who job priority).frames = {.charged job priority} + w.frames :=
    frames_push w who _
  refine h.exchange_open hold hnew (by simp) rfl rfl ?_ ?_
  · simp only [jobsOf_zero, totalCost_zero, jobsOf_singleton, Frame.charges, totalCost_singleton]
    rfl
  · simp only [jobsOf_zero, jobsOf_singleton, Frame.runs]
    rfl

/-- A thread with one more frame, which has no jobs. -/
theorem push (h : w.Sound) (who : ι) {frame : Frame τ ς} (hcharges : frame.charges = 0)
    (hruns : frame.runs = 0) : (w.push who frame).Sound := by
  have hold : w.frames = 0 + w.frames := (zero_add _).symm
  refine h.exchange_open hold (frames_push w who frame) (by simp) rfl rfl ?_ ?_
  · rw [jobsOf_singleton, jobsOf_zero, hcharges]
    rfl
  · rw [jobsOf_singleton, jobsOf_zero, hruns]
    rfl

theorem take (h : w.Sound) (who : ι) {job : Job τ} {queue : PriorityQueue (Job τ)}
    (hqueue : w.scheduler.queue.dequeue = (.item job, queue)) :
    ({ w.push who (.running job) with
      scheduler := { w.scheduler with queue } } : Crew ι τ ς).Sound := by
  obtain ⟨hitems, hclosed⟩ := items_dequeue hqueue
  have hqueued : w.queued = job :: queue.items := hitems
  have hold : w.frames = 0 + w.frames := (zero_add _).symm
  have hnew := frames_push w who (.running job)
  refine h.exchange hold hnew ?_ ?_ (fun hshut => ?_) fun hflag => ?_
  · show w.inFlight + _ = w.inFlight + totalCost ((queue.items : Multiset (Job τ)) + _)
    rw [hqueued, ← Multiset.cons_coe]
    simp only [jobsOf_zero, jobsOf_singleton, Frame.charges, totalCost_add, totalCost_cons,
      totalCost_zero, totalCost_singleton]
    omega
  · show (w.accepted : Multiset (Job τ)) + _ = (w.accepted : Multiset (Job τ))
      + ((queue.items : Multiset (Job τ)) + jobsOf Frame.runs _ + w.gone)
    rw [hqueued, ← Multiset.cons_coe, ← Multiset.singleton_add]
    simp only [jobsOf_zero, jobsOf_singleton, Frame.runs]
    abel
  · -- A closed queue that still has jobs is not drained yet.
    have hdraining := (h.drained (hclosed ▸ hshut)).resolve_left
      (fun hempty => List.cons_ne_nil _ _ (hqueued.symm.trans hempty))
    exact .inr (draining_exchange hold hnew (by simp) (by simp) hdraining)
  · rw [hclosed]
    exact (h.shut hflag).imp_right (flagged_exchange hold hnew (by simp))

theorem close (h : w.Sound) (who : ι) :
    ({ w.push who (.closing .flagged) with
      scheduler := { w.scheduler with closed := true } } : Crew ι τ ς).Sound := by
  have hold : w.frames = 0 + w.frames := (zero_add _).symm
  have hnew := frames_push w who (.closing .flagged)
  refine h.exchange hold hnew ?_ ?_ (fun hshut => ?_) fun _ => .inr ?_
  · simp only [jobsOf_zero, jobsOf_singleton, Frame.charges]
    rfl
  · simp only [jobsOf_zero, jobsOf_singleton, Frame.runs]
    rfl
  · exact (h.drained hshut).imp_right (draining_exchange hold hnew (by simp) (by simp))
  · show _ ∈ (w.push who (.closing .flagged)).frames
    rw [hnew]
    exact Multiset.mem_add.mpr (.inl (Multiset.mem_singleton_self _))

theorem takeQueued (h : w.Sound) (who : ι) :
    ({ w.push who (.releasing w.queued) with
      scheduler := { w.scheduler with queue := w.scheduler.queue.drain.2 }
      handedOut := w.handedOut ++ w.queued } : Crew ι τ ς).Sound := by
  have hold : w.frames = 0 + w.frames := (zero_add _).symm
  refine h.drain hold (frames_push w who _) (jobsOf_zero _) (jobsOf_zero _) (by simp) ?_
  rw [← Multiset.coe_add]
  abel

/-! ### Operations that go on -/

theorem accept (h : w.Sound) {job : Job τ} {priority : Priority}
    {queue : PriorityQueue (Job τ)} (hstack : w.stack who = .charged job priority :: below)
    (hqueue : w.scheduler.queue.enqueue? job priority = some queue) :
    ({ w.put who below with
      scheduler := { w.scheduler with queue }
      accepted := w.accepted ++ [job] } : Crew ι τ ς).Sound := by
  obtain ⟨hopen, hstays, hitems⟩ := items_enqueue? hqueue
  have hold : w.frames = {.charged job priority} + (w.put who below).frames :=
    frames_of_stack hstack
  have hnew : (w.put who below).frames = 0 + (w.put who below).frames := (zero_add _).symm
  refine h.exchange hold hnew ?_ ?_ (fun hshut => ?_) fun hflag => ?_
  · show w.inFlight + _ = w.inFlight + totalCost ((queue.items : Multiset (Job τ)) + _)
    rw [hitems]
    simp only [jobsOf_zero, jobsOf_singleton, Frame.charges, totalCost_add, totalCost_cons,
      totalCost_zero, totalCost_singleton]
    show _ + (totalCost (w.scheduler.queue.items : Multiset (Job τ)) + _) = _
    omega
  · show ((w.accepted ++ [job] : List (Job τ)) : Multiset (Job τ)) + _
      = (w.accepted : Multiset (Job τ))
        + ((queue.items : Multiset (Job τ)) + jobsOf Frame.runs _ + w.gone)
    rw [hitems, ← Multiset.coe_add, ← Multiset.singleton_add]
    simp only [jobsOf_zero, jobsOf_singleton, Frame.runs, Multiset.coe_singleton]
    show _ = (w.accepted : Multiset (Job τ)) + ({job} + (w.queued : Multiset (Job τ)) + 0 + w.gone)
    abel
  · rw [hstays] at hshut
    cases hshut
  · exact ((h.shut hflag).imp_left fun hshut => absurd hshut (by rw [hopen]; simp)).imp_right
      (flagged_exchange hold hnew (by simp))

/-- A frame for another one with the same jobs. -/
theorem swap (h : w.Sound) {frame other : Frame τ ς} (hstack : w.stack who = frame :: below)
    (hclosing : ∀ stage, frame ≠ .closing stage) (hcharges : other.charges = frame.charges)
    (hruns : other.runs = frame.runs) : (w.put who (other :: below)).Sound := by
  have hold : w.frames = {frame} + (w.put who below).frames := frames_of_stack hstack
  have hnew := frames_put_cons w who other below
  refine h.exchange_open hold hnew ?_ rfl rfl ?_ ?_
  · intro stage hmem
    exact hclosing stage (Multiset.mem_singleton.mp hmem).symm
  · rw [jobsOf_singleton, jobsOf_singleton, hcharges]
    rfl
  · rw [jobsOf_singleton, jobsOf_singleton, hruns]
    rfl

/-- An operation that ends and has no jobs left. -/
theorem pop (h : w.Sound) {frame : Frame τ ς} (hstack : w.stack who = frame :: below)
    (hclosing : ∀ stage, frame ≠ .closing stage) (hcharges : frame.charges = 0)
    (hruns : frame.runs = 0) : (w.put who below).Sound := by
  have hold : w.frames = {frame} + (w.put who below).frames := frames_of_stack hstack
  have hnew : (w.put who below).frames = 0 + (w.put who below).frames := (zero_add _).symm
  refine h.exchange_open hold hnew ?_ rfl rfl ?_ ?_
  · intro stage hmem
    exact hclosing stage (Multiset.mem_singleton.mp hmem).symm
  · rw [jobsOf_singleton, jobsOf_zero, hcharges]
    rfl
  · rw [jobsOf_singleton, jobsOf_zero, hruns]
    rfl

theorem finish (h : w.Sound) {job : Job τ} (hstack : w.stack who = .running job :: below)
    (how : JobEnd) :
    ({ w.put who (.ended job :: below) with ran := w.ran ++ [(job, how)] } :
      Crew ι τ ς).Sound := by
  have hold : w.frames = {.running job} + (w.put who below).frames := frames_of_stack hstack
  have hnew := frames_put_cons w who (.ended job) below
  refine h.exchange_open hold hnew (by simp) rfl rfl ?_ ?_
  · rw [jobsOf_singleton, jobsOf_singleton]
    rfl
  · show (w.accepted : Multiset (Job τ)) + _ = (w.accepted : Multiset (Job τ))
      + (jobsOf Frame.runs _ + (((w.ran ++ [(job, how)]).map Prod.fst : Multiset (Job τ))
        + (w.handedOut : Multiset (Job τ)) + (w.dropped : Multiset (Job τ))))
    rw [jobsOf_singleton, jobsOf_singleton, List.map_append, ← Multiset.coe_add, gone]
    simp only [Frame.runs, List.map_cons, List.map_nil, Multiset.coe_singleton]
    abel

/-- Whoever closes the queue is then to drain it. -/
theorem closeQueue (h : w.Sound) (hstack : w.stack who = .closing .flagged :: below) :
    ({ w.put who (.closing .shut :: below) with
      scheduler := { w.scheduler with queue := w.scheduler.queue.close } } :
      Crew ι τ ς).Sound := by
  have hold : w.frames = {.closing .flagged} + (w.put who below).frames := frames_of_stack hstack
  have hnew := frames_put_cons w who (.closing .shut) below
  refine h.exchange hold hnew ?_ ?_ (fun _ => .inr (.inl ?_)) fun _ => .inl rfl
  · rw [jobsOf_singleton, jobsOf_singleton]
    rfl
  · rw [jobsOf_singleton, jobsOf_singleton]
    rfl
  · show _ ∈ (w.put who (.closing .shut :: below)).frames
    rw [hnew]
    exact Multiset.mem_add.mpr (.inl (Multiset.mem_singleton_self _))

theorem clearSources (h : w.Sound) (hstack : w.stack who = .closing .shut :: below) :
    ({ w.put who (.closing .cleared :: below) with
      scheduler := { w.scheduler with sources := [] } } : Crew ι τ ς).Sound := by
  have hold : w.frames = {.closing .shut} + (w.put who below).frames := frames_of_stack hstack
  have hnew := frames_put_cons w who (.closing .cleared) below
  refine h.exchange hold hnew ?_ ?_ (fun _ => .inr (.inr ?_)) fun hflag => ?_
  · rw [jobsOf_singleton, jobsOf_singleton]
    rfl
  · rw [jobsOf_singleton, jobsOf_singleton]
    rfl
  · show _ ∈ (w.put who (.closing .cleared :: below)).frames
    rw [hnew]
    exact Multiset.mem_add.mpr (.inl (Multiset.mem_singleton_self _))
  · exact (h.shut hflag).imp_right (flagged_exchange hold hnew (by simp))

theorem dropQueued (h : w.Sound) (hstack : w.stack who = .closing .cleared :: below) :
    ({ w.put who (.releasing w.queued :: below) with
      scheduler := { w.scheduler with queue := w.scheduler.queue.drain.2 }
      dropped := w.dropped ++ w.queued } : Crew ι τ ς).Sound := by
  have hold : w.frames = {.closing .cleared} + (w.put who below).frames := frames_of_stack hstack
  refine h.drain hold (frames_put_cons w who _ below) (jobsOf_singleton _ _)
    (jobsOf_singleton _ _) (by simp) ?_
  show (w.handedOut : Multiset (Job τ)) + ((w.dropped ++ w.queued : List (Job τ)) : Multiset _) = _
  rw [← Multiset.coe_add]
  abel

/-- A frame that takes a job off the count, and is then another one or is over. -/
theorem release (h : w.Sound) {frame : Frame τ ς} {job : Job τ} {frames : List (Frame τ ς)}
    (hstack : w.stack who = frame :: below) (hjob : frame.discharges = some job)
    (hnew : (w.put who frames).frames = new + (w.put who below).frames)
    (hcharges : frame.charges = job ::ₘ jobsOf Frame.charges new)
    (hruns : jobsOf Frame.runs new = 0) (hrelease : w.release who job frames = some next) :
    next.Sound ∧ w.Exact who .advance next := by
  rw [Crew.release, Option.ite_none_right_eq_some, Option.some.injEq] at hrelease
  obtain ⟨-, rfl⟩ := hrelease
  obtain ⟨hsound, hexact⟩ := h.discharge (frames_of_stack hstack) hnew hjob hcharges hruns
  refine ⟨hsound, ?_⟩
  show _ + ((w.stack who).head?.bind Frame.discharges).elim 0 Job.cost = _
  rw [hstack, List.head?_cons, Option.bind_some, hjob]
  exact hexact

/-- The next step of an operation takes off the count what its frame says. -/
theorem advance (h : w.Sound) (hadvance : w.advance who = some next) :
    next.Sound ∧ w.Exact who .advance next := by
  -- A frame with nothing to discharge leaves the count as it is.
  have hexact {frame : Frame τ ς} {below : List (Frame τ ς)} {next : Crew ι τ ς}
      (hstack : w.stack who = frame :: below) (hnone : frame.discharges = none)
      (hcapacity : next.inFlight = w.inFlight) : w.Exact who .advance next := by
    show _ + ((w.stack who).head?.bind Frame.discharges).elim 0 Job.cost = _
    rw [hstack, List.head?_cons, Option.bind_some, hnone, hcapacity]
    rfl
  cases hstack : w.stack who with
  | nil =>
    rw [Crew.advance, hstack] at hadvance
    cases hadvance
  | cons frame below =>
    rw [Crew.advance, hstack] at hadvance
    have hnew : (w.put who below).frames = 0 + (w.put who below).frames := (zero_add _).symm
    cases frame with
    | charged job priority =>
      simp only at hadvance
      split at hadvance <;> cases hadvance
      case h_1 queue hqueue => exact ⟨h.accept hstack hqueue, hexact hstack rfl rfl⟩
      case h_2 =>
        have hrefused : (w.put who (.refused job :: below)).Sound :=
          h.swap hstack (by simp) rfl rfl
        exact ⟨hrefused.untouched _ _ _, hexact hstack rfl rfl⟩
    | refused job => exact h.release hstack rfl hnew rfl rfl hadvance
    | ended job => exact h.release hstack rfl hnew rfl rfl hadvance
    | releasing jobs =>
      cases jobs with
      | nil =>
        cases hadvance
        exact ⟨h.pop hstack (by simp) rfl rfl, hexact hstack rfl rfl⟩
      | cons job jobs =>
        refine h.release hstack rfl (frames_put_cons w who (.releasing jobs) below) ?_
          (jobsOf_singleton _ _) hadvance
        rw [jobsOf_singleton]
        rfl
    | closing stage =>
      cases stage with
      | flagged =>
        cases hadvance
        exact ⟨h.closeQueue hstack, hexact hstack rfl rfl⟩
      | shut =>
        simp only [Option.ite_none_right_eq_some, Option.some.injEq] at hadvance
        obtain ⟨-, rfl⟩ := hadvance
        exact ⟨h.clearSources hstack, hexact hstack rfl rfl⟩
      | cleared =>
        cases hadvance
        exact ⟨h.dropQueued hstack, hexact hstack rfl rfl⟩
    | asking left kept =>
      cases left with
      | nil =>
        cases hadvance
        have hended : (w.put who below).Sound := h.pop hstack (by simp) rfl rfl
        exact ⟨hended.untouched _ _ _, hexact hstack rfl rfl⟩
      | cons source left =>
        cases hadvance
        have hasking : (w.put who (.asking left kept :: below)).Sound :=
          h.swap hstack (by simp) rfl rfl
        have hadding : ((w.put who (.asking left kept :: below)).push who (.adding source)).Sound :=
          hasking.push who rfl rfl
        rw [Crew.push, put_stack, put_put] at hadding
        exact ⟨hadding, hexact hstack rfl rfl⟩
    | running job => cases hadvance
    | adding source => cases hadvance

/-- Every step keeps the invariant, and nothing is cut off. -/
theorem step (h : w.Sound) {move : Move τ ς} (hstep : w.step who move = some next) :
    next.Sound ∧ w.Exact who move next := by
  cases move with
  | advance => exact h.advance hstep
  | enqueue job priority =>
    simp only [Crew.step, Option.ite_none_right_eq_some, Option.some.injEq] at hstep
    obtain ⟨-, rfl⟩ := hstep
    exact ⟨h.enqueue who job priority, rfl⟩
  | addSource source =>
    simp only [Crew.step, Option.ite_none_right_eq_some, Option.some.injEq] at hstep
    obtain ⟨-, rfl⟩ := hstep
    exact ⟨h.untouched _ _ _, rfl⟩
  | checkCapacity =>
    simp only [Crew.step, Option.ite_none_right_eq_some] at hstep
    obtain ⟨-, hstep⟩ := hstep
    split at hstep <;> cases hstep
    · have hasking : (w.push who (.asking w.scheduler.sources [])).Sound := h.push who rfl rfl
      exact ⟨hasking.untouched _ _ _, rfl⟩
    · exact ⟨h, rfl⟩
  | take =>
    simp only [Crew.step, Scheduler.takeJob, Option.ite_none_right_eq_some] at hstep
    obtain ⟨-, hstep⟩ := hstep
    cases hqueue : w.scheduler.queue.dequeue with
    | mk taken queue =>
      rw [hqueue] at hstep
      cases taken with
      | item job =>
        cases hstep
        exact ⟨h.take who hqueue, rfl⟩
      | waiting | ended =>
        obtain rfl : queue = w.scheduler.queue := dequeue_none hqueue (by simp)
        cases hstep
        exact ⟨h, rfl⟩
  | takeQueued =>
    simp only [Crew.step, Option.ite_none_right_eq_some, Option.some.injEq] at hstep
    obtain ⟨-, rfl⟩ := hstep
    exact ⟨h.takeQueued who, rfl⟩
  | close =>
    simp only [Crew.step, Option.ite_none_right_eq_some, Option.some.injEq] at hstep
    obtain ⟨-, rfl⟩ := hstep
    exact ⟨h.close who, rfl⟩
  | finish how =>
    rw [Crew.step] at hstep
    split at hstep
    case h_1 job below hstack =>
      cases hstep
      exact ⟨h.finish hstack how, rfl⟩
    case h_2 => cases hstep
  | answer kept? =>
    rw [Crew.step] at hstep
    split at hstep
    case h_1 source left kept below hstack =>
      cases hstep
      have hasking : (w.put who (.asking left kept :: below)).Sound :=
        h.pop hstack (by simp) rfl rfl
      have hkept : ((w.put who (.asking left kept :: below)).put who
          (.asking left (kept ++ kept?.toList) :: below)).Sound :=
        hasking.swap (put_stack w who _) (by simp) rfl rfl
      rw [put_put] at hkept
      exact ⟨hkept, rfl⟩
    case h_2 => cases hstep

/-- Every run keeps the invariant. -/
theorem run {moves : List (ι × Move τ ς)} {last : Crew ι τ ς} (h : w.Sound)
    (hrun : w.run moves = some last) : last.Sound := by
  induction moves generalizing w with
  | nil =>
    cases hrun
    exact h
  | cons entry moves ih =>
    obtain ⟨who, move⟩ := entry
    rw [Crew.run] at hrun
    split at hrun
    case h_1 next hstep => exact ih (h.step hstep).1 hrun
    case h_2 => cases hrun

end Sound

end Steps

/-! ### What every run shows -/

/-- No operation is in progress: the threads do nothing but run jobs. -/
def Quiet (w : Crew ι τ ς) : Prop := ∀ who, ∀ frame ∈ w.stack who, ∃ job, frame = .running job

/-- The jobs that are running. -/
def running (w : Crew ι τ ς) : Multiset (Job τ) := jobsOf Frame.runs w.frames

/-- If the threads do nothing but run jobs, the jobs on the count are those that run. -/
theorem Quiet.charges_eq (h : w.Quiet) : jobsOf Frame.charges w.frames = w.running := by
  refine Multiset.bind_congr fun frame hframe => ?_
  obtain ⟨who, hmem⟩ := mem_framesOf.mp hframe
  obtain ⟨job, rfl⟩ := h who frame hmem
  rfl

theorem Quiet.closing_not_mem (h : w.Quiet) (stage : Closing) : .closing stage ∉ w.frames := by
  intro hframe
  obtain ⟨who, hmem⟩ := mem_framesOf.mp hframe
  obtain ⟨job, hrunning⟩ := h who _ hmem
  cases hrunning

section Runs

variable [DecidableEq ι]

/-- The count is right, and every accepted job is in one place. -/
structure Conserves (w : Crew ι τ ς) : Prop where
  /-- With no operation in progress the count is what the jobs queued or running cost. -/
  quiet_count : w.Quiet → w.inFlight = totalCost (w.queued : Multiset (Job τ)) + totalCost w.running
  /-- No step takes more off the count than there is. -/
  exact : ∀ who move next, w.step who move = some next →
    next.inFlight + w.discharged who move = w.inFlight + charged move
  /-- Each accepted job was run, handed out or dropped, once, if it is not queued or running. -/
  accounted : (w.accepted : Multiset (Job τ))
    = ↑w.queued + w.running + (↑(w.ran.map Prod.fst) + ↑w.handedOut + ↑w.dropped)
  /-- A closed scheduler with no operation in progress has no jobs left in its queue. -/
  closed_empty : w.Quiet → w.scheduler.closed = true → w.queued = []
  /-- A job that comes after the queue was closed is refused, and not counted among the accepted. -/
  refuses : ∀ who job priority below, w.stack who = .charged job priority :: below →
    w.scheduler.queue.closed = true → ∃ next, w.step who .advance = some next ∧
      next.stack who = .refused job :: below ∧ next.accepted = w.accepted ∧
        next.inFlight = w.inFlight
  /-- What a refused job was charged is all taken off again. -/
  refused_discharged : ∀ who job below next, w.stack who = .refused job :: below →
    w.step who .advance = some next → next.inFlight + job.cost = w.inFlight
  /-- So nothing is left of it, if nobody comes between. -/
  refused_unchanged : w.scheduler.queue.closed = true → ∀ job priority,
    w.scheduler.enqueue job priority = (.error (.schedulerClosed job.name), w.scheduler)

theorem Sound.balanced (h : w.Sound) : w.Conserves where
  quiet_count hquiet := by
    rw [h.count, totalCost_add, hquiet.charges_eq]
  exact who move next hstep := (h.step hstep).2
  accounted := h.accounted
  closed_empty hquiet hclosed := by
    have hshut := (h.shut hclosed).resolve_right (hquiet.closing_not_mem .flagged)
    refine (h.drained hshut).resolve_right fun hdraining => ?_
    rcases hdraining with hmem | hmem
    · exact hquiet.closing_not_mem _ hmem
    · exact hquiet.closing_not_mem _ hmem
  refuses who job priority below hstack hclosed := by
    have hqueue : w.scheduler.queue.enqueue? job priority = none := by
      rw [PriorityQueue.enqueue?, if_pos hclosed]
    have hadvance : w.advance who = some { w.put who (.refused job :: below) with
        refused := w.refused ++ [job] } := by
      simp only [Crew.advance, hstack, hqueue]
    exact ⟨_, hadvance, put_stack w who _, rfl, rfl⟩
  refused_discharged who job below next hstack hstep := by
    have hexact : next.inFlight + w.discharged who .advance = w.inFlight := (h.step hstep).2
    rw [discharged, hstack] at hexact
    exact hexact
  refused_unchanged hclosed job priority := by
    have hqueue : w.scheduler.queue.enqueue? job priority = none := by
      rw [PriorityQueue.enqueue?, if_pos hclosed]
    have hback : (w.scheduler.capacity.charge job.cost).discharge job.cost
        = w.scheduler.capacity := by
      rw [Capacity.discharge, Capacity.charge, Nat.add_sub_cancel]
    rw [Scheduler.enqueue, hqueue]
    simp only [hback]

/--
Three threads: the first one runs a job while the second one queues another and the third one
closes the scheduler.  The second job was charged before the queue was closed and is refused after.
-/
def closingTime : List (Fin 3 × Move String Unit) :=
  [(0, .enqueue ⟨"first", 2, "a"⟩ .high), (0, .advance), (0, .enqueue ⟨"second", 5, "b"⟩ .low),
    (0, .advance), (0, .take), (2, .close), (1, .enqueue ⟨"third", 3, "c"⟩ .high), (2, .advance),
    (1, .advance), (2, .advance), (2, .advance), (1, .advance), (2, .advance), (2, .advance)]

end Runs

end Crew

end DocIndex.Work
