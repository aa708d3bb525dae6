/-
How far the count of a scheduler gets above its ceiling when sources feed it.

The count is held against the ceiling once, and then every source is asked.  So a round of asking
can add a job for each source: with one source the count stays at the ceiling, and with `n` of them
it gets `n - 1` above it and no further (`isGreatest_inFlight`).

In a run that is fed (`Feeding`) the only jobs are those that sources add when they are asked, each
of cost one and at most one a time.  What is bounded is the count together with the jobs that may
still come in the round that is under way: one from each source that is left to ask, and one from
the source that is being asked unless it has added it.  Beginning a round makes that sum as large as
it can be, and every other step leaves it or makes it smaller.  As the thread that asks holds its
locks all the while, there is only one round under way, and nobody else's frames ask (`Course` says
what a step can do to the frames that ask, and `Bounded` what follows).
-/
import Mathlib.Order.Bounds.Basic
import DocIndex.Proofs.Work.Conservation

namespace DocIndex.Work

variable {ι τ ς : Type}

/-! ### The frames that ask -/

namespace Frame

/-- Whether a frame belongs to a round of asking the sources. -/
def asks : Frame τ ς → Bool
  | asking _ _ | adding _ => true
  | _ => false

/-- How many sources are still to be asked. -/
def left : Frame τ ς → Nat
  | asking left _ => left.length
  | _ => 0

/-- No frame of the stack asks. -/
def Quiet (frames : List (Frame τ ς)) : Prop := ∀ frame ∈ frames, frame.asks = false

def leftOf (frames : List (Frame τ ς)) : Nat := (frames.map left).sum

/-- A stack in which one round is under way; a source that is asked may be in the middle of more. -/
inductive Asking : List (Frame τ ς) → Prop
  | asking {left kept : List ς} {below : List (Frame τ ς)} (hbelow : Quiet below) :
      Asking (.asking left kept :: below)
  | adding {source : ς} {left kept : List ς} {below : List (Frame τ ς)} (hbelow : Quiet below) :
      Asking (.adding source :: .asking left kept :: below)
  | above {frame : Frame τ ς} {frames : List (Frame τ ς)} (hframe : frame.asks = false)
      (h : Asking frames) : Asking (frame :: frames)

variable {frame : Frame τ ς} {frames old new below : List (Frame τ ς)}

@[simp] theorem quiet_nil : Quiet ([] : List (Frame τ ς)) := nofun

@[simp] theorem quiet_cons : Quiet (frame :: frames) ↔ frame.asks = false ∧ Quiet frames :=
  List.forall_mem_cons

@[simp] theorem quiet_append : Quiet (old ++ below) ↔ Quiet old ∧ Quiet below :=
  List.forall_mem_append

@[simp] theorem leftOf_cons : leftOf (frame :: frames) = frame.left + leftOf frames :=
  List.sum_cons

/-- Quiet frames have nothing to ask. -/
theorem leftOf_append_of_quiet (h : Quiet old) : leftOf (old ++ below) = leftOf below := by
  induction old with
  | nil => rfl
  | cons frame frames ih =>
    obtain ⟨hframe, hframes⟩ := quiet_cons.mp h
    have hleft : frame.left = 0 := by
      cases frame with
      | asking left kept => cases hframe
      | _ => rfl
    rw [List.cons_append, leftOf_cons, hleft, ih hframes, Nat.zero_add]

theorem leftOf_of_quiet (h : Quiet frames) : leftOf frames = 0 := by
  have happend : leftOf (frames ++ []) = leftOf [] := leftOf_append_of_quiet h
  rwa [List.append_nil] at happend

namespace Asking

theorem append (h : Asking below) (hnew : Quiet new) : Asking (new ++ below) := by
  induction new with
  | nil => exact h
  | cons frame frames ih =>
    obtain ⟨hframe, hframes⟩ := quiet_cons.mp hnew
    exact .above hframe (ih hframes)

theorem of_cons (hframe : frame.asks = false) (h : Asking (frame :: frames)) : Asking frames := by
  cases h with
  | asking hbelow => cases hframe
  | adding hbelow => cases hframe
  | above _ hrest => exact hrest

theorem of_append (hold : Quiet old) (h : Asking (old ++ below)) : Asking below := by
  induction old with
  | nil => exact h
  | cons frame frames ih =>
    obtain ⟨hframe, hframes⟩ := quiet_cons.mp hold
    exact ih hframes (of_cons hframe h)

theorem quiet_below {left kept : List ς} (h : Asking (.asking left kept :: below)) :
    Quiet below := by
  cases h with
  | asking hbelow => exact hbelow
  | above hframe _ => cases hframe

theorem quiet_below_adding {source : ς} {left kept : List ς}
    (h : Asking (.adding source :: .asking left kept :: below)) : Quiet below := by
  cases h with
  | adding hbelow => exact hbelow
  | above hframe _ => cases hframe

end Asking

end Frame

/-! ### What a step does to them -/

namespace Crew

variable [DecidableEq ι] {w next : Crew ι τ ς} {who : ι} {below : List (Frame τ ς)}

/-- A step of a thread, as far as it concerns the sources that are asked. -/
inductive Course (w : Crew ι τ ς) (who : ι) : Move τ ς → Crew ι τ ς → Prop
  /-- The step has nothing to do with a round. -/
  | aside {move : Move τ ς} {next : Crew ι τ ς} (old new : List (Frame τ ς))
      {below : List (Frame τ ς)}
      (hstack : w.stack who = old ++ below) (hold : Frame.Quiet old) (hnew : Frame.Quiet new)
      (hnext : next.stack = Function.update w.stack who (new ++ below))
      (hasker : next.asker = w.asker)
      (hceiling : next.scheduler.capacity.ceiling = w.scheduler.capacity.ceiling)
      (hcount : next.inFlight ≤ w.inFlight + charged move)
      (hadvance : move = .advance → old ≠ []) :
      Course w who move next
  /-- A round begins. -/
  | begins (hasker : w.asker = none) (hroom : w.inFlight < w.scheduler.capacity.ceiling) :
      Course w who .checkCapacity
        { w.push who (.asking w.scheduler.sources []) with asker := some who }
  /-- The next source is asked. -/
  | pulls {source : ς} {left kept : List ς} {below : List (Frame τ ς)}
      (hstack : w.stack who = .asking (source :: left) kept :: below) :
      Course w who .advance (w.put who (.adding source :: .asking left kept :: below))
  /-- The source that was asked has answered. -/
  | answers {source : ς} {left kept : List ς} {below : List (Frame τ ς)} {kept? : Option ς}
      (hstack : w.stack who = .adding source :: .asking left kept :: below) :
      Course w who (.answer kept?) (w.put who (.asking left (kept ++ kept?.toList) :: below))
  /-- The round ends. -/
  | ends {kept : List ς} {below : List (Frame τ ς)}
      (hstack : w.stack who = .asking [] kept :: below) :
      Course w who .advance
        { w.put who below with scheduler := { w.scheduler with sources := kept }, asker := none }

theorem course_advance (hadvance : w.advance who = some next) :
    w.Course who .advance next := by
  cases hstack : w.stack who with
  | nil =>
    rw [advance, hstack] at hadvance
    cases hadvance
  | cons frame below =>
    rw [advance, hstack] at hadvance
    -- Discharging makes the count smaller, if it changes it.
    have hrelease {job : Job τ} (frames : List (Frame τ ς)) (hframe : frame.asks = false)
        (hframes : Frame.Quiet frames) (h : w.release who job (frames ++ below) = some next) :
        w.Course who .advance next := by
      rw [release, Option.ite_none_right_eq_some, Option.some.injEq] at h
      obtain ⟨-, rfl⟩ := h
      refine .aside [frame] frames hstack ?_ hframes rfl rfl rfl ?_
        (fun _ => List.cons_ne_nil _ _)
      · simpa using hframe
      · exact Nat.le_trans (Nat.sub_le _ _) (Nat.le_add_right _ _)
    cases frame with
    | charged job priority =>
      simp only at hadvance
      split at hadvance <;> cases hadvance
      case h_1 =>
        exact .aside [.charged job priority] [] hstack (by simp; rfl) (by simp)
          rfl rfl rfl (Nat.le_refl _) (fun _ => List.cons_ne_nil _ _)
      case h_2 =>
        exact .aside [.charged job priority] [.refused job] hstack (by simp; rfl)
          (by simp; rfl) rfl rfl rfl (Nat.le_refl _) (fun _ => List.cons_ne_nil _ _)
    | refused job => exact hrelease [] rfl (by simp) hadvance
    | ended job => exact hrelease [] rfl (by simp) hadvance
    | releasing jobs =>
      cases jobs with
      | nil =>
        cases hadvance
        exact .aside [.releasing []] [] hstack (by simp; rfl) (by simp)
          rfl rfl rfl (Nat.le_refl _) (fun _ => List.cons_ne_nil _ _)
      | cons job jobs => exact hrelease [.releasing jobs] rfl (by simp; rfl) hadvance
    | closing stage =>
      cases stage with
      | flagged =>
        cases hadvance
        exact .aside [.closing .flagged] [.closing .shut] hstack (by simp; rfl)
          (by simp; rfl) rfl rfl rfl (Nat.le_refl _) (fun _ => List.cons_ne_nil _ _)
      | shut =>
        simp only [Option.ite_none_right_eq_some, Option.some.injEq] at hadvance
        obtain ⟨-, rfl⟩ := hadvance
        exact .aside [.closing .shut] [.closing .cleared] hstack (by simp; rfl)
          (by simp; rfl) rfl rfl rfl (Nat.le_refl _) (fun _ => List.cons_ne_nil _ _)
      | cleared =>
        cases hadvance
        exact .aside [.closing .cleared] [.releasing _] hstack (by simp; rfl)
          (by simp; rfl) rfl rfl rfl (Nat.le_refl _) (fun _ => List.cons_ne_nil _ _)
    | asking left kept =>
      cases left with
      | nil =>
        cases hadvance
        exact .ends hstack
      | cons source left =>
        cases hadvance
        exact .pulls hstack
    | running job => cases hadvance
    | adding source => cases hadvance

/-- What a step can do to the round that is under way. -/
theorem course {move : Move τ ς} (hstep : w.step who move = some next) :
    w.Course who move next := by
  cases move with
  | advance => exact course_advance hstep
  | enqueue job priority =>
    simp only [step, Option.ite_none_right_eq_some, Option.some.injEq] at hstep
    obtain ⟨-, rfl⟩ := hstep
    exact .aside [] [.charged job priority] rfl (by simp) (by simp; rfl)
      rfl rfl rfl (Nat.le_refl _) (by simp)
  | addSource source =>
    simp only [step, Option.ite_none_right_eq_some, Option.some.injEq] at hstep
    obtain ⟨-, rfl⟩ := hstep
    exact .aside [] [] rfl (by simp) (by simp)
      (Function.update_eq_self _ _).symm rfl rfl (Nat.le_refl _) (by simp)
  | checkCapacity =>
    simp only [step, Option.ite_none_right_eq_some, Bool.and_eq_true] at hstep
    obtain ⟨⟨-, hasker⟩, hstep⟩ := hstep
    split at hstep
    case isTrue hroom =>
      cases hstep
      exact .begins (Option.isNone_iff_eq_none.mp hasker) (of_decide_eq_true hroom)
    case isFalse =>
      cases hstep
      exact .aside [] [] rfl (by simp) (by simp)
        (Function.update_eq_self _ _).symm rfl rfl (Nat.le_refl _) (by simp)
  | take =>
    simp only [step, Scheduler.takeJob, Option.ite_none_right_eq_some] at hstep
    obtain ⟨-, hstep⟩ := hstep
    cases hqueue : w.scheduler.queue.dequeue with
    | mk taken queue =>
      rw [hqueue] at hstep
      cases taken with
      | item job =>
        cases hstep
        exact .aside [] [.running job] rfl (by simp) (by simp; rfl)
          rfl rfl rfl (Nat.le_refl _) (by simp)
      | waiting | ended =>
        cases hstep
        exact .aside [] [] rfl (by simp) (by simp)
          (Function.update_eq_self _ _).symm rfl rfl (Nat.le_refl _) (by simp)
  | takeQueued =>
    simp only [step, Option.ite_none_right_eq_some, Option.some.injEq] at hstep
    obtain ⟨-, rfl⟩ := hstep
    exact .aside [] [.releasing _] rfl (by simp) (by simp; rfl)
      rfl rfl rfl (Nat.le_refl _) (by simp)
  | close =>
    simp only [step, Option.ite_none_right_eq_some, Option.some.injEq] at hstep
    obtain ⟨-, rfl⟩ := hstep
    exact .aside [] [.closing .flagged] rfl (by simp) (by simp; rfl)
      rfl rfl rfl (Nat.le_refl _) (by simp)
  | finish how =>
    rw [step] at hstep
    split at hstep
    case h_1 job below hstack =>
      cases hstep
      exact .aside [.running job] [.ended job] hstack (by simp; rfl)
        (by simp; rfl) rfl rfl rfl (Nat.le_refl _) (by simp)
    case h_2 => cases hstep
  | answer kept? =>
    rw [step] at hstep
    split at hstep
    case h_1 source left kept below hstack =>
      cases hstep
      exact .answers hstack
    case h_2 => cases hstep

end Crew

/-! ### Runs in which the sources bring the jobs -/

/-- A crew whose jobs come from its sources, with what is noted of them. -/
structure Feeding (ι τ ς : Type) where
  crew : Crew ι τ ς
  /-- Whether a source is being asked that has not added its job. -/
  due : Bool
  /-- The most sources that were registered at one time. -/
  peak : Nat

namespace Feeding

variable {w next : Feeding ι τ ς} {who : ι} {move : Move τ ς} {ceiling : Nat}

/-- A scheduler that nobody has used. -/
def start (ceiling : Nat) : Feeding ι τ ς := ⟨.start ceiling, false, 0⟩

/-- Whether jobs are added as they may be: by a source that is asked, one of cost one. -/
def allows (w : Feeding ι τ ς) (who : ι) : Move τ ς → Bool
  | .enqueue job _ =>
    match w.crew.stack who with
    | .adding _ :: _ => w.due && job.cost = 1
    | _ => false
  | _ => true

/-- Whether a source that is being asked may still add a job. -/
def dueAfter (w : Feeding ι τ ς) (who : ι) : Move τ ς → Bool
  | .enqueue _ _ | .answer _ => false
  | .advance =>
    match w.crew.stack who with
    | .asking (_ :: _) _ :: _ => true
    | .asking [] _ :: _ => false
    | _ => w.due
  | _ => w.due

/-! ### What is kept -/

/-- What holds after every step. -/
structure Bounded (ceiling : Nat) (w : Feeding ι τ ς) : Prop where
  ceiling_eq : w.crew.scheduler.capacity.ceiling = ceiling
  sources_le : w.crew.scheduler.sources.length ≤ w.peak
  /-- Only the thread that asks has frames that ask. -/
  quiet : ∀ who, w.crew.asker ≠ some who → Frame.Quiet (w.crew.stack who)
  asking : ∀ who, w.crew.asker = some who → Frame.Asking (w.crew.stack who)
  /-- The count and the jobs that may still come in the round stay below the bound. -/
  room : ∀ who, w.crew.asker = some who →
    w.crew.inFlight + Frame.leftOf (w.crew.stack who) + w.due.toNat ≤ ceiling + (w.peak - 1)
  rest : w.crew.asker = none → w.crew.inFlight ≤ ceiling + (w.peak - 1) ∧ w.due = false

theorem bounded_start (ceiling : Nat) : (start ceiling : Feeding ι τ ς).Bounded ceiling where
  ceiling_eq := rfl
  sources_le := Nat.le_refl 0
  quiet _ _ := Frame.quiet_nil
  asking := nofun
  room := nofun
  rest _ := ⟨Nat.zero_le _, rfl⟩

theorem Bounded.inFlight_le (ok : w.Bounded ceiling) :
    w.crew.inFlight ≤ ceiling + (w.peak - 1) := by
  cases hasker : w.crew.asker with
  | none => exact (ok.rest hasker).1
  | some who =>
    have hroom := ok.room who hasker
    omega

/-- A step that has nothing to do with a round does not make a source due. -/
theorem due_of_aside {old below : List (Frame τ ς)} (hstack : w.crew.stack who = old ++ below)
    (hold : Frame.Quiet old) (hadvance : move = .advance → old ≠ [])
    (hdue : w.dueAfter who move = true) : w.due = true := by
  cases move with
  | advance =>
    obtain ⟨frame, frames, rfl⟩ := List.exists_cons_of_ne_nil (hadvance rfl)
    rw [dueAfter, hstack, List.cons_append] at hdue
    cases frame with
    | asking left kept => cases (Frame.quiet_cons.mp hold).1
    | _ => exact hdue
  | enqueue job priority => cases hdue
  | answer kept? => cases hdue
  | _ => exact hdue

/-- A job that is added was due. -/
theorem count_of_aside {count : Nat} (hallows : w.allows who move = true)
    (hcount : count ≤ w.crew.inFlight + Crew.charged move)
    (hdue : w.dueAfter who move = true → w.due = true) :
    count + (w.dueAfter who move).toNat ≤ w.crew.inFlight + w.due.toNat := by
  by_cases henqueue : ∃ job priority, move = .enqueue job priority
  · obtain ⟨job, priority, rfl⟩ := henqueue
    rw [allows] at hallows
    split at hallows
    case h_1 =>
      obtain ⟨hwas, hcost⟩ := Bool.and_eq_true_iff.mp hallows
      have hone : Crew.charged (.enqueue job priority : Move τ ς) = 1 := of_decide_eq_true hcost
      rw [hone] at hcount
      rw [hwas]
      exact hcount
    case h_2 => cases hallows
  · have hnone : Crew.charged move = 0 := by
      cases move with
      | enqueue job priority => exact absurd ⟨job, priority, rfl⟩ henqueue
      | _ => rfl
    have htoNat : (w.dueAfter who move).toNat ≤ w.due.toNat := Bool.toNat_le_toNat hdue
    omega

section Steps

variable [DecidableEq ι]

/-- A step of the crew, if it adds no other jobs. -/
def step (w : Feeding ι τ ς) (who : ι) (move : Move τ ς) : Option (Feeding ι τ ς) :=
  if w.allows who move then
    (w.crew.step who move).map fun next =>
      ⟨next, w.dueAfter who move, max w.peak next.scheduler.sources.length⟩
  else none

/-- The steps of threads one after the other, if all of them can be made. -/
def run (w : Feeding ι τ ς) : List (ι × Move τ ς) → Option (Feeding ι τ ς)
  | [] => some w
  | (who, move) :: rest => (w.step who move).bind fun next => next.run rest

theorem step_eq_some (h : w.step who move = some next) :
    w.allows who move = true ∧ w.crew.step who move = some next.crew ∧
      next.due = w.dueAfter who move ∧
      next.peak = max w.peak next.crew.scheduler.sources.length := by
  simp only [step, Option.ite_none_right_eq_some, Option.map_eq_some_iff] at h
  obtain ⟨hallows, crew, hstep, rfl⟩ := h
  exact ⟨hallows, hstep, rfl, rfl⟩

/-- A run that is fed is a run of the crew. -/
theorem run_crew {moves : List (ι × Move τ ς)} {last : Feeding ι τ ς}
    (h : w.run moves = some last) : w.crew.run moves = some last.crew := by
  induction moves generalizing w with
  | nil =>
    cases h
    rfl
  | cons entry moves ih =>
    obtain ⟨who, move⟩ := entry
    obtain ⟨next, hstep, hrest⟩ := Option.bind_eq_some_iff.mp h
    obtain ⟨-, hcrew, -, -⟩ := step_eq_some hstep
    rw [Crew.run_cons hcrew]
    exact ih hrest

namespace Bounded

/-- A step that exchanges frames that do not ask, and adds no job that was not due. -/
theorem aside (ok : w.Bounded ceiling) {old new below : List (Frame τ ς)}
    (hstack : w.crew.stack who = old ++ below) (hold : Frame.Quiet old) (hnew : Frame.Quiet new)
    (hnext : next.crew.stack = Function.update w.crew.stack who (new ++ below))
    (hasker : next.crew.asker = w.crew.asker)
    (hceiling : next.crew.scheduler.capacity.ceiling = w.crew.scheduler.capacity.ceiling)
    (hpeak : next.peak = max w.peak next.crew.scheduler.sources.length)
    (hdue : next.due = true → w.due = true)
    (hcount : next.crew.inFlight + next.due.toNat ≤ w.crew.inFlight + w.due.toNat) :
    next.Bounded ceiling := by
  have hself : next.crew.stack who = new ++ below := by rw [hnext, Function.update_self]
  have hother {other : ι} (hne : other ≠ who) :
      next.crew.stack other = w.crew.stack other := by
    rw [hnext, Function.update_of_ne hne]
  constructor
  case ceiling_eq => exact hceiling.trans ok.ceiling_eq
  case sources_le =>
    rw [hpeak]
    exact Nat.le_max_right _ _
  case quiet =>
    intro other hnot
    rw [hasker] at hnot
    have hquiet := ok.quiet other hnot
    by_cases hwho : other = who
    · subst hwho
      rw [hstack] at hquiet
      rw [hself]
      exact Frame.quiet_append.mpr ⟨hnew, (Frame.quiet_append.mp hquiet).2⟩
    · rw [hother hwho]
      exact hquiet
  case asking =>
    intro other his
    rw [hasker] at his
    have hasking := ok.asking other his
    by_cases hwho : other = who
    · subst hwho
      rw [hstack] at hasking
      rw [hself]
      exact (hasking.of_append hold).append hnew
    · rw [hother hwho]
      exact hasking
  case room =>
    intro other his
    rw [hasker] at his
    have hroom := ok.room other his
    by_cases hwho : other = who
    · subst hwho
      rw [hstack, Frame.leftOf_append_of_quiet hold] at hroom
      rw [hself, Frame.leftOf_append_of_quiet hnew]
      omega
    · rw [hother hwho]
      omega
  case rest =>
    intro hnone
    rw [hasker] at hnone
    obtain ⟨hle, hwas⟩ := ok.rest hnone
    have hstill : next.due = false := by
      rw [Bool.eq_false_iff]
      intro htrue
      rw [hdue htrue] at hwas
      cases hwas
    rw [hwas, hstill] at hcount
    exact ⟨by simp only [Bool.toNat_false] at hcount; omega, hstill⟩

/-- A step after which the thread that made it asks. -/
theorem within (ok : w.Bounded ceiling) (frames : List (Frame τ ς))
    (hfree : ∀ other, w.crew.asker = some other → other = who)
    (hnext : next.crew.stack = Function.update w.crew.stack who frames)
    (hasker : next.crew.asker = some who)
    (hceiling : next.crew.scheduler.capacity.ceiling = w.crew.scheduler.capacity.ceiling)
    (hsources : next.crew.scheduler.sources.length ≤ next.peak) (hasking : Frame.Asking frames)
    (hroom : next.crew.inFlight + Frame.leftOf frames + next.due.toNat ≤
      ceiling + (next.peak - 1)) :
    next.Bounded ceiling := by
  have hself : next.crew.stack who = frames := by rw [hnext, Function.update_self]
  constructor
  case ceiling_eq => exact hceiling.trans ok.ceiling_eq
  case sources_le => exact hsources
  case quiet =>
    intro other hnot
    rw [hasker] at hnot
    have hne : other ≠ who := fun heq => hnot (congrArg some heq.symm)
    rw [hnext, Function.update_of_ne hne]
    exact ok.quiet other fun his => hne (hfree other his)
  case asking =>
    intro other his
    obtain rfl := Option.some.inj (hasker.symm.trans his)
    rw [hself]
    exact hasking
  case room =>
    intro other his
    obtain rfl := Option.some.inj (hasker.symm.trans his)
    rw [hself]
    exact hroom
  case rest =>
    intro hnone
    cases hasker.symm.trans hnone

/-- A step of the thread that asked, after which nobody asks. -/
theorem ended (ok : w.Bounded ceiling) (frames : List (Frame τ ς))
    (hwas : w.crew.asker = some who)
    (hnext : next.crew.stack = Function.update w.crew.stack who frames)
    (hasker : next.crew.asker = none)
    (hceiling : next.crew.scheduler.capacity.ceiling = w.crew.scheduler.capacity.ceiling)
    (hsources : next.crew.scheduler.sources.length ≤ next.peak) (hquiet : Frame.Quiet frames)
    (hcount : next.crew.inFlight ≤ ceiling + (next.peak - 1)) (hdone : next.due = false) :
    next.Bounded ceiling := by
  constructor
  case ceiling_eq => exact hceiling.trans ok.ceiling_eq
  case sources_le => exact hsources
  case quiet =>
    intro other _
    by_cases hwho : other = who
    · rw [hwho, hnext, Function.update_self]
      exact hquiet
    · rw [hnext, Function.update_of_ne hwho]
      exact ok.quiet other fun his => hwho (Option.some.inj (his.symm.trans hwas))
  case asking =>
    intro other his
    cases hasker.symm.trans his
  case room =>
    intro other his
    cases hasker.symm.trans his
  case rest => exact fun _ => ⟨hcount, hdone⟩

/-- Whoever has frames that ask is the one who asks. -/
theorem asker_eq (ok : w.Bounded ceiling) {frame : Frame τ ς} {below : List (Frame τ ς)}
    (hstack : w.crew.stack who = frame :: below) (hframe : frame.asks = true) :
    w.crew.asker = some who := by
  by_contra hne
  have hquiet := ok.quiet who hne
  rw [hstack] at hquiet
  exact Bool.false_ne_true ((Frame.quiet_cons.mp hquiet).1.symm.trans hframe)

theorem step (ok : w.Bounded ceiling) (h : w.step who move = some next) :
    next.Bounded ceiling := by
  obtain ⟨hallows, hcrew, hdue, hpeak⟩ := step_eq_some h
  have hcourse := Crew.course hcrew
  obtain ⟨crew, due, peak⟩ := next
  have hsources : crew.scheduler.sources.length ≤ peak := by
    rw [show peak = _ from hpeak]
    exact Nat.le_max_right _ _
  have hgrows : w.peak ≤ peak := by
    rw [show peak = _ from hpeak]
    exact Nat.le_max_left _ _
  simp only at hdue hpeak hcourse hcrew
  cases hcourse with
  | aside old new hstack hold hnew hnext hasker hceiling hcount hadvance =>
    have hstill : due = true → w.due = true := by
      rw [hdue]
      exact due_of_aside hstack hold hadvance
    have hsum := count_of_aside hallows hcount (hdue ▸ hstill)
    exact ok.aside hstack hold hnew hnext hasker hceiling hpeak hstill (hdue ▸ hsum)
  | begins hasker hroom =>
    -- Each registered source can add one job, and the count was below the ceiling.
    obtain ⟨-, hwas⟩ := ok.rest hasker
    have hquiet := ok.quiet who (by rw [hasker]; nofun)
    have hle := ok.sources_le
    have hceiling := ok.ceiling_eq
    refine ok.within (.asking w.crew.scheduler.sources [] :: w.crew.stack who)
      (by rw [hasker]; nofun) rfl rfl rfl hsources (.asking hquiet) ?_
    have hdone : due = false := hdue.trans hwas
    rw [Frame.leftOf_cons, Frame.leftOf_of_quiet hquiet, hdone]
    simp only [Frame.left, Bool.toNat_false]
    show w.crew.inFlight + _ + 0 ≤ ceiling + (peak - 1)
    omega
  | @pulls source left kept below hstack =>
    have hasker := ok.asker_eq hstack rfl
    have hquiet := Frame.Asking.quiet_below (hstack ▸ ok.asking who hasker)
    have hroom := ok.room who hasker
    rw [hstack, Frame.leftOf_cons] at hroom
    simp only [Frame.left, List.length_cons] at hroom
    refine ok.within _ (fun other his => Option.some.inj (his.symm.trans hasker)) rfl hasker rfl
      hsources (.adding hquiet) ?_
    have hnow : due = true := by rw [hdue, dueAfter, hstack]
    simp only [Frame.leftOf_cons, Frame.left, hnow, Bool.toNat_true]
    show w.crew.inFlight + _ + 1 ≤ ceiling + (peak - 1)
    omega
  | @answers source left kept below kept? hstack =>
    have hasker := ok.asker_eq hstack rfl
    have hquiet := Frame.Asking.quiet_below_adding (hstack ▸ ok.asking who hasker)
    have hroom := ok.room who hasker
    rw [hstack, Frame.leftOf_cons, Frame.leftOf_cons] at hroom
    simp only [Frame.left] at hroom
    refine ok.within _ (fun other his => Option.some.inj (his.symm.trans hasker)) rfl hasker rfl
      hsources (.asking hquiet) ?_
    have hdone : due = false := hdue
    simp only [Frame.leftOf_cons, Frame.left, hdone, Bool.toNat_false]
    show w.crew.inFlight + _ + 0 ≤ ceiling + (peak - 1)
    omega
  | @ends kept below hstack =>
    have hasker := ok.asker_eq hstack rfl
    have hquiet := Frame.Asking.quiet_below (hstack ▸ ok.asking who hasker)
    have hroom := ok.room who hasker
    have hdone : due = false := by rw [hdue, dueAfter, hstack]
    refine ok.ended below hasker rfl rfl rfl hsources hquiet ?_ hdone
    show w.crew.inFlight ≤ ceiling + (peak - 1)
    omega

/-- What a whole run keeps. -/
theorem run (ok : w.Bounded ceiling) {moves : List (ι × Move τ ς)} {last : Feeding ι τ ς}
    (h : w.run moves = some last) : last.Bounded ceiling := by
  induction moves generalizing w with
  | nil =>
    cases h
    exact ok
  | cons entry moves ih =>
    obtain ⟨who, move⟩ := entry
    obtain ⟨next, hstep, hrest⟩ := Option.bind_eq_some_iff.mp h
    exact ih (ok.step hstep) hrest

end Bounded

/-! ### The bound is reached -/

/-- Some run leads from one state to the other. -/
def Reaches (w last : Feeding ι τ ς) : Prop := ∃ moves, w.run moves = some last

theorem run_append (w : Feeding ι τ ς) (first second : List (ι × Move τ ς)) :
    w.run (first ++ second) = (w.run first).bind fun next => next.run second := by
  induction first generalizing w with
  | nil => rfl
  | cons entry first ih =>
    obtain ⟨who, move⟩ := entry
    rw [List.cons_append, run, run, Option.bind_assoc]
    exact Option.bind_congr fun next _ => ih next

theorem Reaches.trans {last : Feeding ι τ ς} (h : w.Reaches next) (hnext : next.Reaches last) :
    w.Reaches last := by
  obtain ⟨first, hfirst⟩ := h
  obtain ⟨second, hsecond⟩ := hnext
  exact ⟨first ++ second, by rw [run_append, hfirst, Option.bind_some, hsecond]⟩

theorem reaches_step {crew : Crew ι τ ς} (hallows : w.allows who move = true)
    (hstep : w.crew.step who move = some crew) :
    w.Reaches ⟨crew, w.dueAfter who move, max w.peak crew.scheduler.sources.length⟩ := by
  refine ⟨[(who, move)], ?_⟩
  rw [run, step, if_pos hallows, hstep]
  rfl

/-- A thread that is alone with a scheduler whose queue is open. -/
structure Position (who : ι) (frames : List (Frame τ ς)) (asker : Option ι) (sources : List ς)
    (ceiling count : Nat) (w : Feeding ι τ ς) : Prop where
  stack : w.crew.stack who = frames
  asker_eq : w.crew.asker = asker
  opened : w.crew.scheduler.queue.closed = false
  sources_eq : w.crew.scheduler.sources = sources
  capacity : w.crew.scheduler.capacity = ⟨ceiling, count⟩
  peak_eq : w.peak = sources.length

namespace Position

variable {sources left kept : List ς} {source : ς} {count : Nat}

theorem addSource (h : w.Position who [] none sources ceiling count) (source : ς) :
    ∃ next : Feeding ι τ ς, w.Reaches next ∧
      next.Position who [] none (sources ++ [source]) ceiling count := by
  have hstep : w.crew.step who (.addSource source) =
      some { w.crew with scheduler := w.crew.scheduler.addSource source } := by
    simp [Crew.step, Crew.canBegin, h.stack, h.asker_eq]
  have hsources : w.crew.scheduler.sources ++ [source] = sources ++ [source] := by
    rw [h.sources_eq]
  refine ⟨_, reaches_step rfl hstep, h.stack, h.asker_eq, h.opened, hsources, h.capacity, ?_⟩
  show max w.peak (w.crew.scheduler.sources ++ [source]).length = _
  rw [hsources, h.peak_eq, List.length_append]
  omega

theorem checkCapacity (h : w.Position who [] none sources ceiling count) (hroom : count < ceiling) :
    ∃ next : Feeding ι τ ς, w.Reaches next ∧
      next.Position who [.asking sources []] (some who) sources ceiling count := by
  have hstep : w.crew.step who .checkCapacity =
      some { w.crew.push who (.asking w.crew.scheduler.sources []) with asker := some who } := by
    simp [Crew.step, Crew.canBegin, h.stack, h.asker_eq, Capacity.hasRoom, h.capacity, hroom]
  refine ⟨_, reaches_step rfl hstep, ?_, rfl, h.opened, h.sources_eq, h.capacity, ?_⟩
  · rw [← h.sources_eq, ← h.stack]
    exact Crew.put_stack _ _ _
  · show max w.peak w.crew.scheduler.sources.length = _
    rw [h.peak_eq, h.sources_eq, Nat.max_self]

theorem ask {below : List (Frame τ ς)} {asker : Option ι}
    (h : w.Position who (.asking (source :: left) kept :: below) asker sources ceiling count) :
    ∃ next : Feeding ι τ ς, w.Reaches next ∧ next.due = true ∧
      next.Position who (.adding source :: .asking left kept :: below) asker sources ceiling
        count := by
  have hstep : w.crew.step who .advance =
      some (w.crew.put who (.adding source :: .asking left kept :: below)) := by
    rw [Crew.step, Crew.advance, h.stack]
  refine ⟨_, reaches_step rfl hstep, ?_, Crew.put_stack _ _ _, h.asker_eq, h.opened, h.sources_eq,
    h.capacity, ?_⟩
  · rw [dueAfter, h.stack]
  · show max w.peak w.crew.scheduler.sources.length = _
    rw [h.peak_eq, h.sources_eq, Nat.max_self]

theorem add [Nonempty τ] {below : List (Frame τ ς)} (hdue : w.due = true)
    (h : w.Position who (.adding source :: below) (some who) sources ceiling count) :
    ∃ next : Feeding ι τ ς, w.Reaches next ∧
      next.Position who (.adding source :: below) (some who) sources ceiling (count + 1) := by
  obtain ⟨task⟩ := ‹Nonempty τ›
  let job : Job τ := ⟨"", 1, task⟩
  have hallows : w.allows who (.enqueue job .low) = true := by
    simp [allows, h.stack, hdue, job]
  have hcharge : w.crew.step who (.enqueue job .low) = some (w.crew.charge who job .low) := by
    refine Crew.step_enqueue job .low ?_ ?_
    · rw [Crew.canBegin, h.stack]
    · simp [Crew.canCount, h.asker_eq]
  have hstack : (w.crew.charge who job .low).stack who =
      .charged job .low :: .adding source :: below :=
    (Crew.put_stack _ _ _).trans (congrArg _ h.stack)
  have hqueue : (w.crew.charge who job .low).scheduler.queue.enqueue? job .low =
      some ⟨PriorityQueue.place job .low w.crew.scheduler.queue.entries, false⟩ := by
    simp [PriorityQueue.enqueue?, Crew.charge, Crew.push, Crew.put, h.opened]
  have hplace : (w.crew.charge who job .low).step who .advance =
      some { (w.crew.charge who job .low).put who (.adding source :: below) with
        scheduler := { (w.crew.charge who job .low).scheduler with
          queue := ⟨PriorityQueue.place job .low w.crew.scheduler.queue.entries, false⟩ }
        accepted := (w.crew.charge who job .low).accepted ++ [job] } := by
    simp only [Crew.step, Crew.advance, hstack, hqueue]
  have hpeak : max w.peak w.crew.scheduler.sources.length = sources.length := by
    rw [h.peak_eq, h.sources_eq, Nat.max_self]
  refine ⟨_, (reaches_step hallows hcharge).trans (reaches_step rfl hplace), Crew.put_stack _ _ _,
    h.asker_eq, rfl, h.sources_eq, ?_, ?_⟩
  · exact congrArg (Capacity.charge · 1) h.capacity
  · exact (congrArg (max · w.crew.scheduler.sources.length) hpeak).trans
      (by rw [h.sources_eq, Nat.max_self])

theorem answer {below : List (Frame τ ς)} {asker : Option ι}
    (h : w.Position who (.adding source :: .asking left kept :: below) asker sources ceiling
      count) :
    ∃ next : Feeding ι τ ς, w.Reaches next ∧
      next.Position who (.asking left (kept ++ [source]) :: below) asker sources ceiling
        count := by
  have hstep : w.crew.step who (.answer (some source)) =
      some (w.crew.put who (.asking left (kept ++ [source]) :: below)) := by
    rw [Crew.step, h.stack]
    rfl
  refine ⟨_, reaches_step rfl hstep, Crew.put_stack _ _ _, h.asker_eq, h.opened, h.sources_eq,
    h.capacity, ?_⟩
  show max w.peak w.crew.scheduler.sources.length = _
  rw [h.peak_eq, h.sources_eq, Nat.max_self]

/-- The sources that are left are asked, and each adds a job and stays. -/
theorem pulls [Nonempty τ]
    (h : w.Position who [.asking left kept] (some who) sources ceiling count) :
    ∃ next : Feeding ι τ ς, w.Reaches next ∧
      next.Position who [.asking [] (kept ++ left)] (some who) sources ceiling
        (count + left.length) := by
  induction left generalizing w kept count with
  | nil =>
    rw [List.append_nil]
    exact ⟨w, ⟨[], rfl⟩, h⟩
  | cons source left ih =>
    obtain ⟨asked, hasked, hdue, hask⟩ := h.ask
    obtain ⟨added, hadded, hadd⟩ := hask.add hdue
    obtain ⟨answered, hanswered, hanswer⟩ := hadd.answer
    obtain ⟨last, hlast, hrest⟩ := ih hanswer
    refine ⟨last, ((hasked.trans hadded).trans hanswered).trans hlast, ?_⟩
    rw [List.append_assoc, List.singleton_append] at hrest
    rw [List.length_cons, Nat.add_comm left.length, ← Nat.add_assoc]
    exact hrest

theorem finish (h : w.Position who [.asking [] sources] (some who) sources ceiling count) :
    ∃ next : Feeding ι τ ς, w.Reaches next ∧
      next.Position who [] none sources ceiling count := by
  have hstep : w.crew.step who .advance =
      some { w.crew.put who [] with
        scheduler := { w.crew.scheduler with sources }, asker := none } := by
    rw [Crew.step, Crew.advance, h.stack]
  refine ⟨_, reaches_step rfl hstep, Crew.put_stack _ _ _, rfl, h.opened, rfl, h.capacity, ?_⟩
  show max w.peak sources.length = _
  rw [h.peak_eq, Nat.max_self]

/-- A round in which every source adds a job. -/
theorem round [Nonempty τ] (h : w.Position who [] none sources ceiling count)
    (hroom : count < ceiling) :
    ∃ next : Feeding ι τ ς, w.Reaches next ∧
      next.Position who [] none sources ceiling (count + sources.length) := by
  obtain ⟨begun, hbegun, hbegin⟩ := h.checkCapacity hroom
  obtain ⟨asked, hasked, hask⟩ := hbegin.pulls
  obtain ⟨last, hlast, hfinish⟩ := hask.finish
  exact ⟨last, (hbegun.trans hasked).trans hlast, hfinish⟩

/-- Rounds of a single source bring the count up to the ceiling, one by one. -/
theorem rounds [Nonempty τ] (h : w.Position who [] none [source] ceiling 0) :
    ∀ goal ≤ ceiling, ∃ next : Feeding ι τ ς, w.Reaches next ∧
      next.Position who [] none [source] ceiling goal := by
  intro goal
  induction goal with
  | zero => exact fun _ => ⟨w, ⟨[], rfl⟩, h⟩
  | succ goal ih =>
    intro hle
    obtain ⟨next, hnext, hposition⟩ := ih (by omega)
    obtain ⟨last, hlast, hround⟩ := hposition.round hle
    exact ⟨last, hnext.trans hlast, hround⟩

/-- More sources are registered. -/
theorem register (h : w.Position who [] none sources ceiling count) (source : ς) (more : Nat) :
    ∃ next : Feeding ι τ ς, w.Reaches next ∧
      next.Position who [] none (sources ++ List.replicate more source) ceiling count := by
  induction more with
  | zero =>
    rw [List.replicate_zero, List.append_nil]
    exact ⟨w, ⟨[], rfl⟩, h⟩
  | succ more ih =>
    obtain ⟨next, hnext, hposition⟩ := ih
    obtain ⟨last, hlast, hadded⟩ := hposition.addSource source
    rw [List.append_assoc, ← List.replicate_succ'] at hadded
    exact ⟨last, hnext.trans hlast, hadded⟩

end Position

/--
With at most `n` sources registered at one time, the count gets up to `n - 1` above the ceiling,
and no further.
-/
theorem isGreatest_inFlight [Nonempty ι] [Nonempty τ] [Nonempty ς] {ceiling n : Nat}
    (hceiling : 1 ≤ ceiling) (hn : 1 ≤ n) :
    IsGreatest
      {count | ∃ moves, ∃ w : Feeding ι τ ς, (start ceiling).run moves = some w ∧ w.peak ≤ n ∧
        w.crew.inFlight = count}
      (ceiling + (n - 1)) := by
  constructor
  · obtain ⟨who⟩ := ‹Nonempty ι›
    obtain ⟨source⟩ := ‹Nonempty ς›
    have hstart : (start ceiling : Feeding ι τ ς).Position who [] none [] ceiling 0 :=
      ⟨rfl, rfl, rfl, rfl, rfl, rfl⟩
    -- One source brings the count to just below the ceiling, and then all of them add a job.
    obtain ⟨first, hfirst, hregistered⟩ := hstart.addSource source
    obtain ⟨filled, hfilled, hrounds⟩ := hregistered.rounds (ceiling - 1) (Nat.sub_le _ _)
    obtain ⟨grown, hgrown, hregister⟩ := hrounds.register source (n - 1)
    obtain ⟨last, hlast, hround⟩ := hregister.round (by omega)
    obtain ⟨moves, hmoves⟩ := ((hfirst.trans hfilled).trans hgrown).trans hlast
    have hlength : ([source] ++ List.replicate (n - 1) source).length = n := by
      rw [List.length_append, List.length_singleton, List.length_replicate]
      omega
    refine ⟨moves, last, hmoves, ?_, ?_⟩
    · rw [hround.peak_eq, hlength]
    · rw [Crew.inFlight, hround.capacity, hlength]
      show ceiling - 1 + n = _
      omega
  · rintro count ⟨moves, w, hrun, hpeak, rfl⟩
    have hle := ((bounded_start ceiling).run hrun).inFlight_le
    omega

end Steps

theorem isGreatest_inFlight_two :
    1 ≤ 1 ∧ 1 ≤ 2 ∧ IsGreatest
      {count | ∃ moves, ∃ w : Feeding (Fin 1) Unit Unit, (start 1).run moves = some w ∧
        w.peak ≤ 2 ∧ w.crew.inFlight = count} 2 :=
  ⟨by decide, by decide, isGreatest_inFlight (by decide) (by decide)⟩

/-- A round with two sources, each of which adds its last job. -/
def twoSources : List (Fin 1 × Move Unit Unit) :=
  [(0, .addSource ()), (0, .addSource ()), (0, .checkCapacity),
    (0, .advance), (0, .enqueue ⟨"first", 1, ()⟩ .high), (0, .advance), (0, .answer none),
    (0, .advance), (0, .enqueue ⟨"second", 1, ()⟩ .high), (0, .advance), (0, .answer none),
    (0, .advance)]

/-- The ceiling does not bound the count. -/
theorem inFlight_twoSources :
    ¬ ∀ (ceiling : Nat) (moves : List (Fin 1 × Move Unit Unit)) (w : Feeding (Fin 1) Unit Unit),
      1 ≤ ceiling → (start ceiling).run moves = some w → w.crew.inFlight ≤ ceiling := by
  intro h
  have hle : 2 ≤ 1 := h 1 twoSources _ (by decide) rfl
  exact absurd hle (by decide)

end Feeding

end DocIndex.Work
