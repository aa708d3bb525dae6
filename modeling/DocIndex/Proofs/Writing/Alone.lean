/-
A service with one worker.

Where nobody else is at work, the steps of a service in a row are the functions of its pipeline.
Whoever ended a turn delivers until nothing is left to deliver, which is what a sequencer does when
it settles; so doing a task is `perform`, and shutting, draining and dropping is `close`.
-/
import DocIndex.Proofs.Writing.Tasks

namespace DocIndex

open Work
open Sequencer (readyEntries)

namespace Work.Sequencer

variable {α : Type} (s : Sequencer α)

/-- What is left behind starts with a pending turn, so nothing more can be collected. -/
theorem completedTurns_behind :
    s.behind.dropWhile (fun entry => !entry.2.isPending) = s.behind ∧
      completedTurns s.behind = [] := by
  cases hbehind : s.behind with
  | nil => exact ⟨rfl, rfl⟩
  | cons entry rest =>
      have hne : s.behind ≠ [] := by rw [hbehind]; exact List.cons_ne_nil _ _
      have hpending : (!(s.behind.head hne).2.isPending) = false := List.head_dropWhile_not _ hne
      simp only [hbehind, List.head_cons, Bool.not_eq_false'] at hpending
      simp [completedTurns, hpending]

/-- Looking again after everything was handed over ends the delivery. -/
theorem collect_collect :
    ({ s.collect with collected := [] } : Sequencer α).collect = s.settle.2 := by
  obtain ⟨hturns, hnone⟩ := s.completedTurns_behind
  have hcollect : ({ s.collect with collected := [] } : Sequencer α).collect =
      { s.collect with
        turns := s.behind.dropWhile fun entry => !entry.2.isPending
        delivering := !((completedTurns s.behind).filterMap Turn.value?).isEmpty
        collected := (completedTurns s.behind).filterMap Turn.value? } := rfl
  rw [hcollect, hturns, hnone]
  rfl

/-- Who finds nothing to collect ends the delivery at once. -/
theorem settle_of_none (h : readyEntries s.front = []) :
    s.settle = ([], s.collect) ∧ s.collect.delivering = false := by
  have hcollected : s.collect.collected = [] := by rw [collect_collected, h]; rfl
  have hdelivering : s.collect.delivering = false := by rw [collect_delivering, h]; rfl
  refine ⟨?_, hdelivering⟩
  unfold settle
  dsimp only
  rw [hcollected, ← hdelivering, ← hcollected]

end Work.Sequencer

namespace WritePipeline

variable {σ : Type} [Storage σ] (settings : WriteSettings)

/-- A delivery does not look at the turns. -/
theorem deliver_sequencer (p : WritePipeline σ) (sequencer : Sequencer Delivery)
    (delivery : Delivery) : ({ p.deliver settings delivery with sequencer } : WritePipeline σ) =
      deliver settings { p with sequencer } delivery := by
  cases delivery <;> rfl

theorem foldl_deliver_sequencer (sequencer : Sequencer Delivery) (deliveries : List Delivery) :
    ∀ p : WritePipeline σ,
      ({ deliveries.foldl (deliver settings) p with sequencer } : WritePipeline σ) =
        deliveries.foldl (deliver settings) { p with sequencer } := by
  induction deliveries with
  | nil => intro p; rfl
  | cons delivery rest ih =>
      intro p
      rw [List.foldl_cons, List.foldl_cons, ih, deliver_sequencer]

end WritePipeline

namespace Service

variable {ι σ : Type} [DecidableEq ι] [Storage σ] {settings : WriteSettings}
  {w middle : Service ι σ} {who : ι}

theorem run_append {moves rest : List (ι × Move)} : ∀ {w : Service ι σ},
    w.run settings moves = some middle →
    w.run settings (moves ++ rest) = middle.run settings rest := by
  induction moves with
  | nil =>
      intro w h
      obtain rfl := Option.some.inj h
      rfl
  | cons move moves ih =>
      intro w h
      rw [run] at h
      rw [List.cons_append, run]
      split at h
      · exact ih h
      · cases h

/-- One who has values in hand can hand them over. -/
theorem run_sinks (settings : WriteSettings) :
    ∀ {entries : List (TurnKey × Delivery)} {w : Service ι σ},
    w.inHand who = some (entries.map Prod.fst) →
    w.pipeline.sequencer.collected = entries.map Prod.snd →
    ∃ moves last, w.run settings moves = some last ∧
      last.pipeline = (entries.map Prod.snd).foldl (WritePipeline.deliver settings)
        { w.pipeline with sequencer := { w.pipeline.sequencer with collected := [] } } ∧
      last.inHand who = some [] ∧ last.doomed = w.doomed
  | [], w, hhand, hcollected => by
      refine ⟨[], w, rfl, ?_, hhand, rfl⟩
      rw [List.map_nil] at hcollected
      rw [← hcollected]
      rfl
  | (turn, delivery) :: rest, w, hhand, hcollected => by
      let sequencer := { w.pipeline.sequencer with collected := rest.map Prod.snd }
      have hact : w.act who .sink = some (w.withShop
          ⟨sequencer, w.held, Function.update w.inHand who (some (rest.map Prod.fst)), w.given,
            w.sunk ++ [(turn, delivery)]⟩) := by
        have hdeliver : w.shop.sequencer.deliver = some (delivery, sequencer) := by
          show Sequencer.deliver w.pipeline.sequencer = _
          rw [Sequencer.deliver, hcollected]
          rfl
        have hhand' : w.shop.inHand who = some (turn :: rest.map Prod.fst) := hhand
        simp only [act, Workshop.step, hhand', hdeliver, Option.map_some]
        rfl
      let p := WritePipeline.deliver settings { w.pipeline with sequencer } delivery
      let next : Service ι σ := { w with
        pipeline := p
        inHand := Function.update w.inHand who (some (rest.map Prod.fst))
        sunk := w.sunk ++ [(turn, delivery)]
        arrived := w.arrived ++ [⟨turn, delivery, w.pipeline.store, p.store⟩] }
      have hstep : w.step settings who .sink = some next := by
        simp only [step, sink, hact]
        simp only [withShop, List.getLast?_concat]
        rfl
      have hframe : p.sequencer = sequencer :=
        (WritePipeline.deliver_frame settings { w.pipeline with sequencer } delivery).1
      have hnext : next.inHand who = some (rest.map Prod.fst) := Function.update_self _ _ _
      have hsequencer : next.pipeline.sequencer = sequencer := hframe
      obtain ⟨moves, last, hrun, hpipeline, hlast, hdoomed⟩ :=
        run_sinks settings hnext (congrArg Sequencer.collected hsequencer)
      refine ⟨(who, .sink) :: moves, last, ?_, ?_, hlast, hdoomed⟩
      · rw [run, hstep]
        exact hrun
      · rw [hpipeline, List.map_cons, List.foldl_cons]
        refine congrArg (fun q => (rest.map Prod.snd).foldl (WritePipeline.deliver settings) q) ?_
        rw [hsequencer]
        exact WritePipeline.deliver_sequencer settings { w.pipeline with sequencer }
          { w.pipeline.sequencer with collected := [] } delivery

/-- One who delivers has collected; he has in hand what he found, unless there is nothing. -/
def collected (w : Service ι σ) (who : ι) : Service ι σ :=
  w.withShop ⟨w.pipeline.sequencer.collect, w.held,
    Function.update w.inHand who (if w.pipeline.sequencer.collect.delivering
      then some ((readyEntries w.pipeline.sequencer.front).map Prod.fst) else none),
    w.given, w.sunk⟩

theorem step_collect (settings : WriteSettings) (w : Service ι σ)
    (hhand : w.inHand who = some []) : w.step settings who .collect = some (w.collected who) := by
  have hshop : w.shop.inHand who = some [] := hhand
  simp only [step, act, Workshop.step, hshop, if_true, Option.map_some]
  rfl

/-- Whoever has just ended a turn delivers all that can be delivered. -/
theorem run_settle (settings : WriteSettings) (w : Service ι σ) (hhand : w.inHand who = some []) :
    ∃ moves last, w.run settings moves = some last ∧
      last.pipeline = w.pipeline.sequencer.settle.1.foldl (WritePipeline.deliver settings)
        { w.pipeline with sequencer := w.pipeline.sequencer.settle.2 } ∧
      last.inHand who = none ∧ last.doomed = w.doomed := by
  have hcollect := step_collect settings w hhand
  have hinHand : (w.collected who).inHand who = if w.pipeline.sequencer.collect.delivering
      then some ((readyEntries w.pipeline.sequencer.front).map Prod.fst) else none :=
    Function.update_self _ _ _
  by_cases hnone : readyEntries w.pipeline.sequencer.front = []
  · obtain ⟨hsettle, hdelivering⟩ := Sequencer.settle_of_none _ hnone
    refine ⟨[(who, .collect)], w.collected who, by rw [run, hcollect]; rfl, ?_, ?_, rfl⟩
    · rw [hsettle]
      rfl
    · rw [hinHand, hdelivering]
      rfl
  · have hdelivering : w.pipeline.sequencer.collect.delivering = true := by
      simpa [Sequencer.collect_delivering] using hnone
    rw [hdelivering, if_pos rfl] at hinHand
    -- The values are handed over, and then there is nothing left to collect.
    obtain ⟨moves, middle, hsinks, hpipeline, hmiddle, hdoomed⟩ := run_sinks settings hinHand
      (Sequencer.collect_collected w.pipeline.sequencer)
    have hsequencer : middle.pipeline.sequencer =
        { w.pipeline.sequencer.collect with collected := [] } := by
      rw [hpipeline]
      exact (WritePipeline.foldl_deliver_frame _ _).1
    have hagain := Sequencer.collect_collect w.pipeline.sequencer
    rw [← hsequencer] at hagain
    refine ⟨(who, .collect) :: (moves ++ [(who, .collect)]), middle.collected who, ?_, ?_, ?_,
      hdoomed⟩
    · rw [run, hcollect]
      show run settings _ _ = _
      rw [run_append hsinks, run, step_collect settings middle hmiddle]
      rfl
    · show ({ middle.pipeline with sequencer := middle.pipeline.sequencer.collect } :
        WritePipeline σ) = _
      rw [hagain, hpipeline, WritePipeline.foldl_deliver_sequencer, ← Sequencer.collect_collected]
      rfl
    · show Function.update middle.inHand who _ who = none
      rw [Function.update_self, hagain]
      rfl

/-! ### Shutting down -/

/-- Dropping a task is to give it up. -/
theorem run_discard (settings : WriteSettings) {task : WriteTask} {rest : List WriteTask}
    (hdoomed : w.doomed = task :: rest) (hfree : w.inHand who = none)
    (hquiet : w.pipeline.sequencer.delivering = false) (hturn : task.turn ∈ w.held) :
    ∃ moves last, w.run settings moves = some last ∧
      last.pipeline = w.pipeline.abandon settings task ∧ last.inHand who = none ∧
      last.doomed = rest := by
  let shop := w.shop.finish who task.turn .abandoned
  let next : Service ι σ := { w.withShop shop with
    pipeline := WritePipeline.notice { w.pipeline with sequencer := shop.sequencer } task
    doomed := rest
    lost := task :: w.lost }
  have hstep : w.step settings who (.discard 0) = some next := by
    have hheld : task.turn ∈ w.shop.held := hturn
    simp only [step, begin?, discard, act, Workshop.step, hfree, hdoomed, if_pos hheld,
      Option.isNone_none, if_true, List.getElem?_cons_zero, List.eraseIdx_cons_zero,
      Option.map_some]
    rfl
  have hhand : next.inHand who = some [] := by
    show (if w.pipeline.sequencer.delivering then w.inHand
      else Function.update w.inHand who (some [])) who = some []
    rw [hquiet]
    exact Function.update_self _ _ _
  obtain ⟨moves, last, hrun, hpipeline, hlast, hrest⟩ := run_settle settings next hhand
  refine ⟨(who, .discard 0) :: moves, last, ?_, ?_, hlast, hrest⟩
  · rw [run, hstep]
    exact hrun
  · rw [hpipeline]
    cases task <;> rfl

theorem abandon_delivering (settings : WriteSettings) (p : WritePipeline σ) (task : WriteTask) :
    (p.abandon settings task).sequencer.delivering = false := by
  cases task with
  | convert requests turn =>
      exact congrArg Sequencer.delivering (WritePipeline.finishTurn_frame settings p turn _).1
  | commit turn ticket =>
      exact congrArg Sequencer.delivering (WritePipeline.finishTurn_frame settings _ turn _).1

/-- Dropping all tasks is to give them up one by one. -/
theorem run_discards (settings : WriteSettings) : ∀ {tasks : List WriteTask} {w : Service ι σ},
    w.doomed = tasks → w.Manned → w.inHand who = none →
    w.pipeline.sequencer.delivering = false →
    ∃ moves last, w.run settings moves = some last ∧
      last.pipeline = tasks.foldl (WritePipeline.abandon settings) w.pipeline ∧
      last.inHand who = none ∧ last.doomed = []
  | [], w, hdoomed, _, hfree, _ => ⟨[], w, rfl, rfl, hfree, hdoomed⟩
  | task :: rest, w, hdoomed, hmanned, hfree, hquiet => by
      have htask : task ∈ w.alive := by
        refine List.mem_append_right _ (List.mem_append_right _ (List.mem_append_right _ ?_))
        rw [hdoomed]
        exact List.mem_cons_self
      obtain ⟨moves, next, hrun, hpipeline, hnext, hrest⟩ :=
        run_discard settings hdoomed hfree hquiet (hmanned.turn_mem htask)
      have hmanned' : next.Manned := run_keeps Manned.moved hmanned hrun
      obtain ⟨moves', last, hrun', hpipeline', hlast, hnone⟩ := run_discards settings hrest hmanned'
        hnext (by rw [hpipeline]; exact abandon_delivering settings _ task)
      refine ⟨moves ++ moves', last, ?_, ?_, hlast, hnone⟩
      · rw [run_append hrun, hrun']
      · rw [hpipeline', hpipeline]
        rfl

/-- **A shutdown that nobody interferes with closes the pipeline.** -/
theorem run_close (settings : WriteSettings) (hmanned : w.Manned) (hfree : w.inHand who = none)
    (hquiet : w.pipeline.sequencer.delivering = false) (hdoomed : w.doomed = [])
    (hsources : w.pipeline.scheduler.sources = []) :
    ∃ moves last, w.run settings moves = some last ∧
      last.pipeline = w.pipeline.close settings ∧ last.inHand who = none ∧ last.doomed = [] := by
  let drained : Service ι σ := { w with
    pipeline := { w.pipeline with scheduler := w.pipeline.scheduler.close.2 }
    doomed := w.pipeline.scheduler.close.1.map Job.task }
  have hrun : w.run settings [(who, .shut), (who, .drain)] = some drained := by
    simp only [run, step, begin?, hfree, Option.isNone_none, if_true, shut, drain, hdoomed,
      Scheduler.shut, List.append_nil]
    rfl
  have hmanned' : drained.Manned := run_keeps Manned.moved hmanned hrun
  obtain ⟨moves, last, hdiscards, hpipeline, hlast, hnone⟩ :=
    run_discards settings (w := drained) rfl hmanned' hfree hquiet
  refine ⟨[(who, .shut), (who, .drain)] ++ moves, last, ?_, ?_, hlast, hnone⟩
  · rw [run_append hrun, hdiscards]
  · rw [hpipeline, List.foldl_map]
    simp only [WritePipeline.close, hsources]
    rfl

end Service

end DocIndex
