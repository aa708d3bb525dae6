/-
Several workers at one sequencer.

A workshop is a sequencer together with what its workers know: which turns are held by
somebody who can still split or end them, and what a worker who delivers has in hand.  It also
keeps the history: which values were given to their turns and which were handed to the sink.
Every action is one step of one worker, and a run is any list of such steps, so that a run is
any interleaving.

The invariant `Sound` says where each given value is: it was handed to the sink, or the one
worker who delivers has it in hand, or its turn is still there.  The values of the first two
kinds stand in the order of their turns and ahead of all turns that are still there; that is
`Sequencer.Orderly`, which splitting keeps although it puts turns in the middle of the order.
While nobody delivers nothing is in hand and the first turn is pending, since whoever gave the
delivery up had just looked.
-/
import Mathlib.Data.List.Nodup
import Mathlib.Logic.Function.Basic
import DocIndex.Proofs.Work.Sequencer

namespace DocIndex.Work

open Sequencer (Orderly readyEntries)
open TurnKey (Before)

/-- What a worker does in one step. -/
inductive Action (α : Type) where
  | reserve
  | split (turn : TurnKey)
  /-- Ends a turn with a value, without delivering anything yet. -/
  | ready (turn : TurnKey) (value : α)
  /-- Ends a turn without a value. -/
  | drop (turn : TurnKey)
  /-- Collects the completed turns at the front, or gives the delivery up if there are none. -/
  | collect
  /-- Hands the next collected value to the sink. -/
  | sink

/-- A sequencer, its workers, and what happened so far. -/
structure Workshop (ι α : Type) where
  sequencer : Sequencer α
  /-- The turns that somebody can split or end. -/
  held : List TurnKey
  /-- For a worker who delivers, the turns of the values that he has in hand. -/
  inHand : ι → Option (List TurnKey)
  /-- The values that turns were ended with. -/
  given : List (TurnKey × α)
  /-- The values that the sink got, in that order. -/
  sunk : List (TurnKey × α)

namespace Workshop

variable {ι α : Type}

/-- Nothing is reserved, and nobody delivers. -/
def start : Workshop ι α := ⟨.empty, [], fun _ => none, [], []⟩

section Steps

variable [DecidableEq ι]

/-- Ends a turn; the worker takes the delivery up unless somebody delivers. -/
def finish (w : Workshop ι α) (who : ι) (turn : TurnKey) (outcome : Turn α) : Workshop ι α :=
  { w with
    sequencer := w.sequencer.complete turn outcome
    held := w.held.erase turn
    inHand :=
      if w.sequencer.delivering then w.inHand else Function.update w.inHand who (some []) }

/-- A step of a worker, if he can make it. -/
def step (w : Workshop ι α) (who : ι) : Action α → Option (Workshop ι α)
  | .reserve =>
    let (sequencer, turn) := w.sequencer.reserve
    some { w with sequencer, held := turn :: w.held }
  | .split turn =>
    if turn ∈ w.held then
      let (sequencer, part) := w.sequencer.split turn
      some { w with sequencer, held := part :: w.held }
    else none
  | .ready turn value =>
    if turn ∈ w.held then
      some { w.finish who turn (.ready value) with given := w.given ++ [(turn, value)] }
    else none
  | .drop turn => if turn ∈ w.held then some (w.finish who turn .abandoned) else none
  | .collect =>
    if w.inHand who = some [] then
      let sequencer := w.sequencer.collect
      let hand := (readyEntries w.sequencer.front).map Prod.fst
      let hand? := if sequencer.delivering then some hand else none
      some { w with sequencer, inHand := Function.update w.inHand who hand? }
    else none
  | .sink =>
    match w.inHand who, w.sequencer.deliver with
    | some (turn :: rest), some (value, sequencer) =>
      some { w with
        sequencer
        inHand := Function.update w.inHand who (some rest)
        sunk := w.sunk ++ [(turn, value)] }
    | _, _ => none

/-- The steps of workers one after the other, if all of them can be made. -/
def run (w : Workshop ι α) : List (ι × Action α) → Option (Workshop ι α)
  | [] => some w
  | (who, action) :: rest =>
    match w.step who action with
    | some next => run next rest
    | none => none

end Steps

/-- Who delivers: at most one worker, who has the collected values in hand. -/
def Manned (w : Workshop ι α) (hand : List (TurnKey × α)) : Prop :=
  if w.sequencer.delivering then
    ∃ who, w.inHand who = some (hand.map Prod.fst) ∧ ∀ other, other ≠ who → w.inHand other = none
  else
    hand = [] ∧ (∀ who, w.inHand who = none) ∧ w.sequencer.Waiting

/-- What holds after every step; `hand` is what was collected and not handed over yet. -/
structure Sound (w : Workshop ι α) (hand : List (TurnKey × α)) : Prop where
  orderly : Orderly w.sequencer ((w.sunk ++ hand).map Prod.fst)
  collected : w.sequencer.collected = hand.map Prod.snd
  /-- A turn can be ended as long as it is pending, and by one only. -/
  held : ∀ turn, turn ∈ w.held ↔
    ∃ parts, Table.find? w.sequencer.turns turn = some (.pending parts)
  heldOnce : w.held.Nodup
  /-- No value is lost and none is made up. -/
  accounted : ∀ turn value, (turn, value) ∈ w.given ↔
    (turn, value) ∈ w.sunk ++ hand ∨ Table.find? w.sequencer.turns turn = some (.ready value)
  givenOnce : (w.given.map Prod.fst).Nodup
  manned : w.Manned hand

namespace Sound

variable {w : Workshop ι α} {hand : List (TurnKey × α)}

theorem start : (Workshop.start : Workshop ι α).Sound [] where
  orderly := Orderly.empty
  collected := rfl
  held := by simp [Workshop.start, Sequencer.empty]
  heldOnce := List.nodup_nil
  accounted := by simp [Workshop.start, Sequencer.empty]
  givenOnce := List.nodup_nil
  manned := by
    show [] = [] ∧ (∀ _, none = none) ∧ Sequencer.Waiting Sequencer.empty
    exact ⟨rfl, fun _ => rfl, fun key outcome h => by simp [Sequencer.empty] at h⟩

/-! ### Reserving and splitting -/

theorem add (h : w.Sound hand) {sequencer : Sequencer α} {turn : TurnKey}
    (horderly : Orderly sequencer ((w.sunk ++ hand).map Prod.fst))
    (hadds : Orderly.Adds w.sequencer sequencer turn)
    (hfresh : turn ∉ (w.sunk ++ hand).map Prod.fst ++ Table.keys w.sequencer.turns) :
    ({ w with sequencer, held := turn :: w.held } : Workshop ι α).Sound hand where
  orderly := horderly
  collected := hadds.collected.trans h.collected
  held := by
    intro key
    rw [hadds.pending, ← h.held]
    exact List.mem_cons
  heldOnce := by
    refine List.nodup_cons.mpr ⟨fun hmem => ?_, h.heldOnce⟩
    obtain ⟨parts, hfound⟩ := (h.held turn).mp hmem
    exact hfresh (List.mem_append_right _ (Table.mem_keys_of_mem (Table.mem_of_find? hfound)))
  accounted := by
    intro key value
    rw [hadds.completed key (.ready value) rfl]
    exact h.accounted key value
  givenOnce := h.givenOnce
  manned := by
    have hmanned := h.manned
    unfold Manned at hmanned ⊢
    simp only [hadds.delivering]
    split at hmanned
    · rename_i hdelivering
      rw [if_pos hdelivering]
      exact hmanned
    · rename_i hdelivering
      rw [if_neg hdelivering]
      exact ⟨hmanned.1, hmanned.2.1, hadds.waiting hmanned.2.2⟩

theorem reserve (h : w.Sound hand) :
    ({ w with
      sequencer := w.sequencer.reserve.1
      held := w.sequencer.reserve.2 :: w.held } : Workshop ι α).Sound hand :=
  h.add h.orderly.reserve h.orderly.reserve_adds h.orderly.reserve_fresh

theorem split (h : w.Sound hand) {turn : TurnKey} (hturn : turn ∈ w.held) :
    ({ w with
      sequencer := (w.sequencer.split turn).1
      held := (w.sequencer.split turn).2 :: w.held } : Workshop ι α).Sound hand := by
  obtain ⟨parts, hfound⟩ := (h.held turn).mp hturn
  exact h.add (h.orderly.split hfound) (h.orderly.split_adds hfound) (h.orderly.split_fresh hfound)

/-! ### Ending a turn -/

variable [DecidableEq ι]

theorem finish_manned (h : w.Sound hand) (who : ι) (turn : TurnKey) (outcome : Turn α) :
    (w.finish who turn outcome).Manned hand := by
  have hmanned := h.manned
  unfold Manned at hmanned
  show ∃ who', _
  simp only [finish]
  split at hmanned
  · rename_i hdelivering
    simpa only [hdelivering, if_true] using hmanned
  · rename_i hdelivering
    obtain ⟨rfl, hnone, -⟩ := hmanned
    rw [if_neg hdelivering]
    refine ⟨who, by simp, fun other hother => ?_⟩
    rw [Function.update_of_ne hother]
    exact hnone other

theorem finish_held (h : w.Sound hand) (who : ι) {turn : TurnKey} {outcome : Turn α}
    (hended : outcome.isPending = false) (key : TurnKey) :
    key ∈ (w.finish who turn outcome).held ↔
      ∃ parts, Table.find? (w.finish who turn outcome).sequencer.turns key =
        some (.pending parts) := by
  show key ∈ w.held.erase turn ↔
    ∃ parts, Table.find? (Table.insert w.sequencer.turns turn outcome) key = some (.pending parts)
  rw [h.heldOnce.mem_erase_iff, h.held]
  by_cases hkey : key = turn
  · subst hkey
    refine iff_of_false (fun hne => hne.1 rfl) ?_
    rintro ⟨parts, hfound⟩
    rw [Table.find?_insert_self, Option.some.injEq] at hfound
    rw [hfound] at hended
    simp [Turn.isPending] at hended
  · rw [Table.find?_insert_ne _ hkey]
    exact and_iff_right hkey

theorem drop (h : w.Sound hand) (who : ι) {turn : TurnKey} (hturn : turn ∈ w.held) :
    (w.finish who turn .abandoned).Sound hand := by
  obtain ⟨parts, hfound⟩ := (h.held turn).mp hturn
  have hmem := Table.mem_keys_of_mem (Table.mem_of_find? hfound)
  refine ⟨h.orderly.complete hmem rfl, h.collected, h.finish_held who rfl, h.heldOnce.erase _,
    fun key value => ?_, h.givenOnce, h.finish_manned who turn _⟩
  rw [show (w.finish who turn .abandoned).given = w.given from rfl, h.accounted key value]
  refine or_congr Iff.rfl ?_
  show _ ↔ Table.find? (Table.insert w.sequencer.turns turn .abandoned) key = _
  by_cases hkey : key = turn
  · subst hkey
    simp [hfound]
  · rw [Table.find?_insert_ne _ hkey]

theorem ready (h : w.Sound hand) (who : ι) {turn : TurnKey} (hturn : turn ∈ w.held) (value : α) :
    ({ w.finish who turn (.ready value) with
      given := w.given ++ [(turn, value)] } : Workshop ι α).Sound hand := by
  obtain ⟨parts, hfound⟩ := (h.held turn).mp hturn
  have hmem := Table.mem_keys_of_mem (Table.mem_of_find? hfound)
  -- A turn that is still pending was given nothing yet.
  have hnotOut : ∀ v, (turn, v) ∉ w.sunk ++ hand := by
    intro v hout
    exact (h.orderly.ahead turn (List.mem_map.mpr ⟨_, hout, rfl⟩) turn hmem).ne rfl
  have hnotGiven : ∀ v, (turn, v) ∉ w.given := by
    intro v hgiven
    rcases (h.accounted turn v).mp hgiven with hout | hready
    · exact hnotOut v hout
    · rw [hfound] at hready
      simp at hready
  refine ⟨h.orderly.complete hmem rfl, h.collected, h.finish_held who rfl, h.heldOnce.erase _,
    fun key v => ?_, ?_, h.finish_manned who turn _⟩
  · show (key, v) ∈ w.given ++ [(turn, value)] ↔
      _ ∨ Table.find? (Table.insert w.sequencer.turns turn (.ready value)) key = _
    rw [List.mem_append, List.mem_singleton]
    by_cases hkey : key = turn
    · subst hkey
      rw [Table.find?_insert_self]
      constructor
      · rintro (hgiven | heq)
        · exact absurd hgiven (hnotGiven v)
        · exact Or.inr (by rw [(Prod.mk.inj heq).2])
      · rintro (hout | heq)
        · exact absurd hout (hnotOut v)
        · simp only [Option.some.injEq, Turn.ready.injEq] at heq
          exact Or.inr (by rw [heq])
    · rw [Table.find?_insert_ne _ hkey, h.accounted key v]
      exact or_iff_left fun heq => hkey (Prod.mk.inj heq).1
  · simp only [List.map_append, List.map_cons, List.map_nil]
    refine List.nodup_append.mpr ⟨h.givenOnce, List.nodup_singleton _, ?_⟩
    intro key hkey other hother heq
    rw [List.mem_singleton] at hother
    obtain ⟨⟨k, v⟩, hgiven, rfl⟩ := List.mem_map.mp hkey
    rw [show k = turn from heq.trans hother] at hgiven
    exact hnotGiven v hgiven

/-! ### Delivering -/

/-- A worker with something in hand is the one who delivers. -/
theorem deliverer (h : w.Sound hand) {who : ι} {turns : List TurnKey}
    (hwho : w.inHand who = some turns) :
    w.sequencer.delivering = true ∧ turns = hand.map Prod.fst ∧
      ∀ other, other ≠ who → w.inHand other = none := by
  have hmanned := h.manned
  unfold Manned at hmanned
  split at hmanned
  · rename_i hdelivering
    obtain ⟨someone, hhand, hothers⟩ := hmanned
    by_cases heq : who = someone
    · subst heq
      rw [hhand, Option.some.injEq] at hwho
      exact ⟨hdelivering, hwho.symm, hothers⟩
    · rw [hothers who heq] at hwho
      simp at hwho
  · rw [hmanned.2.1 who] at hwho
    simp at hwho

theorem collect (h : w.Sound hand) {who : ι} (hwho : w.inHand who = some []) :
    ({ w with
      sequencer := w.sequencer.collect
      inHand := Function.update w.inHand who
        (if w.sequencer.collect.delivering then
          some ((readyEntries w.sequencer.front).map Prod.fst) else none) } :
      Workshop ι α).Sound (readyEntries w.sequencer.front) := by
  obtain ⟨-, hempty, hothers⟩ := h.deliverer hwho
  obtain rfl : hand = [] := List.map_eq_nil_iff.mp hempty.symm
  have horderly := h.orderly.collect
  rw [← List.map_append, List.append_nil] at horderly
  have hsplit := Sequencer.front_append_behind w.sequencer
  have hbehind : Table.Sorted w.sequencer.behind :=
    h.orderly.sorted.sublist (List.dropWhile_sublist _)
  refine ⟨horderly, Sequencer.collect_collected _, fun key => ?_, h.heldOnce, fun key value => ?_,
    h.givenOnce, ?_⟩
  · rw [h.held]
    exact exists_congr fun parts => (Sequencer.collect_find?_pending h.orderly.sorted).symm
  · rw [h.accounted key value, List.append_nil, List.mem_append, Sequencer.mem_readyEntries]
    show _ ↔ _ ∨ Table.find? w.sequencer.behind key = _
    rw [← Table.mem_iff_find? h.orderly.sorted, ← Table.mem_iff_find? hbehind, ← hsplit,
      List.mem_append, or_assoc]
  · unfold Manned
    split
    · rename_i hdelivering
      refine ⟨who, ?_, fun other hother => ?_⟩
      · exact Function.update_self _ _ _
      · exact (Function.update_of_ne hother _ _).trans (hothers other hother)
    · rename_i hdelivering
      have hnone : readyEntries w.sequencer.front = [] := by
        simpa [Sequencer.collect_delivering] using hdelivering
      refine ⟨hnone, fun other => ?_, Sequencer.collect_waiting h.orderly.sorted⟩
      by_cases hother : other = who
      · subst hother
        exact Function.update_self _ _ _
      · exact (Function.update_of_ne hother _ _).trans (hothers other hother)

theorem sink {turn : TurnKey} {value : α} {rest : List (TurnKey × α)}
    (h : w.Sound ((turn, value) :: rest)) {who : ι}
    (hwho : w.inHand who = some (turn :: rest.map Prod.fst)) :
    ({ w with
      sequencer := { w.sequencer with collected := rest.map Prod.snd }
      inHand := Function.update w.inHand who (some (rest.map Prod.fst))
      sunk := w.sunk ++ [(turn, value)] } : Workshop ι α).Sound rest := by
  obtain ⟨hdelivering, -, hothers⟩ := h.deliverer hwho
  have hmove : w.sunk ++ [(turn, value)] ++ rest = w.sunk ++ (turn, value) :: rest := by simp
  refine ⟨?_, rfl, h.held, h.heldOnce, fun key v => ?_, h.givenOnce, ?_⟩
  · show Orderly _ ((w.sunk ++ [(turn, value)] ++ rest).map Prod.fst)
    rw [hmove]
    exact ⟨h.orderly.sorted, h.orderly.rooted, h.orderly.fresh, h.orderly.ordered, h.orderly.ahead⟩
  · show _ ↔ (key, v) ∈ w.sunk ++ [(turn, value)] ++ rest ∨ _
    rw [hmove]
    exact h.accounted key v
  · unfold Manned
    rw [if_pos hdelivering]
    refine ⟨who, Function.update_self _ _ _, fun other hother => ?_⟩
    exact (Function.update_of_ne hother _ _).trans (hothers other hother)

/-! ### Steps and runs -/

/-- Whoever has a value in hand can hand it over, and hands over the next one collected. -/
theorem sink_eq {turn : TurnKey} {value : α} {rest : List (TurnKey × α)}
    (h : w.Sound ((turn, value) :: rest)) {who : ι}
    (hwho : w.inHand who = some (turn :: rest.map Prod.fst)) :
    w.step who .sink = some { w with
      sequencer := { w.sequencer with collected := rest.map Prod.snd }
      inHand := Function.update w.inHand who (some (rest.map Prod.fst))
      sunk := w.sunk ++ [(turn, value)] } := by
  have hdeliver : w.sequencer.deliver =
      some (value, { w.sequencer with collected := rest.map Prod.snd }) := by
    rw [Sequencer.deliver, h.collected]
    rfl
  simp only [Workshop.step, hwho, hdeliver]

/-- What `sink` does is to hand over the next collected value. -/
theorem of_sink (h : w.Sound hand) {who : ι} {next : Workshop ι α}
    (hstep : w.step who .sink = some next) :
    ∃ turn value rest, hand = (turn, value) :: rest ∧
      w.inHand who = some (turn :: rest.map Prod.fst) ∧
      next.sunk = w.sunk ++ [(turn, value)] ∧ next.Sound rest := by
  simp only [Workshop.step] at hstep
  split at hstep
  · rename_i turn rest' value sequencer hwho hdeliver
    obtain ⟨-, hturns, -⟩ := h.deliverer hwho
    cases hand with
    | nil => simp at hturns
    | cons entry rest =>
        obtain ⟨rfl, rfl⟩ : turn = entry.1 ∧ rest' = rest.map Prod.fst := by simpa using hturns
        have hsound := h.sink hwho
        have heq := h.sink_eq hwho
        rw [show w.step who .sink = some next by
          simp only [Workshop.step, hwho, hdeliver]
          exact hstep] at heq
        rw [Option.some.inj heq]
        exact ⟨entry.1, entry.2, rest, rfl, hwho, rfl, hsound⟩
  · simp at hstep

/-- Every step keeps the invariant. -/
theorem step (h : w.Sound hand) {who : ι} {action : Action α} {next : Workshop ι α}
    (hstep : w.step who action = some next) : ∃ hand', next.Sound hand' := by
  cases action with
  | reserve =>
      simp only [Workshop.step, Option.some.injEq] at hstep
      exact ⟨hand, hstep ▸ h.reserve⟩
  | split turn =>
      simp only [Workshop.step, Option.ite_none_right_eq_some, Option.some.injEq] at hstep
      obtain ⟨hturn, rfl⟩ := hstep
      exact ⟨hand, h.split hturn⟩
  | ready turn value =>
      simp only [Workshop.step, Option.ite_none_right_eq_some, Option.some.injEq] at hstep
      obtain ⟨hturn, rfl⟩ := hstep
      exact ⟨hand, h.ready who hturn value⟩
  | drop turn =>
      simp only [Workshop.step, Option.ite_none_right_eq_some, Option.some.injEq] at hstep
      obtain ⟨hturn, rfl⟩ := hstep
      exact ⟨hand, h.drop who hturn⟩
  | collect =>
      simp only [Workshop.step, Option.ite_none_right_eq_some, Option.some.injEq] at hstep
      obtain ⟨hwho, rfl⟩ := hstep
      exact ⟨_, h.collect hwho⟩
  | sink =>
      obtain ⟨_, _, rest, _, _, _, hsound⟩ := h.of_sink hstep
      exact ⟨rest, hsound⟩

/-- Every run keeps the invariant. -/
theorem run {actions : List (ι × Action α)} : ∀ {w : Workshop ι α} {hand : List (TurnKey × α)},
    w.Sound hand → ∀ {last : Workshop ι α}, w.run actions = some last →
      ∃ hand', last.Sound hand' := by
  induction actions with
  | nil =>
      intro w hand h last hrun
      simp only [Workshop.run, Option.some.injEq] at hrun
      exact ⟨hand, hrun ▸ h⟩
  | cons first rest ih =>
      intro w hand h last hrun
      obtain ⟨who, action⟩ := first
      simp only [Workshop.run] at hrun
      split at hrun
      · rename_i next hstep
        obtain ⟨hand', hnext⟩ := h.step hstep
        exact ih hnext hrun
      · simp at hrun

end Sound

/-! ### What every run shows -/

/-- The turns that values were given to, and those that are still there. -/
def known (w : Workshop ι α) : List TurnKey :=
  w.given.map Prod.fst ++ Table.keys w.sequencer.turns

/-- Whether a turn is reserved or split off and was not ended. -/
def Pending (w : Workshop ι α) (turn : TurnKey) : Prop :=
  ∃ parts, Table.find? w.sequencer.turns turn = some (.pending parts)

/-- Values are delivered in the order of their turns, each once, and none is left behind. -/
structure DeliversInTurn [DecidableEq ι] (w : Workshop ι α) : Prop where
  /-- A turn that is reserved comes after all turns there were. -/
  reserved_last : ∀ who next, w.step who .reserve = some next →
    ∃ turn, next.held = turn :: w.held ∧ ∀ other ∈ w.known, Before other turn
  /-- A part comes before its turn, and after everything that came before its turn. -/
  part_right_before : ∀ who turn next, w.step who (.split turn) = some next →
    ∃ part, next.held = part :: w.held ∧ Before part turn ∧
      ∀ other ∈ w.known, Before other turn → Before other part
  sunk_increasing : (w.sunk.map Prod.fst).Pairwise Before
  /-- A turn is ended with a value at most once, and only such values reach the sink. -/
  given_once : (w.given.map Prod.fst).Nodup
  sunk_given : ∀ entry ∈ w.sunk, entry ∈ w.given
  /-- Nothing reaches the sink while a turn before it is pending. -/
  sink_after_pending : ∀ who next, w.step who .sink = some next →
    ∃ turn value, next.sunk = w.sunk ++ [(turn, value)] ∧
      ∀ other, w.Pending other → Before turn other
  /-- Whoever delivers can go on, and nobody else delivers. -/
  deliverer_moves : ∀ who turns, w.inHand who = some turns →
    ((w.step who .collect).isSome ∨ (w.step who .sink).isSome) ∧
      ∀ other, other ≠ who → w.inHand other = none
  /-- While nobody delivers, the first turn there is is pending. -/
  first_pending : (∀ who, w.inHand who = none) →
    ∀ entry, w.sequencer.turns.head? = some entry → entry.2.isPending = true
  /-- While nobody delivers, every value whose turn waits for no other has reached the sink. -/
  none_left_behind : (∀ who, w.inHand who = none) →
    ∀ entry ∈ w.given, (∀ other, w.Pending other → ¬Before other entry.1) → entry ∈ w.sunk

namespace Sound

variable {w : Workshop ι α} {hand : List (TurnKey × α)}

theorem mem_of_known (h : w.Sound hand) {turn : TurnKey} (hturn : turn ∈ w.known) :
    turn ∈ (w.sunk ++ hand).map Prod.fst ++ Table.keys w.sequencer.turns := by
  rcases List.mem_append.mp hturn with hgiven | hthere
  · obtain ⟨⟨key, value⟩, hmem, rfl⟩ := List.mem_map.mp hgiven
    rcases (h.accounted key value).mp hmem with hout | hready
    · exact List.mem_append_left _ (List.mem_map.mpr ⟨_, hout, rfl⟩)
    · exact List.mem_append_right _ (Table.mem_keys_of_mem (Table.mem_of_find? hready))
  · exact List.mem_append_right _ hthere

/-- With nobody delivering, nothing is in hand and every completed turn waits. -/
theorem quiet (h : w.Sound hand) (hnone : ∀ who, w.inHand who = none) :
    hand = [] ∧ w.sequencer.Waiting := by
  have hmanned := h.manned
  unfold Manned at hmanned
  split at hmanned
  · obtain ⟨who, hwho, -⟩ := hmanned
    rw [hnone who] at hwho
    simp at hwho
  · exact ⟨hmanned.1, hmanned.2.2⟩

theorem deliversInTurn [DecidableEq ι] (h : w.Sound hand) : w.DeliversInTurn where
  reserved_last := by
    intro who next hstep
    simp only [Workshop.step, Option.some.injEq] at hstep
    subst hstep
    exact ⟨_, rfl, fun other hother => h.orderly.before_reserve other (h.mem_of_known hother)⟩
  part_right_before := by
    intro who turn next hstep
    simp only [Workshop.step, Option.ite_none_right_eq_some, Option.some.injEq] at hstep
    obtain ⟨hturn, rfl⟩ := hstep
    obtain ⟨parts, hfound⟩ := (h.held turn).mp hturn
    obtain ⟨hbefore, hafter⟩ := h.orderly.before_split hfound
    exact ⟨_, rfl, hbefore, fun other hother => hafter other (h.mem_of_known hother)⟩
  sunk_increasing := by
    have := h.orderly.ordered
    rw [List.map_append] at this
    exact (List.pairwise_append.mp this).1
  given_once := h.givenOnce
  sunk_given := fun entry hentry =>
    (h.accounted entry.1 entry.2).mpr (Or.inl (List.mem_append_left _ hentry))
  sink_after_pending := by
    intro who next hstep
    obtain ⟨turn, value, rest, rfl, -, hsunk, -⟩ := h.of_sink hstep
    refine ⟨turn, value, hsunk, fun other hother => ?_⟩
    obtain ⟨parts, hfound⟩ := hother
    exact h.orderly.ahead turn (by simp) other
      (Table.mem_keys_of_mem (Table.mem_of_find? hfound))
  deliverer_moves := by
    intro who turns hwho
    obtain ⟨-, hturns, hothers⟩ := h.deliverer hwho
    refine ⟨?_, hothers⟩
    subst hturns
    cases hand with
    | nil => exact Or.inl (by simp [Workshop.step, hwho])
    | cons entry rest => exact Or.inr (by rw [h.sink_eq hwho]; rfl)
  first_pending := by
    intro hnone entry hentry
    exact (h.quiet hnone).2.head_pending h.orderly.sorted hentry
  none_left_behind := by
    intro hnone entry hentry hfirst
    obtain ⟨rfl, hwaiting⟩ := h.quiet hnone
    rcases (h.accounted entry.1 entry.2).mp hentry with hout | hready
    · simpa using hout
    · obtain ⟨other, parts, hbefore, hother⟩ := hwaiting _ _ hready rfl
      exact absurd hbefore (hfirst other ⟨parts, hother⟩)

end Sound

/--
**Values reach the sink in the order of their turns**, each at most once, and none whose turn
waits for no other is left behind, in whatever order the workers make their steps.
-/
theorem delivers_in_turn [DecidableEq ι] (actions : List (ι × Action α)) {w : Workshop ι α}
    (hrun : start.run actions = some w) : w.DeliversInTurn := by
  obtain ⟨hand, hsound⟩ := Sound.start.run hrun
  exact hsound.deliversInTurn

/--
Two workers: the first delivers while the other one splits a part off, ends the turn that the
part belongs to, and then ends the part.
-/
def interleaved : List (Nat × Action String) :=
  [(0, .reserve), (1, .reserve), (0, .split ⟨[0]⟩), (1, .ready ⟨[1]⟩ "last"), (1, .collect),
    (0, .ready ⟨[0, 0]⟩ "first"), (0, .collect), (1, .split ⟨[0]⟩), (1, .drop ⟨[0]⟩), (0, .sink),
    (1, .ready ⟨[0, 1]⟩ "second"), (0, .collect), (0, .sink), (0, .sink)]

theorem delivers_in_turn_interleaved :
    ∃ w : Workshop Nat String, start.run interleaved = some w ∧
      w.sunk = [(⟨[0, 0]⟩, "first"), (⟨[0, 1]⟩, "second"), (⟨[1]⟩, "last")] ∧
      w.DeliversInTurn :=
  ⟨_, rfl, rfl, delivers_in_turn interleaved rfl⟩

end Workshop

end DocIndex.Work
