/-
Tasks of a service, the turns they are to end, and the calls they come from.

`Flow` says what a step does to the turns that somebody is to end and to the tasks that have them.
From it follow that every turn that is held is that of one task (`Manned`), and that a task is
still alive, or its turn was ended with its result, or it was dropped (`Traced`).  `Recorded` says
that calls have rising numbers and tickets and that the turns of a write are those of its number,
and `Closing` that tasks are dropped only by a shutdown.
-/
import DocIndex.Proofs.Writing.Service

namespace DocIndex

open Work
open TurnKey (Before)

namespace Service

variable {ι σ : Type}

/-! ### Tasks and their turns -/

/-- What a step does to the turns that are held and to the tasks that are to end them. -/
inductive Flow (settings : WriteSettings) (w next : Service ι σ) : Prop where
  | same (hheld : next.held = w.held) (hnumber : next.stage.number? = w.stage.number?)
      (halive : next.alive.Perm w.alive) (hgiven : next.given = w.given)
      (hlost : next.lost = w.lost)
  /-- The caller begins a write. -/
  | opened (hheld : next.held = rootTurn w.pipeline.sequencer.nextTurn :: w.held)
      (hbefore : w.stage.number? = none)
      (hafter : next.stage.number? = some w.pipeline.sequencer.nextTurn)
      (halive : next.alive = w.alive) (hgiven : next.given = w.given) (hlost : next.lost = w.lost)
  /-- The write that the caller is at ends. -/
  | closed {number : Nat} (hheld : next.held = w.held.erase (rootTurn number))
      (hbefore : w.stage.number? = some number) (hafter : next.stage.number? = none)
      (halive : next.alive = w.alive)
      (hgiven : next.given = w.given ∨ next.given = w.given ++ [(rootTurn number, .nothing)])
      (hlost : next.lost = w.lost)
  /-- The caller has a task with a new turn. -/
  | added (task : WriteTask) (hheld : next.held = task.turn :: w.held)
      (hnumber : next.stage.number? = w.stage.number?) (halive : next.alive = task :: w.alive)
      (hgiven : next.given = w.given) (hlost : next.lost = w.lost)
      (hnew : ∀ number < w.pipeline.sequencer.nextTurn, task.turn ≠ rootTurn number)
      (hasked : ∀ turn ticket, task = .commit turn ticket →
        ∃ number, turn = rootTurn number ∧ .commit number ticket ∈ next.made)
  /-- A task is done. -/
  | done {task : WriteTask} {supply : IdentifierSupply} (hturn : task.turn ∈ w.held)
      (hheld : next.held = w.held.erase task.turn) (hnumber : next.stage.number? = w.stage.number?)
      (halive : w.alive.Perm (task :: next.alive))
      (hgiven : next.given = w.given ++ [(task.turn, task.result settings.builder supply)])
      (hlost : next.lost = w.lost)
  | dropped {task : WriteTask} (hturn : task.turn ∈ w.held)
      (hheld : next.held = w.held.erase task.turn) (hnumber : next.stage.number? = w.stage.number?)
      (halive : w.alive.Perm (task :: next.alive)) (hgiven : next.given = w.given)
      (hlost : next.lost = task :: w.lost)

/-- The turn that is reserved next has no number of an earlier one. -/
theorem rootTurn_ne {number other : Nat} (h : number < other) :
    rootTurn other ≠ rootTurn number := by
  intro heq
  have hpath : [other] = [number] := congrArg TurnKey.path heq
  obtain rfl : other = number := List.head_eq_of_cons_eq hpath
  exact Nat.lt_irrefl _ h

/-- A part of a turn that is held is no turn of a number. -/
theorem split_ne_rootTurn {w : Service ι σ} {hand : List (TurnKey × Delivery)}
    (h : w.shop.Sound hand) {turn : TurnKey} (hturn : turn ∈ w.held) (number : Nat) :
    (w.pipeline.sequencer.split turn).2 ≠ rootTurn number := by
  obtain ⟨parts, hfound⟩ := (h.held turn).mp hturn
  have hpart : (w.pipeline.sequencer.split turn).2 = turn.part parts := by
    have hfound : Table.find? w.pipeline.sequencer.turns turn = some (.pending parts) := hfound
    simp only [Sequencer.split, hfound]
  have hpath : turn.path ≠ [] := h.orderly.rooted turn
    (List.mem_append_right _ (Table.mem_keys_of_mem (Table.mem_of_find? hfound)))
  intro heq
  rw [hpart] at heq
  have hlength := congrArg (fun key : TurnKey => key.path.length) heq
  simp only [TurnKey.part, rootTurn, List.length_append, List.length_singleton] at hlength
  exact hpath (List.length_eq_zero_iff.mp (by omega))

namespace Flow

variable {settings : WriteSettings} {w next : Service ι σ}

theorem given_subset (h : Flow settings w next) : w.given ⊆ next.given := by
  cases h with
  | same _ _ _ hgiven | opened _ _ _ _ hgiven | added _ _ _ _ hgiven | dropped _ _ _ _ hgiven =>
      exact hgiven ▸ List.Subset.refl _
  | closed _ _ _ _ hgiven =>
      rcases hgiven with hgiven | hgiven
      · exact hgiven ▸ List.Subset.refl _
      · exact hgiven ▸ List.subset_append_left _ _
  | done _ _ _ _ hgiven => exact hgiven ▸ List.subset_append_left _ _

theorem lost_subset (h : Flow settings w next) : w.lost ⊆ next.lost := by
  cases h with
  | same _ _ _ _ hlost | opened _ _ _ _ _ hlost | closed _ _ _ _ _ hlost
  | added _ _ _ _ _ hlost | done _ _ _ _ _ hlost => exact hlost ▸ List.Subset.refl _
  | dropped _ _ _ _ _ hlost => exact hlost ▸ List.subset_cons_self _ _

end Flow

section Steps

variable [DecidableEq ι] [Storage σ] {settings : WriteSettings} {w next : Service ι σ}

theorem Moved.sound (hmoved : Moved settings w next) {hand : List (TurnKey × Delivery)}
    (h : w.shop.Sound hand) : ∃ hand', next.shop.Sound hand' := by
  cases hmoved with
  | skip | take | shut | drain => exact ⟨hand, h⟩
  | begin _ hshop | commit _ hshop | split _ _ hshop | accept _ _ hshop | giveUp _ hshop
  | finish _ hshop | collect hshop => exact h.step hshop
  | @queue task priority write hstage =>
      obtain ⟨_, _, _, heq⟩ := w.queue_frame task priority write
      rw [heq]
      exact ⟨hand, h⟩
  | @discard _ _ task _ _ hshop => cases task <;> exact h.step hshop
  | @sink _ _ delivery _ hshop => cases delivery <;> exact h.step hshop

/-- What every move does to the turns and to the tasks. -/
theorem Moved.flow (hmoved : Moved settings w next) {hand : List (TurnKey × Delivery)}
    (h : w.shop.Sound hand) : Flow settings w next := by
  cases hmoved with
  | skip | shut => exact .same rfl rfl (List.Perm.refl _) rfl rfl
  | begin hstage hshop =>
      obtain ⟨-, hheld, hgiven, -⟩ := Workshop.of_reserve hshop
      exact .opened hheld (by rw [hstage]; rfl) rfl (by rw [alive, alive, hstage]; rfl) hgiven rfl
  | commit hstage hshop =>
      obtain ⟨-, hheld, hgiven, -⟩ := Workshop.of_reserve hshop
      refine .added (.commit _ _) hheld (by rw [hstage]; rfl) (by rw [alive, alive, hstage]; rfl)
        hgiven rfl (fun number hnumber => rootTurn_ne hnumber) ?_
      intro turn ticket heq
      cases heq
      exact ⟨_, rfl, List.mem_append_right _ (List.mem_singleton.mpr rfl)⟩
  | split hstage hleft hshop =>
      obtain ⟨hturn, -, hheld, hgiven, -⟩ := Workshop.of_split hshop
      exact .added (.convert _ _) hheld (by rw [hstage]; rfl) (by rw [alive, alive, hstage]; rfl)
        hgiven rfl (fun number _ => split_ne_rootTurn h hturn number)
        (fun turn ticket heq => by cases heq)
  | accept hstage hleft hshop =>
      obtain ⟨-, -, hheld, hgiven, -⟩ := Workshop.of_ready hshop
      exact .closed hheld (by rw [hstage]; rfl) rfl (by rw [alive, alive, hstage]; rfl)
        (.inr hgiven) rfl
  | @queue task priority write hstage =>
      have halive := alive_queue hstage
      rcases w.queue_cases task priority write with ⟨_, -, -, -, heq⟩ | ⟨_, -, -, -, heq⟩
      · rw [heq] at halive ⊢
        exact .same rfl (by rw [hstage]; exact Stage.number?_resume write) halive rfl rfl
      · rw [heq] at halive ⊢
        exact .same rfl (by rw [hstage]; exact Stage.number?_giveUp write) halive rfl rfl
  | giveUp hstage hshop =>
      obtain ⟨-, -, hheld, hgiven, -⟩ := Workshop.of_drop hshop
      exact .closed hheld (by rw [hstage]; rfl) rfl (by rw [alive, alive, hstage]; rfl)
        (.inl hgiven) rfl
  | take hentry => exact .same rfl rfl (alive_take hentry) rfl rfl
  | finish hplace hshop =>
      obtain ⟨hturn, -, hheld, hgiven, -⟩ := Workshop.of_ready hshop
      exact .done hturn hheld rfl (alive_of_begun hplace rfl) hgiven rfl
  | drain hclosed => exact .same rfl rfl alive_drain rfl rfl
  | @discard _ _ task _ hplace hshop =>
      obtain ⟨hturn, -, hheld, hgiven, -⟩ := Workshop.of_drop hshop
      exact .dropped hturn hheld rfl
        (alive_of_doomed hplace (by cases task <;> rfl)) hgiven rfl
  | collect hshop =>
      obtain ⟨-, hheld, hgiven, -⟩ := Workshop.of_collect hshop
      exact .same hheld rfl (List.Perm.refl _) hgiven rfl
  | @sink _ _ delivery _ hshop hsunk =>
      obtain ⟨-, hheld, hgiven, -⟩ := Workshop.of_sink hshop
      exact .same hheld rfl (by cases delivery <;> exact List.Perm.refl _) hgiven rfl

end Steps

/-! ### Who ends which turn -/

/-- Every turn that is held is that of a task, or that of the write that the caller is at. -/
structure Manned (w : Service ι σ) : Prop where
  sound : ∃ hand, w.shop.Sound hand
  held : w.held.Perm (w.stage.number?.toList.map rootTurn ++ w.alive.map WriteTask.turn)

variable {settings : WriteSettings} {w next : Service ι σ}

namespace Manned

/-- The turn of a task that is alive can be ended. -/
theorem turn_mem (h : w.Manned) {task : WriteTask} (htask : task ∈ w.alive) :
    task.turn ∈ w.held :=
  h.held.mem_iff.mpr (List.mem_append_right _ (List.mem_map_of_mem htask))

/-- A turn that can still be ended was given nothing. -/
theorem not_given (h : w.Manned) {turn : TurnKey} (hturn : turn ∈ w.held) :
    turn ∉ w.given.map Prod.fst := by
  obtain ⟨hand, hsound⟩ := h.sound
  obtain ⟨parts, hfound⟩ := (hsound.held turn).mp hturn
  intro hmem
  obtain ⟨⟨key, value⟩, hgiven, rfl⟩ := List.mem_map.mp hmem
  rcases (hsound.accounted key value).mp hgiven with hout | hready
  · exact (hsound.orderly.ahead key (List.mem_map_of_mem hout) key
      (Table.mem_keys_of_mem (Table.mem_of_find? hfound))).ne rfl
  · rw [hfound] at hready
    cases hready

theorem sunk_given (h : w.Manned) : w.sunk ⊆ w.given := by
  obtain ⟨hand, hsound⟩ := h.sound
  exact fun entry hentry =>
    (hsound.accounted entry.1 entry.2).mpr (Or.inl (List.mem_append_left _ hentry))

/-- Turns without the one that ends. -/
theorem ended (h : w.Manned) {task : WriteTask} {remaining : List WriteTask}
    (halive : w.alive.Perm (task :: remaining)) :
    (w.held.erase task.turn).Perm
      (w.stage.number?.toList.map rootTurn ++ remaining.map WriteTask.turn) := by
  have hheld := h.held.trans ((halive.map WriteTask.turn).append_left _)
  have herased := (hheld.trans List.perm_middle).erase task.turn
  rwa [List.erase_cons_head] at herased

theorem flow (h : w.Manned) (hsound : ∃ hand, next.shop.Sound hand)
    (hflow : Flow settings w next) : next.Manned := by
  refine ⟨hsound, ?_⟩
  have hold := h.held
  cases hflow with
  | same hheld hnumber halive hgiven hlost =>
      rw [hheld, hnumber]
      exact hold.trans ((halive.symm.map WriteTask.turn).append_left _)
  | opened hheld hbefore hafter halive hgiven hlost =>
      rw [hbefore] at hold
      rw [hheld, hafter, halive]
      exact hold.cons _
  | @closed number hheld hbefore hafter halive hgiven hlost =>
      rw [hbefore] at hold
      have herased := hold.erase (rootTurn number)
      rw [Option.toList_some, List.map_singleton, List.singleton_append,
        List.erase_cons_head] at herased
      rwa [hheld, hafter, halive]
  | added task hheld hnumber halive hgiven hlost hnew hasked =>
      rw [hheld, hnumber, halive, List.map_cons]
      exact (hold.cons _).trans List.perm_middle.symm
  | done hturn hheld hnumber halive hgiven hlost =>
      rw [hheld, hnumber]
      exact h.ended halive
  | dropped hturn hheld hnumber halive hgiven hlost =>
      rw [hheld, hnumber]
      exact h.ended halive

theorem moved [DecidableEq ι] [Storage σ] (h : w.Manned) (hmoved : Moved settings w next) :
    next.Manned := by
  obtain ⟨hand, hsound⟩ := h.sound
  exact h.flow (hmoved.sound hsound) (hmoved.flow hsound)

end Manned

/-! ### What becomes of tasks -/

/-- A task is alive, or its turn was ended with its result, or it was dropped. -/
def Followed (settings : WriteSettings) (w : Service ι σ) (task : WriteTask) : Prop :=
  task ∈ w.alive ∨ (∃ supply, (task.turn, task.result settings.builder supply) ∈ w.given) ∨
    task ∈ w.lost

/-- No task gets out of sight. -/
theorem Followed.flow {task : WriteTask} (h : Followed settings w task)
    (hflow : Flow settings w next) : Followed settings next task := by
  rcases h with hin | ⟨supply, hgave⟩ | hgone
  · cases hflow with
    | same _ _ halive => exact .inl (halive.mem_iff.mpr hin)
    | opened _ _ _ halive => exact .inl (halive ▸ hin)
    | closed _ _ _ halive => exact .inl (halive ▸ hin)
    | added other _ _ halive => exact .inl (halive ▸ List.mem_cons_of_mem _ hin)
    | @done other supply _ _ _ halive hgiven =>
        rcases List.mem_cons.mp (halive.mem_iff.mp hin) with rfl | hstays
        · exact .inr (.inl ⟨supply, hgiven ▸ List.mem_append_right _ List.mem_cons_self⟩)
        · exact .inl hstays
    | dropped _ _ _ halive _ hlost =>
        rcases List.mem_cons.mp (halive.mem_iff.mp hin) with rfl | hstays
        · exact .inr (.inr (hlost ▸ List.mem_cons_self))
        · exact .inl hstays
  · exact .inr (.inl ⟨supply, hflow.given_subset hgave⟩)
  · exact .inr (.inr (hflow.lost_subset hgone))

end Service

namespace Asked

/-- The number of the turn of a call. -/
def number : Asked → Nat
  | write number _ _ => number
  | commit number _ => number

def ticket? : Asked → Option Nat
  | write _ _ _ => none
  | commit _ ticket => some ticket

/-- The chunks of a call, with their turns. -/
def chunks : Asked → List (TurnKey × List WriteRequest)
  | write _ _ chunks => chunks
  | commit _ _ => []

/-- The chunks are those that the requests are cut into, and have turns of the call's number. -/
def Cut (size : Nat) : Asked → Prop
  | write number requests chunks => chunks.map Prod.snd = chunksOf size requests ∧
      ∀ entry ∈ chunks, entry.1.path.head? = some number
  | commit _ _ => True

end Asked

/-- The same of a write that the caller is at. -/
def Sending.Cut (size : Nat) (write : Sending) : Prop :=
  write.placed.map Prod.snd ++ write.left = chunksOf size write.requests ∧
    ∀ entry ∈ write.placed, entry.1.path.head? = some write.number

namespace Sending.Cut

variable {size : Nat} {write : Sending}

/-- The next chunk is given a turn. -/
theorem place (h : write.Cut size) {chunk : List WriteRequest} {left : List (List WriteRequest)}
    (hleft : write.left = chunk :: left) {turn : TurnKey}
    (hturn : turn.path.head? = some write.number) :
    Sending.Cut size { write with placed := write.placed ++ [(turn, chunk)], left } := by
  obtain ⟨hpieces, hturns⟩ := h
  refine ⟨?_, fun entry hentry => ?_⟩
  · rw [← hpieces, hleft, List.map_append, List.append_assoc]
    rfl
  · rcases List.mem_append.mp hentry with hold | hnew
    · exact hturns entry hold
    · rw [List.mem_singleton.mp hnew]
      exact hturn

/-- All chunks have turns. -/
theorem asked (h : write.Cut size) (hleft : write.left = []) :
    Asked.Cut size (.write write.number write.requests write.placed) := by
  obtain ⟨hpieces, hturns⟩ := h
  rw [hleft, List.append_nil] at hpieces
  exact ⟨hpieces, hturns⟩

end Sending.Cut

/-- Numbers that rise and stay below a bound. -/
def Rising (bound : Nat) (numbers : List Nat) : Prop :=
  numbers.Pairwise (· < ·) ∧ ∀ number ∈ numbers, number < bound

theorem Rising.snoc {bound : Nat} {numbers : List Nat} (h : Rising bound numbers) :
    Rising (bound + 1) (numbers ++ [bound]) := by
  refine ⟨List.pairwise_append.mpr ⟨h.1, List.pairwise_singleton _ _, ?_⟩, ?_⟩
  · intro number hnumber other hother
    rw [List.mem_singleton.mp hother]
    exact h.2 number hnumber
  · intro number hnumber
    rcases List.mem_append.mp hnumber with hold | hlast
    · exact Nat.lt_succ_of_lt (h.2 number hold)
    · rw [List.mem_singleton.mp hlast]
      exact Nat.lt_succ_self bound

namespace Service

variable {ι σ : Type} {settings : WriteSettings} {w next : Service ι σ}

/-! ### What calls are recorded -/

/-- Calls have rising numbers and tickets, and their chunks have turns of their numbers. -/
structure Recorded (settings : WriteSettings) (w : Service ι σ) : Prop where
  numbers : Rising w.pipeline.sequencer.nextTurn
    (w.made.map Asked.number ++ w.stage.number?.toList)
  tickets : Rising w.pipeline.nextTicket (w.made.filterMap Asked.ticket?)
  cut : ∀ asked ∈ w.made, asked.Cut settings.builder.config.batchSize
  cutting : ∀ write, w.stage.write? = some write → write.Cut settings.builder.config.batchSize

namespace Recorded

theorem congr (h : Recorded settings w) (hmade : next.made = w.made)
    (hnumber : next.stage.number? = w.stage.number? ∨ next.stage.number? = none)
    (hwrite : next.stage.write? = w.stage.write? ∨ next.stage.write? = none)
    (hturn : next.pipeline.sequencer.nextTurn = w.pipeline.sequencer.nextTurn)
    (hticket : next.pipeline.nextTicket = w.pipeline.nextTicket) : Recorded settings next where
  numbers := by
    have hnumbers := h.numbers
    rw [hmade, hturn]
    rcases hnumber with hnumber | hnumber
    · rwa [hnumber]
    · rw [hnumber, Option.toList_none, List.append_nil]
      have hsub := List.sublist_append_left (w.made.map Asked.number) w.stage.number?.toList
      exact ⟨hnumbers.1.sublist hsub, fun number hmem => hnumbers.2 number (hsub.subset hmem)⟩
  tickets := by rw [hmade, hticket]; exact h.tickets
  cut := by rw [hmade]; exact h.cut
  cutting := by
    intro write heq
    rcases hwrite with hwrite | hwrite
    · exact h.cutting write (hwrite ▸ heq)
    · rw [hwrite] at heq
      cases heq

/-- A call is recorded, and the caller is at no write any more. -/
theorem called (h : Recorded settings w) {asked : Asked} (hmade : next.made = w.made ++ [asked])
    (hnumber : next.stage.number? = none) (hwrite : next.stage.write? = none)
    (hnumbers : Rising next.pipeline.sequencer.nextTurn
      (w.made.map Asked.number ++ [asked.number]))
    (htickets : Rising next.pipeline.nextTicket
      (w.made.filterMap Asked.ticket? ++ asked.ticket?.toList))
    (hcut : asked.Cut settings.builder.config.batchSize) : Recorded settings next where
  numbers := by
    rw [hmade, hnumber, Option.toList_none, List.append_nil, List.map_append]
    exact hnumbers
  tickets := by
    rw [hmade, List.filterMap_append]
    cases hticket : asked.ticket? <;> simpa [hticket] using htickets
  cut := by
    intro other hother
    rw [hmade] at hother
    rcases List.mem_append.mp hother with hold | hnew
    · exact h.cut other hold
    · rw [List.mem_singleton.mp hnew]
      exact hcut
  cutting := fun write heq => by
    rw [hwrite] at heq
    cases heq

/-- The calls before a call have smaller numbers. -/
theorem number_lt (h : Recorded settings w) {before after : List Asked} {asked earlier : Asked}
    (hmade : w.made = before ++ asked :: after) (hearlier : earlier ∈ before) :
    earlier.number < asked.number := by
  have hnumbers := (List.pairwise_append.mp h.numbers.1).1
  rw [hmade, List.map_append, List.map_cons] at hnumbers
  exact (List.pairwise_append.mp hnumbers).2.2 _ (List.mem_map_of_mem hearlier) _
    List.mem_cons_self

/-- No two commits have the same ticket. -/
theorem number_eq (h : Recorded settings w) {number other ticket : Nat}
    (hcommit : .commit number ticket ∈ w.made) (hother : .commit other ticket ∈ w.made) :
    other = number := by
  have htickets := h.tickets.1
  obtain ⟨before, after, hmade⟩ := List.append_of_mem hcommit
  have hfirst : (Asked.commit number ticket).ticket? = some ticket := rfl
  rw [hmade, List.filterMap_append, List.filterMap_cons_some hfirst] at htickets
  obtain ⟨-, hafter, hbefore⟩ := List.pairwise_append.mp htickets
  have hticket : ∀ {calls : List Asked}, .commit other ticket ∈ calls →
      ticket ∈ calls.filterMap Asked.ticket? := fun hmem => List.mem_filterMap.mpr ⟨_, hmem, rfl⟩
  rw [hmade] at hother
  rcases List.mem_append.mp hother with hfirst | hrest
  · exact absurd (hbefore ticket (hticket hfirst) ticket List.mem_cons_self) (Nat.lt_irrefl _)
  rcases List.mem_cons.mp hrest with heq | hlast
  · cases heq
    rfl
  · exact absurd (List.rel_of_pairwise_cons hafter (hticket hlast)) (Nat.lt_irrefl _)

end Recorded

/-- A part of a reserved turn has its number. -/
theorem head?_split (s : Sequencer Delivery) (number : Nat) :
    (s.split (rootTurn number)).2.path.head? = some number := by
  unfold Sequencer.split
  split <;> rfl

theorem nextTurn_split (s : Sequencer Delivery) (turn : TurnKey) :
    (s.split turn).1.nextTurn = s.nextTurn := by
  unfold Sequencer.split
  split <;> rfl

section Steps

variable [DecidableEq ι] [Storage σ]

theorem Recorded.moved (h : Recorded settings w) (hmoved : Moved settings w next) :
    Recorded settings next := by
  cases hmoved with
  | skip | take | shut | drain => exact h.congr rfl (.inl rfl) (.inl rfl) rfl rfl
  | @begin _ requests priority calls shop hstage hshop =>
      obtain ⟨hsequencer, -⟩ := Workshop.of_reserve hshop
      have hnumbers := h.numbers
      rw [hstage] at hnumbers
      refine ⟨?_, h.tickets, h.cut, ?_⟩
      · show Rising shop.sequencer.nextTurn _
        rw [hsequencer]
        exact (List.append_nil _ ▸ hnumbers).snoc
      · intro write hwrite
        cases hwrite
        exact ⟨rfl, fun entry hentry => nomatch hentry⟩
  | @commit _ calls shop hstage hshop =>
      obtain ⟨hsequencer, -⟩ := Workshop.of_reserve hshop
      have hnumbers := h.numbers
      rw [hstage] at hnumbers
      refine h.called rfl rfl rfl ?_ h.tickets.snoc trivial
      show Rising shop.sequencer.nextTurn _
      rw [hsequencer]
      exact (List.append_nil _ ▸ hnumbers).snoc
  | @split _ write chunk left shop hstage hleft hshop =>
      obtain ⟨-, hsequencer, -⟩ := Workshop.of_split hshop
      have hnumbers := h.numbers
      rw [hstage] at hnumbers
      refine ⟨?_, h.tickets, h.cut, ?_⟩
      · show Rising shop.sequencer.nextTurn _
        rw [hsequencer]
        exact (nextTurn_split w.pipeline.sequencer (rootTurn write.number)).symm ▸ hnumbers
      · intro write' hwrite
        cases hwrite
        exact (h.cutting write (by rw [hstage]; rfl)).place hleft (head?_split _ _)
  | @accept _ write shop hstage hleft hshop =>
      obtain ⟨-, hsequencer, -⟩ := Workshop.of_ready hshop
      have hnumbers := h.numbers
      rw [hstage] at hnumbers
      refine h.called rfl rfl rfl ?_ ?_ ((h.cutting write (by rw [hstage]; rfl)).asked hleft)
      · show Rising shop.sequencer.nextTurn _
        rw [hsequencer]
        exact hnumbers
      · show Rising w.pipeline.nextTicket (w.made.filterMap Asked.ticket? ++ [])
        rw [List.append_nil]
        exact h.tickets
  | @queue task priority write hstage =>
      rcases w.queue_cases task priority write with ⟨_, -, -, -, heq⟩ | ⟨_, -, -, -, heq⟩
      · rw [heq]
        refine h.congr rfl (.inl ?_) (.inl ?_) rfl rfl
        · rw [hstage]
          exact Stage.number?_resume write
        · rw [hstage]
          exact Stage.write?_resume write
      · rw [heq]
        refine h.congr rfl (.inl ?_) (.inr (Stage.write?_giveUp write)) rfl rfl
        rw [hstage]
        exact Stage.number?_giveUp write
  | giveUp hstage hshop =>
      obtain ⟨-, hsequencer, -⟩ := Workshop.of_drop hshop
      have hturn := congrArg Sequencer.nextTurn hsequencer
      exact h.congr rfl (.inr rfl) (.inr rfl) hturn rfl
  | finish hplace hshop =>
      obtain ⟨-, hsequencer, -⟩ := Workshop.of_ready hshop
      have hturn := congrArg Sequencer.nextTurn hsequencer
      exact h.congr rfl (.inl rfl) (.inl rfl) hturn rfl
  | @discard _ _ task _ hplace hshop =>
      obtain ⟨-, hsequencer, -⟩ := Workshop.of_drop hshop
      have hturn := congrArg Sequencer.nextTurn hsequencer
      cases task <;> exact h.congr rfl (.inl rfl) (.inl rfl) hturn rfl
  | collect hshop =>
      exact h.congr rfl (.inl rfl) (.inl rfl) (Workshop.of_collect hshop).1 rfl
  | @sink _ _ delivery _ hshop hsunk =>
      have hturn := (Workshop.of_sink hshop).1
      cases delivery <;> exact h.congr rfl (.inl rfl) (.inl rfl) hturn rfl

end Steps

/-! ### What becomes of chunks and commits -/

/-- The chunks of the calls so far, with their turns. -/
def pieces (w : Service ι σ) : List (TurnKey × List WriteRequest) :=
  w.made.flatMap Asked.chunks ++ w.stage.write?.toList.flatMap Sending.placed

/-- A value that asks for a commit is the result of the task for it. -/
theorem eq_commit_of_result {task : WriteTask} {builder : DocumentBuilder}
    {supply : IdentifierSupply} {ticket : Nat} (h : task.result builder supply = .commit ticket) :
    ∃ turn, task = .commit turn ticket := by
  cases task with
  | convert requests turn =>
      cases hconvert : builder.convert supply requests <;>
        simp [WriteTask.result, hconvert] at h
  | commit turn other =>
      cases h
      exact ⟨turn, rfl⟩

/-- A task for a commit is alive, was done, or was dropped. -/
def Commits (w : Service ι σ) (turn : TurnKey) (ticket : Nat) : Prop :=
  .commit turn ticket ∈ w.alive ∨ (turn, .commit ticket) ∈ w.given ∨ .commit turn ticket ∈ w.lost

/-- No chunk gets out of sight, and the tasks of commits are those that were asked for. -/
structure Traced (settings : WriteSettings) (w : Service ι σ) : Prop where
  pieces : ∀ entry ∈ w.pieces, Followed settings w (.convert entry.2 entry.1)
  asked : ∀ turn ticket, w.Commits turn ticket →
    ∃ number, turn = rootTurn number ∧ .commit number ticket ∈ w.made
  /-- The turn of a commit that was dropped has ended without a value. -/
  gone : ∀ turn ticket, .commit turn ticket ∈ w.lost →
    turn ∉ w.held ∧ turn ∉ w.given.map Prod.fst

namespace Traced

/-- The tasks for a ticket have one turn. -/
theorem turn_eq (h : Traced settings w) (hrecorded : Recorded settings w) {turn other : TurnKey}
    {ticket : Nat} (hcommit : w.Commits turn ticket) (hother : w.Commits other ticket) :
    other = turn := by
  obtain ⟨number, rfl, hcall⟩ := h.asked turn ticket hcommit
  obtain ⟨number', rfl, hcall'⟩ := h.asked other ticket hother
  rw [hrecorded.number_eq hcall hcall']

theorem asked_flow (h : Traced settings w) (hflow : Flow settings w next)
    (hmade : w.made ⊆ next.made) {turn : TurnKey} {ticket : Nat}
    (hcommit : next.Commits turn ticket) :
    ∃ number, turn = rootTurn number ∧ .commit number ticket ∈ next.made := by
  have hold : w.Commits turn ticket →
      ∃ number, turn = rootTurn number ∧ .commit number ticket ∈ next.made := by
    intro hin
    obtain ⟨number, hturn, hcall⟩ := h.asked turn ticket hin
    exact ⟨number, hturn, hmade hcall⟩
  unfold Commits at hcommit
  cases hflow with
  | same _ _ halive hgiven hlost =>
      rw [halive.mem_iff, hgiven, hlost] at hcommit
      exact hold hcommit
  | opened _ _ _ halive hgiven hlost =>
      rw [halive, hgiven, hlost] at hcommit
      exact hold hcommit
  | closed _ _ _ halive hgiven hlost =>
      rw [halive, hlost] at hcommit
      refine hold (hcommit.imp_right (Or.imp_left fun hgave => ?_))
      rcases hgiven with hgiven | hgiven
      · exact hgiven ▸ hgave
      · rw [hgiven] at hgave
        refine (List.mem_append.mp hgave).resolve_right fun hlast => ?_
        cases List.mem_singleton.mp hlast
  | added task _ _ halive hgiven hlost _ hasked =>
      rw [halive, hgiven, hlost] at hcommit
      rcases hcommit with hin | hrest
      · rcases List.mem_cons.mp hin with heq | hin
        · exact hasked turn ticket heq.symm
        · exact hold (.inl hin)
      · exact hold (.inr hrest)
  | @done task supply _ _ _ halive hgiven hlost =>
      rw [hlost] at hcommit
      rcases hcommit with hin | hgave | hgone
      · exact hold (.inl (halive.mem_iff.mpr (List.mem_cons_of_mem _ hin)))
      · rw [hgiven] at hgave
        rcases List.mem_append.mp hgave with hgave | hlast
        · exact hold (.inr (.inl hgave))
        · obtain ⟨hturn, hresult⟩ := Prod.mk.inj (List.mem_singleton.mp hlast)
          obtain ⟨other, rfl⟩ := eq_commit_of_result hresult.symm
          cases hturn
          exact hold (.inl (halive.mem_iff.mpr List.mem_cons_self))
      · exact hold (.inr (.inr hgone))
  | dropped _ _ _ halive hgiven hlost =>
      rw [hgiven, hlost] at hcommit
      rcases hcommit with hin | hgave | hgone
      · exact hold (.inl (halive.mem_iff.mpr (List.mem_cons_of_mem _ hin)))
      · exact hold (.inr (.inl hgave))
      · rcases List.mem_cons.mp hgone with heq | hgone
        · exact hold (.inl (halive.mem_iff.mpr (heq ▸ List.mem_cons_self)))
        · exact hold (.inr (.inr hgone))

theorem gone_flow (h : Traced settings w) (hmanned : w.Manned) (hrecorded : Recorded settings w)
    (hflow : Flow settings w next) {turn : TurnKey} {ticket : Nat}
    (hlost' : .commit turn ticket ∈ next.lost) :
    turn ∉ next.held ∧ turn ∉ next.given.map Prod.fst := by
  -- The turn of a commit is one of those that were reserved already.
  have hold : .commit turn ticket ∈ w.lost →
      (turn ∉ w.held ∧ turn ∉ w.given.map Prod.fst) ∧
        ∃ number < w.pipeline.sequencer.nextTurn, turn = rootTurn number := by
    intro hin
    obtain ⟨number, hturn, hcall⟩ := h.asked turn ticket (.inr (.inr hin))
    exact ⟨h.gone turn ticket hin, number, hrecorded.numbers.2 number
      (List.mem_append_left _ (List.mem_map_of_mem hcall)), hturn⟩
  cases hflow with
  | same hheld _ _ hgiven hlost =>
      rw [hlost] at hlost'
      rw [hheld, hgiven]
      exact (hold hlost').1
  | opened hheld _ _ _ hgiven hlost =>
      rw [hlost] at hlost'
      obtain ⟨⟨hheld', hgiven'⟩, number, hbelow, rfl⟩ := hold hlost'
      rw [hheld, hgiven]
      exact ⟨List.not_mem_cons_of_ne_of_not_mem (rootTurn_ne hbelow).symm hheld', hgiven'⟩
  | @closed number hheld hbefore _ _ hgiven hlost =>
      rw [hlost] at hlost'
      obtain ⟨hheld', hgiven'⟩ := (hold hlost').1
      refine ⟨fun hin => hheld' (List.mem_of_mem_erase (hheld ▸ hin)), ?_⟩
      rcases hgiven with hgiven | hgiven
      · rwa [hgiven]
      · rw [hgiven, List.map_append, List.mem_append]
        rintro (hin | hlast)
        · exact hgiven' hin
        · refine hheld' (hmanned.held.mem_iff.mpr (List.mem_append_left _ ?_))
          rw [hbefore, List.mem_singleton.mp hlast]
          exact List.mem_singleton.mpr rfl
  | added task hheld _ _ hgiven hlost hnew =>
      rw [hlost] at hlost'
      obtain ⟨⟨hheld', hgiven'⟩, number, hbelow, rfl⟩ := hold hlost'
      rw [hheld, hgiven]
      exact ⟨List.not_mem_cons_of_ne_of_not_mem (hnew number hbelow).symm hheld', hgiven'⟩
  | @done task supply hturn hheld _ _ hgiven hlost =>
      rw [hlost] at hlost'
      obtain ⟨hheld', hgiven'⟩ := (hold hlost').1
      refine ⟨fun hin => hheld' (List.mem_of_mem_erase (hheld ▸ hin)), ?_⟩
      rw [hgiven, List.map_append, List.mem_append]
      rintro (hin | hlast)
      · exact hgiven' hin
      · exact hheld' (List.mem_singleton.mp hlast ▸ hturn)
  | @dropped task hturn hheld _ _ hgiven hlost =>
      rw [hlost] at hlost'
      rw [hheld, hgiven]
      rcases List.mem_cons.mp hlost' with rfl | hin
      · obtain ⟨hand, hsound⟩ := hmanned.sound
        exact ⟨hsound.heldOnce.not_mem_erase, hmanned.not_given hturn⟩
      · obtain ⟨hheld', hgiven'⟩ := (hold hin).1
        exact ⟨fun hin => hheld' (List.mem_of_mem_erase hin), hgiven'⟩

end Traced

section Steps

variable [DecidableEq ι] [Storage σ]

theorem made_subset (hmoved : Moved settings w next) : w.made ⊆ next.made := by
  cases hmoved with
  | commit | accept => exact List.subset_append_left _ _
  | @queue task priority write hstage =>
      obtain ⟨_, _, _, heq⟩ := w.queue_frame task priority write
      rw [heq]
      exact List.Subset.refl _
  | _ => exact List.Subset.refl _

/-- Every new chunk is that of a task. -/
theorem pieces_moved (hmoved : Moved settings w next) :
    ∀ entry ∈ next.pieces, entry ∈ w.pieces ∨ .convert entry.2 entry.1 ∈ next.alive := by
  have hforget : next.made = w.made → next.stage.write? = none →
      ∀ entry ∈ next.pieces, entry ∈ w.pieces := by
    intro hmade hwrite entry hentry
    rw [pieces, hmade, hwrite, Option.toList_none, List.flatMap_nil, List.append_nil] at hentry
    exact List.mem_append_left _ hentry
  intro entry hentry
  cases hmoved with
  | commit hstage hshop =>
      rw [pieces, List.flatMap_append] at hentry
      exact .inl (List.mem_append_left _ (by simpa [Asked.chunks, Stage.write?] using hentry))
  | begin hstage hshop =>
      exact .inl (List.mem_append_left _ (by simpa [pieces, Stage.write?, withShop] using hentry))
  | @split _ write chunk left _ hstage hleft hshop =>
      have hold : w.pieces = w.made.flatMap Asked.chunks ++ write.placed := by
        simp [pieces, hstage, Stage.write?]
      have hnew : entry ∈ w.pieces ++
          [((w.pipeline.sequencer.split (rootTurn write.number)).2, chunk)] := by
        rw [hold, List.append_assoc]
        simpa [pieces, Stage.write?, withShop] using hentry
      rcases List.mem_append.mp hnew with hin | hlast
      · exact .inl hin
      · rw [List.mem_singleton.mp hlast]
        exact .inr List.mem_cons_self
  | @accept _ write _ hstage hleft hshop =>
      refine .inl ?_
      simpa [pieces, hstage, Stage.write?, Asked.chunks, withShop] using hentry
  | @queue task priority write hstage =>
      rcases w.queue_cases task priority write with ⟨_, -, -, -, heq⟩ | ⟨_, -, -, -, heq⟩
      · rw [heq] at hentry
        have hwrite : w.stage.write? = write := by rw [hstage]; rfl
        refine .inl ?_
        simpa only [pieces, hwrite, Stage.write?_resume] using hentry
      · rw [heq] at hentry hforget
        exact .inl (hforget rfl (Stage.write?_giveUp write) entry hentry)
  | giveUp => exact .inl (hforget rfl rfl entry hentry)
  | _ => exact .inl hentry

theorem Traced.moved (h : Traced settings w) (hmanned : w.Manned) (hrecorded : Recorded settings w)
    (hmoved : Moved settings w next) : Traced settings next := by
  obtain ⟨hand, hsound⟩ := hmanned.sound
  have hflow := hmoved.flow hsound
  refine ⟨fun entry hentry => ?_, fun turn ticket => h.asked_flow hflow (made_subset hmoved),
    fun turn ticket => h.gone_flow hmanned hrecorded hflow⟩
  rcases pieces_moved hmoved entry hentry with hold | hnew
  · exact (h.pieces entry hold).flow hflow
  · exact .inl hnew

end Steps

/-! ### When tasks are dropped -/

/-- Tasks are dropped only when nothing is queued any more. -/
structure Closing (w : Service ι σ) : Prop where
  agree : w.pipeline.scheduler.queue.closed = w.pipeline.scheduler.closed
  closed : w.doomed ≠ [] ∨ w.lost ≠ [] → w.pipeline.scheduler.closed = true

theorem Closing.moved [DecidableEq ι] [Storage σ] (h : w.Closing)
    (hmoved : Moved settings w next) : next.Closing := by
  cases hmoved with
  | shut => exact ⟨rfl, fun _ => rfl⟩
  | drain hclosed => exact ⟨h.agree, fun _ => hclosed⟩
  | @queue task priority write hstage =>
      rcases w.queue_cases task priority write with ⟨scheduler, hclosed, hqueue, -, heq⟩ |
        ⟨scheduler, hrefused, hclosed, hqueue, heq⟩
      · rw [heq]
        exact ⟨hqueue.trans (h.agree.trans hclosed.symm), fun hany => hclosed.trans (h.closed hany)⟩
      · rw [heq]
        refine ⟨(congrArg PriorityQueue.closed hqueue).trans (h.agree.trans hclosed.symm), ?_⟩
        exact fun _ => hclosed.trans (h.agree.symm.trans hrefused)
  | @discard _ place task _ hplace hshop =>
      have hclosed := h.closed (.inl fun hnone => by
        rw [hnone] at hplace
        cases hplace)
      cases task <;> exact ⟨h.agree, fun _ => hclosed⟩
  | @sink _ _ delivery => cases delivery <;> exact ⟨h.agree, h.closed⟩
  | _ => exact ⟨h.agree, h.closed⟩

end Service

end DocIndex
