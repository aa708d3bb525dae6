/-
Directories whose operations may have no effect.

Such a directory is a reliable one and a schedule that says of each operation to come whether it
takes effect.  One that does not fails and leaves everything as it was, and after the end of the
schedule none takes effect any more.  So what a process leaves that stops after some operation is
what it leaves when the schedule ends there, and every state in between is the last state of a
run with a shorter schedule.

What a step does is said by what holds of the directory if the step succeeds and what holds of it
if the step fails, and of an unreliable directory it is said for all schedules at once; what holds
of a failure has then to hold before every operation, since each of them may be the one that fails.
-/
import DocIndex.Proofs.Storage.Durable

namespace DocIndex.Storage

/-! ### Outcomes of steps -/

/-- What a step leaves: the one if it succeeds, the other if it fails. -/
def Leaves {σ α : Type} (step : Step σ α) (d : σ) (done : α → σ → Prop) (failed : σ → Prop) :
    Prop :=
  match step.runFrom d with
  | (.ok value, next) => done value next
  | (.error _, next) => failed next

namespace Leaves

variable {σ α β : Type} {d : σ} {failed : σ → Prop}

theorem ok {step : Step σ α} {done : α → σ → Prop} {value : α} {next : σ}
    (hrun : step.runFrom d = (.ok value, next)) (h : done value next) :
    Leaves step d done failed := by
  rw [Leaves, hrun]
  exact h

theorem error {step : Step σ α} {done : α → σ → Prop} {e : Error} {next : σ}
    (hrun : step.runFrom d = (.error e, next)) (h : failed next) :
    Leaves step d done failed := by
  rw [Leaves, hrun]
  exact h

/-- Either the step succeeds, or it fails. -/
theorem outcome {step : Step σ α} {done : α → σ → Prop} (h : Leaves step d done failed) :
    (∃ value, (step.runFrom d).1 = .ok value ∧ done value (step.runFrom d).2) ∨
      ∃ e, (step.runFrom d).1 = .error e ∧ failed (step.runFrom d).2 := by
  unfold Leaves at h
  rcases hrun : step.runFrom d with ⟨e | value, next⟩
  · rw [hrun] at h
    exact .inr ⟨e, rfl, h⟩
  · rw [hrun] at h
    exact .inl ⟨value, rfl, h⟩

theorem pure {done : α → σ → Prop} {value : α} (h : done value d) :
    Leaves (Pure.pure value) d done failed := h

theorem bind {first : Step σ α} {second : α → Step σ β} {done : β → σ → Prop}
    (middle : α → σ → Prop) (h : Leaves first d middle failed)
    (hrest : ∀ value next, middle value next → Leaves (second value) next done failed) :
    Leaves (first >>= second) d done failed := by
  unfold Leaves at h
  match hrun : first.runFrom d with
  | (.ok value, next) =>
      rw [hrun] at h
      rw [Leaves, runFrom_bind hrun]
      exact hrest value next h
  | (.error e, next) =>
      rw [hrun] at h
      rw [Leaves, runFrom_bind_error hrun]
      exact h

theorem imp {step : Step σ α} {done done' : α → σ → Prop} {failed' : σ → Prop}
    (h : Leaves step d done failed) (hdone : ∀ value next, done value next → done' value next)
    (hfailed : ∀ next, failed next → failed' next) : Leaves step d done' failed' := by
  unfold Leaves at h ⊢
  split at h
  · exact hdone _ _ h
  · exact hfailed _ h

/-- A value that is there or not is taken without a change of the state. -/
theorem lift {value : Except Error α} (hfailed : failed d) :
    Leaves (liftM value : Step σ α) d (fun found next => value = .ok found ∧ next = d) failed := by
  cases value with
  | ok found => exact ⟨rfl, rfl⟩
  | error e => exact hfailed

/-- Looking at the state changes nothing. -/
theorem get : Leaves (MonadState.get : Step σ σ) d (fun state next => state = d ∧ next = d)
    failed := ⟨rfl, rfl⟩

end Leaves

/-! ### Operations that may have no effect -/

/-- A directory with the operations of which some have no effect. -/
structure Unreliable (σ : Type) where
  /-- The directory as it is. -/
  inner : σ
  /-- Whether the next operation takes effect, and so on; none does after the last of these. -/
  fates : List Bool

namespace Unreliable

variable {σ : Type}

/-- Does an operation if it takes effect; why it failed otherwise is nothing that anybody asks. -/
def perform {α : Type} (operation : Step σ α) : Step (Unreliable σ) α := fun state =>
  match state.fates with
  | true :: rest =>
    let (result, inner) := operation.runFrom state.inner
    (result, ⟨inner, rest⟩)
  | false :: rest => (.error (.inaccessible ""), { state with fates := rest })
  | [] => (.error (.inaccessible ""), state)

/-- An operation that takes effect is the operation of the directory. -/
theorem runFrom_perform {α : Type} (operation : Step σ α) (d : σ) (rest : List Bool) :
    (perform operation).runFrom ⟨d, true :: rest⟩
      = ((operation.runFrom d).1, ⟨(operation.runFrom d).2, rest⟩) := rfl

/-- An operation that takes effect does what it does, and one that does not fails. -/
theorem leaves_perform {α : Type} {operation : Step σ α} {state : Unreliable σ}
    {done : α → σ → Prop} {failed : σ → Prop} (hfailed : failed state.inner)
    (h : Leaves operation state.inner done failed) :
    Leaves (perform operation) state (fun value next => done value next.inner)
      (fun next => failed next.inner) := by
  obtain ⟨inner, fates⟩ := state
  match fates with
  | [] => exact hfailed
  | false :: rest => exact hfailed
  | true :: rest =>
      unfold Leaves at h ⊢
      rw [runFrom_perform]
      match hrun : operation.runFrom inner with
      | (.ok value, next) =>
          rw [hrun] at h
          exact h
      | (.error e, next) =>
          rw [hrun] at h
          exact h

instance [Storage σ] : Storage (Unreliable σ) where
  list state := Storage.list state.inner
  read state := Storage.read state.inner
  hasFile state := Storage.hasFile state.inner
  write name bytes := perform (Storage.write name bytes)
  delete name := perform (Storage.delete name)
  sync := perform Storage.sync

end Unreliable

/-! ### What steps ensure -/

variable {σ α β : Type}

/--
What a step makes of a directory, whatever the schedule: the one if it succeeds, the other if it
fails.
-/
def Ensures (step : Step (Unreliable σ) α) (d : σ) (done : α → σ → Prop) (failed : σ → Prop) :
    Prop :=
  ∀ fates, match step.runFrom ⟨d, fates⟩ with
    | (.ok value, next) => done value next.inner
    | (.error _, next) => failed next.inner

/-- A step ensures what it leaves under every schedule. -/
theorem ensures_iff {step : Step (Unreliable σ) α} {d : σ} {done : α → σ → Prop}
    {failed : σ → Prop} : Ensures step d done failed ↔ ∀ fates, Leaves step ⟨d, fates⟩
      (fun value next => done value next.inner) (fun next => failed next.inner) := by
  refine forall_congr' fun fates => ?_
  rw [Leaves]
  rcases step.runFrom ⟨d, fates⟩ with ⟨e | value, next⟩
  · exact Iff.rfl
  · exact Iff.rfl

namespace Ensures

variable {d : σ} {failed : σ → Prop}

theorem pure {done : α → σ → Prop} {value : α} (h : done value d) :
    Ensures (Pure.pure value) d done failed := fun _ => h

theorem bind {first : Step (Unreliable σ) α} {second : α → Step (Unreliable σ) β}
    {middle : α → σ → Prop} {done : β → σ → Prop} (h : Ensures first d middle failed)
    (hrest : ∀ value next, middle value next → Ensures (second value) next done failed) :
    Ensures (first >>= second) d done failed :=
  ensures_iff.mpr fun fates => .bind _ (ensures_iff.mp h fates) fun value next hmiddle =>
    ensures_iff.mp (hrest value next.inner hmiddle) next.fates

/-- Looking at the directory changes nothing. -/
theorem get : Ensures (MonadState.get : Step (Unreliable σ) (Unreliable σ)) d
    (fun state next => state.inner = d ∧ next = d) failed := fun _ => ⟨rfl, rfl⟩

/-- An operation has its effect or leaves the directory as it was. -/
theorem perform {operation : Step σ α} {done : α → σ → Prop} (hfailed : failed d)
    (hdone : ∃ value next, operation.runFrom d = (.ok value, next) ∧ done value next) :
    Ensures (Unreliable.perform operation) d done failed := by
  obtain ⟨value, next, hrun, hdone⟩ := hdone
  exact ensures_iff.mpr fun _ => Unreliable.leaves_perform hfailed (.ok hrun hdone)

end Ensures

/-! ### Operations on files -/

variable [Storage σ]

/-- Nothing but the given files has changed. -/
def Spares (files : List String) (d next : σ) : Prop :=
  ∀ other, IndexFile other → other ∉ files → Storage.read next other = Storage.read d other

namespace Ensures

variable {usable : σ → Prop} {d : σ} {failed : σ → Prop} {done : Unit → σ → Prop}

theorem write (hr : Reliable σ usable) (hd : usable d) {file : String} (hfile : IndexFile file)
    {bytes : Bytes} (hfailed : failed d)
    (hdone : ∀ next, usable next → Spares [file] d next → Storage.read next file = .ok bytes →
      done () next) :
    Ensures (Storage.write file bytes) d done failed := by
  obtain ⟨next, hrun, hnext, hread, hothers⟩ := hr.write hd hfile bytes
  have hspares : Spares [file] d next := fun other hother hne =>
    hothers other hother (List.mem_singleton.not.mp hne)
  exact perform hfailed ⟨(), next, hrun, hdone next hnext hspares hread⟩

theorem delete (hr : Reliable σ usable) (hd : usable d) {file : String} (hfile : IndexFile file)
    (hthere : Storage.hasFile d file = true) (hfailed : failed d)
    (hdone : ∀ next, usable next → Spares [file] d next → done () next) :
    Ensures (Storage.delete file) d done failed := by
  obtain ⟨next, hrun, hnext, hothers⟩ := hr.delete hd hfile hthere
  have hspares : Spares [file] d next := fun other hother hne =>
    hothers other hother (List.mem_singleton.not.mp hne)
  exact perform hfailed ⟨(), next, hrun, hdone next hnext hspares⟩

theorem sync (hr : Reliable σ usable) (hd : usable d) (hfailed : failed d)
    (hdone : ∀ next, usable next → Spares [] d next → done () next) :
    Ensures Storage.sync d done failed := by
  obtain ⟨next, hrun, hnext, hothers⟩ := hr.sync hd
  have hspares : Spares [] d next := fun other hother _ => hothers other hother
  exact perform hfailed ⟨(), next, hrun, hdone next hnext hspares⟩

end Ensures

end DocIndex.Storage
