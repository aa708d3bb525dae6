/-
In which order a queue gives out what it was given.

Items can be equal, and then the items alone do not say which of them was taken.  So each accepted
item gets a ticket with its number.  A queue does not look at its items (`serve_map`): what it does
with tickets it does with the bare items, and `History` is a run of the queue itself, over tickets.

The entries of a queue stand in the order in which they will be taken, and this order is decided
when an item is placed.  It is the one invariant here (`InTurn.ordered`): the more urgent ticket
before the less urgent one, and of two as urgent ones the earlier.  The next ticket is the first, so
that the order says what is taken, and where each ticket is, is an equation of lists up to order.

The queue can also be seen as one row of items for each priority (`level`): an item is put at the
end of its row, and the next item is the first of the first row that has one.
-/
import Mathlib.Data.List.Perm.Basic
import Mathlib.Data.List.TakeWhile
import DocIndex.Work.Queue

namespace DocIndex.Work

variable {α β : Type}

theorem Priority.rank_injective {p q : Priority} (h : p.rank = q.rank) : p = q := by
  cases p <;> cases q <;> first | rfl | cases h

/-- What is asked of a queue. -/
inductive QueueCall (α : Type) where
  | enqueue (item : α) (priority : Priority)
  | dequeue
  | drain
  | close

/-- What a queue answers. -/
inductive QueueAnswer (α : Type) where
  | accepted
  | handedBack (item : α)
  | taken (taken : Taken α)
  | drained (items : List α)
  | closed

/-- The same of other items. -/
def Taken.map (f : α → β) : Taken α → Taken β
  | item value => .item (f value)
  | waiting => .waiting
  | ended => .ended

namespace QueueAnswer

/-- The same of other items. -/
def map (f : α → β) : QueueAnswer α → QueueAnswer β
  | accepted => .accepted
  | handedBack item => .handedBack (f item)
  | taken got => .taken (got.map f)
  | drained all => .drained (all.map f)
  | closed => .closed

/-- The items that are taken out with an answer. -/
def items : QueueAnswer α → List α
  | taken (.item item) => [item]
  | drained all => all
  | _ => []

end QueueAnswer

namespace QueueCall

/-- The same of other items. -/
def map (f : α → β) : QueueCall α → QueueCall β
  | enqueue item priority => .enqueue (f item) priority
  | dequeue => .dequeue
  | drain => .drain
  | close => .close

/-- The item that a call adds, given how it is answered. -/
def adds : QueueCall α → QueueAnswer α → List α
  | enqueue item _, .accepted => [item]
  | _, _ => []

/-- What a call offers. -/
def offer? : QueueCall α → Option (Priority × α)
  | enqueue item priority => some (priority, item)
  | _ => none

def isClose : QueueCall α → Bool
  | close => true
  | _ => false

end QueueCall

/-- What is offered with some calls until the queue is closed. -/
def offers (calls : List (QueueCall α)) : List (Priority × α) :=
  (calls.takeWhile fun call => !call.isClose).filterMap QueueCall.offer?

theorem offers_cons_of_ne {call : QueueCall α} (h : call ≠ .close) (calls : List (QueueCall α)) :
    call.offer?.toList ++ offers calls = offers (call :: calls) := by
  cases call with
  | close => exact absurd rfl h
  | enqueue item priority => rfl
  | dequeue | drain => rfl

namespace PriorityQueue

/-- One call. -/
def answer (queue : PriorityQueue α) : QueueCall α → QueueAnswer α × PriorityQueue α
  | .enqueue item priority =>
    match queue.enqueue? item priority with
    | some next => (.accepted, next)
    | none => (.handedBack item, queue)
  | .dequeue => (.taken queue.dequeue.1, queue.dequeue.2)
  | .drain => (.drained queue.drain.1, queue.drain.2)
  | .close => (.closed, queue.close)

/-- Calls one after the other. -/
def serve (queue : PriorityQueue α) : List (QueueCall α) → List (QueueAnswer α) × PriorityQueue α
  | [] => ([], queue)
  | call :: calls =>
    let (answer, next) := queue.answer call
    let (answers, last) := next.serve calls
    (answer :: answers, last)

/-- At most so many calls for an item, as long as there is one. -/
def dequeueUpTo : Nat → PriorityQueue α → List α × PriorityQueue α
  | 0, queue => ([], queue)
  | n + 1, queue =>
    match queue.dequeue with
    | (.item item, next) =>
      let (items, last) := dequeueUpTo n next
      (item :: items, last)
    | (_, next) => ([], next)

/-! ### What single operations do -/

theorem enqueue?_of_open {queue : PriorityQueue α} (h : queue.closed = false) (item : α)
    (priority : Priority) :
    queue.enqueue? item priority =
      some { queue with entries := place item priority queue.entries } := by
  rw [enqueue?, h]
  rfl

theorem enqueue?_of_closed {queue : PriorityQueue α} (h : queue.closed = true) (item : α)
    (priority : Priority) : queue.enqueue? item priority = none := by
  rw [enqueue?, h]
  rfl

theorem place_perm (item : α) (priority : Priority) (entries : List (Priority × α)) :
    (place item priority entries).Perm (entries ++ [(priority, item)]) := by
  refine List.perm_middle.trans ?_
  rw [List.takeWhile_append_dropWhile]
  exact (List.perm_append_singleton _ _).symm

theorem dequeue_cons (entry : Priority × α) (rest : List (Priority × α)) (closed : Bool) :
    dequeue ⟨entry :: rest, closed⟩ = (.item entry.2, ⟨rest, closed⟩) := rfl

theorem dequeue_nil (closed : Bool) :
    dequeue (⟨[], closed⟩ : PriorityQueue α) =
      (if closed then .ended else .waiting, ⟨[], closed⟩) := rfl

/-- Draining a queue is asking it for as many items as it has. -/
theorem dequeueUpTo_size (queue : PriorityQueue α) :
    dequeueUpTo queue.size queue = queue.drain := by
  obtain ⟨entries, closed⟩ := queue
  induction entries with
  | nil => rfl
  | cons entry rest ih =>
    have hrest : dequeueUpTo rest.length (⟨rest, closed⟩ : PriorityQueue α) =
        drain ⟨rest, closed⟩ := ih
    rw [size, List.length_cons, dequeueUpTo, dequeue_cons]
    simp only [hrest]
    rfl

/--
A call either places an item in an open queue, or it adds nothing and takes items from the front.
-/
theorem answer_cases (queue : PriorityQueue α) (call : QueueCall α) :
    (∃ item priority, call = .enqueue item priority ∧ queue.closed = false ∧
      queue.answer call =
        (.accepted, { queue with entries := place item priority queue.entries })) ∨
    (call.adds (queue.answer call).1 = [] ∧
      (queue.answer call).2.entries.Sublist queue.entries ∧
      queue.items = (queue.answer call).1.items ++ (queue.answer call).2.items) := by
  cases call with
  | enqueue item priority =>
    by_cases hclosed : queue.closed
    · right
      rw [answer, enqueue?_of_closed hclosed]
      exact ⟨rfl, List.Sublist.refl _, rfl⟩
    · left
      have hopen : queue.closed = false := by simpa using hclosed
      refine ⟨item, priority, rfl, hopen, ?_⟩
      rw [answer, enqueue?_of_open hopen]
  | dequeue =>
    right
    obtain ⟨entries, closed⟩ := queue
    cases entries with
    | nil => cases closed <;> exact ⟨rfl, List.Sublist.refl _, rfl⟩
    | cons entry rest => exact ⟨rfl, List.sublist_cons_self _ _, rfl⟩
  | drain => exact .inr ⟨rfl, List.nil_sublist _, (List.append_nil _).symm⟩
  | close => exact .inr ⟨rfl, List.Sublist.refl _, rfl⟩

/-- Only closing closes a queue, and nothing opens it again. -/
theorem answer_closed (queue : PriorityQueue α) (call : QueueCall α) :
    (queue.answer call).2.closed = true ↔ queue.closed = true ∨ call = .close := by
  cases call with
  | enqueue item priority =>
    by_cases hclosed : queue.closed
    · rw [answer, enqueue?_of_closed hclosed]
      simp
    · rw [answer, enqueue?_of_open (by simpa using hclosed)]
      simp
  | dequeue =>
    obtain ⟨entries, closed⟩ := queue
    cases entries with
    | nil => simp [answer, dequeue_nil]
    | cons entry rest => simp [answer, dequeue_cons]
  | drain => simp [answer, drain]
  | close => simp [answer, close]

/-! ### A queue does not look at its items -/

/-- The same queue of other items. -/
def map (f : α → β) (queue : PriorityQueue α) : PriorityQueue β :=
  ⟨queue.entries.map (Prod.map id f), queue.closed⟩

theorem place_map (f : α → β) (item : α) (priority : Priority) (entries : List (Priority × α)) :
    place (f item) priority (entries.map (Prod.map id f)) =
      (place item priority entries).map (Prod.map id f) := by
  rw [place, place, List.map_append, List.takeWhile_map, List.dropWhile_map]
  rfl

theorem answer_map (f : α → β) (queue : PriorityQueue α) (call : QueueCall α) :
    (queue.map f).answer (call.map f) =
      ((queue.answer call).1.map f, (queue.answer call).2.map f) := by
  obtain ⟨entries, closed⟩ := queue
  cases call with
  | enqueue item priority =>
    cases closed with
    | false =>
      simp only [answer, QueueCall.map, enqueue?, map, Bool.false_eq_true, if_false, place_map]
      rfl
    | true => rfl
  | dequeue =>
    cases entries with
    | nil => cases closed <;> rfl
    | cons entry rest => rfl
  | drain =>
    have hitems : (entries.map (Prod.map id f)).map Prod.snd = (entries.map Prod.snd).map f := by
      rw [List.map_map, List.map_map]
      rfl
    simp only [answer, QueueCall.map, drain, items, map, hitems]
    rfl
  | close => rfl

theorem serve_map (f : α → β) (queue : PriorityQueue α) (calls : List (QueueCall α)) :
    (queue.map f).serve (calls.map (QueueCall.map f)) =
      ((queue.serve calls).1.map (QueueAnswer.map f), (queue.serve calls).2.map f) := by
  induction calls generalizing queue with
  | nil => rfl
  | cons call calls ih =>
    rw [List.map_cons, serve, answer_map]
    simp only [ih]
    rfl

/-! ### The order of the entries -/

/-- The more urgent entries stand first. -/
def Ranked (entries : List (Priority × α)) : Prop :=
  entries.Pairwise fun first second => first.1.rank ≤ second.1.rank

/-- An item is placed before the less urgent entries. -/
theorem Ranked.lt_of_mem_dropWhile {entries : List (Priority × α)} (h : Ranked entries)
    {priority : Priority} {entry : Priority × α}
    (hmem : entry ∈ entries.dropWhile fun e => e.1.rank ≤ priority.rank) :
    priority.rank < entry.1.rank := by
  induction entries with
  | nil => cases hmem
  | cons first rest ih =>
    obtain ⟨hfirst, hrest⟩ := List.pairwise_cons.mp h
    by_cases hahead : first.1.rank ≤ priority.rank
    · rw [List.dropWhile_cons_of_pos (by simpa using hahead)] at hmem
      exact ih hrest hmem
    · rw [List.dropWhile_cons_of_neg (by simpa using hahead)] at hmem
      rcases List.mem_cons.mp hmem with rfl | htail
      · omega
      · have hle := hfirst entry htail
        omega

theorem le_of_mem_takeWhile {entries : List (Priority × α)} {priority : Priority}
    {entry : Priority × α}
    (hmem : entry ∈ entries.takeWhile fun e => e.1.rank ≤ priority.rank) :
    entry.1.rank ≤ priority.rank := by
  simpa using List.mem_takeWhile_imp hmem

/--
An order of entries that goes by urgency is kept by placing an entry, if the entry comes after all
that are as urgent.
-/
theorem pairwise_place {before : Priority × α → Priority × α → Prop}
    {entries : List (Priority × α)} (hranked : Ranked entries) (h : entries.Pairwise before)
    {item : α} {priority : Priority}
    (hahead : ∀ entry ∈ entries, entry.1.rank ≤ priority.rank → before entry (priority, item))
    (hbehind : ∀ entry ∈ entries, priority.rank < entry.1.rank → before (priority, item) entry) :
    (place item priority entries).Pairwise before := by
  have hsplit : (entries.takeWhile (fun e => e.1.rank ≤ priority.rank) ++
      entries.dropWhile fun e => e.1.rank ≤ priority.rank).Pairwise before := by
    rw [List.takeWhile_append_dropWhile]
    exact h
  obtain ⟨htake, hdrop, hacross⟩ := List.pairwise_append.mp hsplit
  refine List.pairwise_append.mpr ⟨htake, List.pairwise_cons.mpr ⟨?_, hdrop⟩, ?_⟩
  · intro entry hentry
    exact hbehind entry (List.dropWhile_sublist _ |>.subset hentry)
      (hranked.lt_of_mem_dropWhile hentry)
  · intro first hfirst second hsecond
    rcases List.mem_cons.mp hsecond with rfl | hrest
    · exact hahead first (List.takeWhile_sublist _ |>.subset hfirst) (le_of_mem_takeWhile hfirst)
    · exact hacross first hfirst second hrest

theorem Ranked.place {entries : List (Priority × α)} (h : Ranked entries) (item : α)
    (priority : Priority) : Ranked (place item priority entries) :=
  pairwise_place h h (fun _ _ hle => hle) (fun _ _ hlt => Nat.le_of_lt hlt)

/-! ### One row for each priority -/

/-- The items of one priority, in the order in which they will be taken. -/
def level (priority : Priority) (entries : List (Priority × α)) : List α :=
  (entries.filter fun entry => entry.1 = priority).map Prod.snd

theorem level_append (priority : Priority) (first second : List (Priority × α)) :
    level priority (first ++ second) = level priority first ++ level priority second := by
  rw [level, List.filter_append, List.map_append]
  rfl

theorem level_cons_self (priority : Priority) (item : α) (rest : List (Priority × α)) :
    level priority ((priority, item) :: rest) = item :: level priority rest := by
  simp [level]

theorem level_cons_ne {priority : Priority} {entry : Priority × α} (h : entry.1 ≠ priority)
    (rest : List (Priority × α)) : level priority (entry :: rest) = level priority rest := by
  simp [level, h]

theorem level_eq_nil {priority : Priority} {entries : List (Priority × α)}
    (h : ∀ entry ∈ entries, priority.rank < entry.1.rank) : level priority entries = [] := by
  induction entries with
  | nil => rfl
  | cons entry rest ih =>
    have hne : entry.1 ≠ priority := by
      intro heq
      have hlt := h entry List.mem_cons_self
      rw [heq] at hlt
      omega
    rw [level_cons_ne hne]
    exact ih fun other hother => h other (List.mem_cons_of_mem _ hother)

/-- An item is put at the end of its own row, and the other rows stay as they are. -/
theorem level_place {entries : List (Priority × α)} (h : Ranked entries) (item : α)
    (own priority : Priority) :
    level priority (place item own entries) =
      level priority entries ++ (if own = priority then [item] else []) := by
  have hsplit := congrArg (level priority)
    (List.takeWhile_append_dropWhile (p := fun e : Priority × α => e.1.rank ≤ own.rank)
      (l := entries))
  rw [level_append] at hsplit
  rw [place, level_append, ← hsplit]
  by_cases heq : own = priority
  · subst heq
    rw [level_cons_self, level_eq_nil fun entry hentry => h.lt_of_mem_dropWhile hentry, if_pos rfl,
      List.append_nil]
  · rw [level_cons_ne heq, if_neg heq, List.append_nil]

/-- The items stand row by row, the most urgent row first. -/
theorem Ranked.items_eq {entries : List (Priority × α)} (h : Ranked entries) :
    entries.map Prod.snd = Priority.all.flatMap fun priority => level priority entries := by
  induction entries with
  | nil => rfl
  | cons entry rest ih =>
    obtain ⟨hfirst, hrest⟩ := List.pairwise_cons.mp h
    obtain ⟨own, item⟩ := entry
    -- The rows before that of the first entry are empty.
    have hbefore : ∀ priority, priority.rank < own.rank → level priority rest = [] := by
      intro priority hlt
      refine level_eq_nil ?_
      intro other hother
      exact Nat.lt_of_lt_of_le hlt (hfirst other hother)
    rw [List.map_cons, ih hrest]
    cases own with
    | highest => simp [Priority.all, level_cons_self, level_cons_ne]
    | high =>
      have hhighest := hbefore .highest (by decide)
      simp [Priority.all, level_cons_self, level_cons_ne, hhighest]
    | medium =>
      have hhighest := hbefore .highest (by decide)
      have hhigh := hbefore .high (by decide)
      simp [Priority.all, level_cons_self, level_cons_ne, hhighest, hhigh]
    | low =>
      have hhighest := hbefore .highest (by decide)
      have hhigh := hbefore .high (by decide)
      have hmedium := hbefore .medium (by decide)
      simp [Priority.all, level_cons_self, level_cons_ne, hhighest, hhigh, hmedium]

end PriorityQueue

/-! ### Histories -/

/-- An item with the number and the priority that it was accepted with. -/
structure Ticket (α : Type) where
  number : Nat
  priority : Priority
  item : α

namespace Ticket

/-- Whether a ticket has its turn before another: it is more urgent, or as urgent and earlier. -/
def Before (first second : Ticket α) : Prop :=
  first.priority.rank < second.priority.rank ∨
    first.priority = second.priority ∧ first.number < second.number

/-- The earliest of those tickets that have the highest priority there is. -/
structure IsNext (ticket : Ticket α) (waiting : List (Ticket α)) : Prop where
  waits : ticket ∈ waiting
  urgent : ∀ other ∈ waiting, ticket.priority.rank ≤ other.priority.rank
  earliest : ∀ other ∈ waiting, other.priority = ticket.priority → ticket.number ≤ other.number

theorem IsNext.of_before {ticket : Ticket α} {rest : List (Ticket α)}
    (h : ∀ other ∈ rest, ticket.Before other) : ticket.IsNext (ticket :: rest) where
  waits := List.mem_cons_self
  urgent := by
    intro other hother
    rcases List.mem_cons.mp hother with rfl | hrest
    · exact Nat.le_refl _
    · rcases h other hrest with hurgent | ⟨hsame, -⟩
      · omega
      · rw [hsame]
  earliest := by
    intro other hother hpriority
    rcases List.mem_cons.mp hother with rfl | hrest
    · exact Nat.le_refl _
    · rcases h other hrest with hurgent | ⟨-, hnumber⟩
      · rw [hpriority] at hurgent
        omega
      · omega

end Ticket

/-- What happened to a queue of tickets: its answers so far, and the tickets that it accepted. -/
structure History (α : Type) where
  queue : PriorityQueue (Ticket α)
  accepted : List (Ticket α)
  answers : List (QueueAnswer (Ticket α))

namespace History

/-- A call in which an offered item has got the next number. -/
def ticketed (h : History α) : QueueCall α → QueueCall (Ticket α)
  | .enqueue item priority => .enqueue ⟨h.accepted.length, priority, item⟩ priority
  | .dequeue => .dequeue
  | .drain => .drain
  | .close => .close

/-- The history with one more call. -/
def call (h : History α) (call : QueueCall α) : History α :=
  let (answer, queue) := h.queue.answer (h.ticketed call)
  ⟨queue, h.accepted ++ (h.ticketed call).adds answer, h.answers ++ [answer]⟩

/-- The history of a new queue. -/
def start : History α := ⟨.empty, [], []⟩

/-- The history with more calls. -/
def after (h : History α) (calls : List (QueueCall α)) : History α := calls.foldl call h

/-- The tickets that were taken out, one by one or by draining. -/
def taken (h : History α) : List (Ticket α) := h.answers.flatMap QueueAnswer.items

/-- The tickets that are queued. -/
def waiting (h : History α) : List (Ticket α) := h.queue.items

variable {h : History α}

@[simp] theorem call_queue (h : History α) (call : QueueCall α) :
    (h.call call).queue = (h.queue.answer (h.ticketed call)).2 := rfl

@[simp] theorem call_accepted (h : History α) (call : QueueCall α) :
    (h.call call).accepted =
      h.accepted ++ (h.ticketed call).adds (h.queue.answer (h.ticketed call)).1 := rfl

@[simp] theorem call_answers (h : History α) (call : QueueCall α) :
    (h.call call).answers = h.answers ++ [(h.queue.answer (h.ticketed call)).1] := rfl

@[simp] theorem call_taken (h : History α) (call : QueueCall α) :
    (h.call call).taken = h.taken ++ (h.queue.answer (h.ticketed call)).1.items := by
  simp [taken]

/-! ### A history is one of the bare items -/

theorem ticketed_map (h : History α) (call : QueueCall α) :
    (h.ticketed call).map Ticket.item = call := by
  cases call <;> rfl

theorem after_map (h : History α) (calls : List (QueueCall α)) :
    (h.after calls).answers.map (QueueAnswer.map Ticket.item) =
        h.answers.map (QueueAnswer.map Ticket.item) ++
          ((h.queue.map Ticket.item).serve calls).1 ∧
      (h.after calls).queue.map Ticket.item = ((h.queue.map Ticket.item).serve calls).2 := by
  induction calls generalizing h with
  | nil => exact ⟨(List.append_nil _).symm, rfl⟩
  | cons call calls ih =>
    have hstep := PriorityQueue.answer_map Ticket.item h.queue (h.ticketed call)
    rw [ticketed_map] at hstep
    obtain ⟨hanswers, hqueue⟩ := ih (h.call call)
    have hserve : (h.queue.map Ticket.item).serve (call :: calls) =
        ((h.queue.answer (h.ticketed call)).1.map Ticket.item ::
          (((h.call call).queue.map Ticket.item).serve calls).1,
          (((h.call call).queue.map Ticket.item).serve calls).2) := by
      rw [PriorityQueue.serve, hstep]
      rfl
    rw [hserve]
    refine ⟨?_, hqueue⟩
    refine hanswers.trans ?_
    rw [call_answers, List.map_append, List.append_assoc]
    rfl

/-! ### The invariant -/

/-- What holds in every history. -/
structure InTurn (h : History α) : Prop where
  /-- The tickets are numbered in the order in which they were accepted. -/
  numbered : h.accepted.map Ticket.number = List.range h.accepted.length
  /-- An accepted ticket was either taken or still waits, and only once. -/
  accounted : h.accepted.Perm (h.taken ++ h.waiting)
  /-- The tickets are queued with their own priority. -/
  own : ∀ entry ∈ h.queue.entries, entry.1 = entry.2.priority
  /-- They wait in the order of their turns. -/
  ordered : h.queue.entries.Pairwise fun first second => first.2.Before second.2

namespace InTurn

theorem start : (History.start : History α).InTurn where
  numbered := rfl
  accounted := List.Perm.refl []
  own := by
    intro entry hentry
    cases hentry
  ordered := List.Pairwise.nil

theorem ranked (ok : h.InTurn) : PriorityQueue.Ranked h.queue.entries := by
  refine ok.ordered.imp_of_mem ?_
  intro first second hfirst hsecond hbefore
  rw [ok.own first hfirst, ok.own second hsecond]
  rcases hbefore with hurgent | ⟨hsame, -⟩
  · omega
  · rw [hsame]

/-- A ticket that waits has a smaller number than the next one will get. -/
theorem number_lt (ok : h.InTurn) {entry : Priority × Ticket α} (hentry : entry ∈ h.queue.entries) :
    entry.2.number < h.accepted.length := by
  have hwaits : entry.2 ∈ h.waiting := List.mem_map_of_mem hentry
  have hmem : entry.2 ∈ h.accepted :=
    ok.accounted.symm.subset (List.mem_append_right _ hwaits)
  have hnumber : entry.2.number ∈ List.range h.accepted.length :=
    ok.numbered ▸ List.mem_map_of_mem hmem
  exact List.mem_range.mp hnumber

/-- What one call keeps. -/
theorem call (ok : h.InTurn) (call : QueueCall α) : (h.call call).InTurn := by
  rcases h.queue.answer_cases (h.ticketed call) with
    ⟨ticket, priority, hcall, hopen, hanswer⟩ | ⟨hadds, hfront, hitems⟩
  · -- The ticket has the next number, so that it comes after all that are as urgent.
    have hticket : ticket.number = h.accepted.length ∧ ticket.priority = priority := by
      cases call with
      | enqueue item asked =>
        cases hcall
        exact ⟨rfl, rfl⟩
      | dequeue | drain | close => cases hcall
    obtain ⟨hnumber, hpriority⟩ := hticket
    have hplaced := PriorityQueue.place_perm ticket priority h.queue.entries
    constructor
    · rw [call_accepted, hanswer, hcall, List.map_append, ok.numbered, List.length_append]
      exact (congrArg (fun n => List.range h.accepted.length ++ [n]) hnumber).trans
        List.range_succ.symm
    · have hwaiting : (PriorityQueue.place ticket priority h.queue.entries).map Prod.snd |>.Perm
          (h.waiting ++ [ticket]) := by
        simpa [waiting, PriorityQueue.items] using hplaced.map Prod.snd
      rw [call_accepted, call_taken, waiting, call_queue, hanswer, hcall]
      refine (ok.accounted.append_right [ticket]).trans ?_
      rw [List.append_assoc]
      refine (List.Perm.append_left _ hwaiting.symm).trans ?_
      exact (List.append_nil h.taken).symm ▸ List.Perm.refl _
    · intro entry hentry
      rw [call_queue, hanswer] at hentry
      rcases List.mem_append.mp (hplaced.subset hentry) with hold | hnew
      · exact ok.own entry hold
      · obtain rfl := List.mem_singleton.mp hnew
        exact hpriority.symm
    · rw [call_queue, hanswer]
      refine PriorityQueue.pairwise_place ok.ranked ok.ordered ?_ ?_
      · intro entry hentry hle
        rw [ok.own entry hentry] at hle
        have hlt := ok.number_lt hentry
        by_cases hsame : entry.2.priority = priority
        · exact .inr ⟨hsame.trans hpriority.symm, hlt.trans_eq hnumber.symm⟩
        · have hne : entry.2.priority.rank ≠ priority.rank :=
            fun heq => hsame (Priority.rank_injective heq)
          rw [← hpriority] at hle hne
          exact .inl (Nat.lt_of_le_of_ne hle hne)
      · intro entry hentry hlt
        rw [ok.own entry hentry, ← hpriority] at hlt
        exact .inl hlt
  · have haccepted : (h.call call).accepted = h.accepted := by
      rw [call_accepted, hadds, List.append_nil]
    constructor
    · rw [haccepted]
      exact ok.numbered
    · rw [haccepted, call_taken, List.append_assoc]
      exact ok.accounted.trans (List.Perm.of_eq (congrArg _ hitems))
    · intro entry hentry
      exact ok.own entry (hfront.subset hentry)
    · exact ok.ordered.sublist hfront

/-- What any calls keep. -/
theorem after (ok : h.InTurn) (calls : List (QueueCall α)) : (h.after calls).InTurn := by
  induction calls generalizing h with
  | nil => exact ok
  | cons call calls ih => exact ih (ok.call call)

/-- The first ticket that waits is the next one. -/
theorem isNext (ok : h.InTurn) (entry : Priority × Ticket α) (rest : List (Priority × Ticket α))
    (hentries : h.queue.entries = entry :: rest) :
    entry.2.IsNext (entry.2 :: rest.map Prod.snd) := by
  have hfirst : ∀ other ∈ rest, entry.2.Before other.2 :=
    (List.pairwise_cons.mp (hentries ▸ ok.ordered)).1
  refine Ticket.IsNext.of_before ?_
  intro ticket hticket
  obtain ⟨other, hother, rfl⟩ := List.mem_map.mp hticket
  exact hfirst other hother

end InTurn

/-! ### What is accepted -/

/-- What the tickets were made of. -/
def contents (tickets : List (Ticket α)) : List (Priority × α) :=
  tickets.map fun ticket => (ticket.priority, ticket.item)

theorem closed_call (h : History α) (call : QueueCall α) :
    (h.call call).queue.closed = true ↔ h.queue.closed = true ∨ call = .close := by
  have hclose : h.ticketed call = .close ↔ call = .close := by cases call <;> simp [ticketed]
  rw [call_queue, PriorityQueue.answer_closed, hclose]

theorem closed_after (h : History α) (calls : List (QueueCall α)) :
    (h.after calls).queue.closed = true ↔ h.queue.closed = true ∨ .close ∈ calls := by
  induction calls generalizing h with
  | nil => simp [after]
  | cons call calls ih =>
    refine (ih (h.call call)).trans ?_
    rw [closed_call, List.mem_cons, or_assoc, eq_comm (b := call)]

theorem accepted_call (h : History α) (call : QueueCall α) :
    contents (h.call call).accepted =
      contents h.accepted ++ (if h.queue.closed then [] else call.offer?.toList) := by
  cases call with
  | enqueue item priority =>
    by_cases hclosed : h.queue.closed
    · rw [call_accepted, ticketed, PriorityQueue.answer, PriorityQueue.enqueue?_of_closed hclosed,
        if_pos hclosed]
      exact (congrArg contents (List.append_nil _)).trans (List.append_nil _).symm
    · rw [call_accepted, ticketed, PriorityQueue.answer,
        PriorityQueue.enqueue?_of_open (by simpa using hclosed), if_neg hclosed]
      exact List.map_append
  | dequeue | drain | close => simp [call_accepted, ticketed, QueueCall.adds, QueueCall.offer?]

/-- A queue accepts what it is offered until it is closed, and nothing more. -/
theorem accepted_after (h : History α) (calls : List (QueueCall α)) :
    contents (h.after calls).accepted =
      contents h.accepted ++ (if h.queue.closed then [] else offers calls) := by
  induction calls generalizing h with
  | nil => simp [after, offers]
  | cons call calls ih =>
    refine (ih (h.call call)).trans ?_
    rw [accepted_call, List.append_assoc]
    by_cases hclosed : h.queue.closed
    · have hstays : (h.call call).queue.closed = true := (closed_call h call).mpr (.inl hclosed)
      rw [if_pos hclosed, if_pos hstays, if_pos hclosed, List.append_nil]
    · rw [if_neg hclosed, if_neg hclosed]
      by_cases hclose : call = .close
      · have hnow : (h.call call).queue.closed = true := (closed_call h call).mpr (.inr hclose)
        rw [if_pos hnow, hclose]
        rfl
      · have hstill : (h.call call).queue.closed ≠ true := by
          rw [Ne, closed_call]
          simp [hclosed, hclose]
        rw [if_neg hstill, offers_cons_of_ne hclose]

end History

/-! ### The order of a queue -/

/-- A queue after some calls: what happened to it, and what the next call will do. -/
structure KeepsTurns (calls : List (QueueCall α)) (h : History α) : Prop where
  /-- The history is that of the bare items. -/
  bare : PriorityQueue.empty.serve calls =
    (h.answers.map (QueueAnswer.map Ticket.item), h.queue.map Ticket.item)
  /-- What was offered until the queue was closed is what has got tickets, and in this order. -/
  accepted : History.contents h.accepted = offers calls
  numbered : h.accepted.map Ticket.number = List.range h.accepted.length
  /-- Each accepted ticket was either taken or still waits, and only once. -/
  accounted : h.accepted.Perm (h.taken ++ h.waiting)
  /-- They wait row by row, the most urgent row first. -/
  rows : h.waiting = Priority.all.flatMap fun p => PriorityQueue.level p h.queue.entries
  /-- An item that is taken is the next one, and the others stay; none is taken if none waits. -/
  dequeue :
    match h.queue.dequeue with
    | (.item ticket, rest) => ticket.IsNext h.waiting ∧ h.waiting = ticket :: rest.items
    | (.waiting, rest) => h.waiting = [] ∧ .close ∉ calls ∧ rest = h.queue
    | (.ended, rest) => h.waiting = [] ∧ .close ∈ calls ∧ rest = h.queue
  /-- Draining is taking items until none waits. -/
  drain : h.queue.drain = h.queue.dequeueUpTo h.queue.size ∧ h.queue.drain.2.items = []
  /-- A closed queue hands back what it is offered. -/
  refusal : .close ∈ calls → ∀ ticket priority,
    h.queue.answer (.enqueue ticket priority) = (.handedBack ticket, h.queue)

/-- Whatever a queue is asked, it gives each item out in its turn. -/
theorem queue_keeps_turns (calls : List (QueueCall α)) :
    KeepsTurns calls (History.start.after calls) := by
  have ok : (History.start.after calls : History α).InTurn := History.InTurn.start.after calls
  have hclosed : (History.start.after calls).queue.closed = true ↔ .close ∈ calls :=
    (History.closed_after _ _).trans (or_iff_right Bool.false_ne_true)
  obtain ⟨hanswers, hqueue⟩ := History.after_map History.start calls
  constructor
  case bare => exact Prod.ext hanswers.symm hqueue.symm
  case accepted => exact History.accepted_after History.start calls
  case numbered => exact ok.numbered
  case accounted => exact ok.accounted
  case rows => exact ok.ranked.items_eq
  case dequeue =>
    have hnext := ok.isNext
    generalize (History.start.after calls : History α) = h at hclosed hnext ⊢
    obtain ⟨⟨entries, closed⟩, accepted, answers⟩ := h
    cases entries with
    | nil =>
      rw [PriorityQueue.dequeue_nil]
      cases closed with
      | false => exact ⟨rfl, fun hmem => Bool.false_ne_true (hclosed.mpr hmem), rfl⟩
      | true => exact ⟨rfl, hclosed.mp rfl, rfl⟩
    | cons entry rest => exact ⟨hnext entry rest rfl, rfl⟩
  case drain => exact ⟨(PriorityQueue.dequeueUpTo_size _).symm, rfl⟩
  case refusal =>
    intro hmem ticket priority
    rw [PriorityQueue.answer, PriorityQueue.enqueue?_of_closed (hclosed.mpr hmem)]

end DocIndex.Work
