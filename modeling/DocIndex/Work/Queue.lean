/-
Queues with priorities.

The entries stand in the order in which they will be taken: higher priorities first, and
entries of one priority in the order in which they came.  A closed queue takes no more
items, and gives out those that it has.
-/

namespace DocIndex.Work

/-- How urgent an item is. -/
inductive Priority where
  | highest
  | high
  | medium
  | low
deriving DecidableEq, Repr

namespace Priority

def all : List Priority := [highest, high, medium, low]

/-- The place of the priority, from the most urgent on. -/
def rank : Priority → Nat
  | highest => 0
  | high => 1
  | medium => 2
  | low => 3

end Priority

/-- Items in the order in which they will be taken. -/
structure PriorityQueue (α : Type) where
  entries : List (Priority × α)
  closed : Bool

/-- What a queue gives to one who asks for an item. -/
inductive Taken (α : Type) where
  | item (item : α)
  /-- Nothing is there yet. -/
  | waiting
  /-- Nothing will come any more. -/
  | ended
deriving DecidableEq

namespace PriorityQueue

variable {α : Type}

/-- An open queue without items. -/
def empty : PriorityQueue α := ⟨[], false⟩

/-- Puts an item behind all that are at least as urgent. -/
def place (item : α) (priority : Priority) (entries : List (Priority × α)) : List (Priority × α) :=
  let isAhead := fun entry : Priority × α => entry.1.rank ≤ priority.rank
  entries.takeWhile isAhead ++ (priority, item) :: entries.dropWhile isAhead

/-- Adds an item, unless the queue is closed. -/
def enqueue? (queue : PriorityQueue α) (item : α) (priority : Priority) :
    Option (PriorityQueue α) :=
  if queue.closed then none
  else some { queue with entries := place item priority queue.entries }

/-- Takes the next item. -/
def dequeue (queue : PriorityQueue α) : Taken α × PriorityQueue α :=
  match queue.entries with
  | (_, item) :: rest => (.item item, { queue with entries := rest })
  | [] => (if queue.closed then .ended else .waiting, queue)

/-- The items in the order in which they will be taken. -/
def items (queue : PriorityQueue α) : List α := queue.entries.map Prod.snd

/-- Takes all items. -/
def drain (queue : PriorityQueue α) : List α × PriorityQueue α :=
  (queue.items, { queue with entries := [] })

/-- Refuses items from now on. -/
def close (queue : PriorityQueue α) : PriorityQueue α := { queue with closed := true }

def size (queue : PriorityQueue α) : Nat := queue.entries.length

def isEmpty (queue : PriorityQueue α) : Bool := queue.entries.isEmpty

end PriorityQueue

end DocIndex.Work
