/-
Sequencers: values are delivered in the order in which their turns were reserved, however the
work for them ends.

A turn can be split into earlier turns, which come before it and after those that were split
from it before.  Whoever completes a turn while nobody delivers takes up the delivery: it
collects the values of all leading turns that are completed, delivers them one by one, and
looks again before it gives the delivery up.  A turn that ends without a value is passed
over.

`reserve`, `split`, `complete`, `collect` and `deliver` are single steps, so that any
interleaving of several workers is a sequence of them.  `settle` is what one worker does by
itself after it completed a turn.
-/
import DocIndex.Data.Table

namespace DocIndex.Work

/--
The place of a turn: its number among the reserved turns, and at each level of splitting the
number of the part.
-/
structure TurnKey where
  path : List Nat
deriving DecidableEq, Repr

namespace TurnKey

/-- The order of places: parts come before what they were split from. -/
def orderPaths : List Nat → List Nat → Ordering
  | [], [] => .eq
  | [], _ :: _ => .gt
  | _ :: _, [] => .lt
  | a :: as, b :: bs => (compare a b).then (orderPaths as bs)

instance : Ord TurnKey := ⟨fun a b => orderPaths a.path b.path⟩

/-- The place of a part. -/
def part (key : TurnKey) (number : Nat) : TurnKey := ⟨key.path ++ [number]⟩

end TurnKey

/-- What is known of a turn. -/
inductive Turn (α : Type) where
  /-- The work is not done; so many parts were split off. -/
  | pending (parts : Nat)
  | ready (value : α)
  /-- The work ended without a value. -/
  | abandoned
deriving DecidableEq

namespace Turn

def isPending {α : Type} : Turn α → Bool
  | pending _ => true
  | _ => false

/-- The value of a turn that is ready. -/
def value? {α : Type} : Turn α → Option α
  | ready value => some value
  | _ => none

end Turn

/-- Turns that are not delivered yet. -/
structure Sequencer (α : Type) where
  turns : Table TurnKey (Turn α)
  /-- The number of the next turn that is reserved. -/
  nextTurn : Nat
  /-- Whether somebody delivers. -/
  delivering : Bool
  /-- Values that were collected and are still to be delivered. -/
  collected : List α

namespace Sequencer

variable {α : Type}

/-- A sequencer without turns. -/
def empty : Sequencer α := ⟨[], 0, false, []⟩

/-- Reserves a turn after all others. -/
def reserve (s : Sequencer α) : Sequencer α × TurnKey :=
  let key : TurnKey := ⟨[s.nextTurn]⟩
  ({ s with turns := Table.insert s.turns key (.pending 0), nextTurn := s.nextTurn + 1 }, key)

/-- Splits a part off a turn that is pending. -/
def split (s : Sequencer α) (key : TurnKey) : Sequencer α × TurnKey :=
  match Table.find? s.turns key with
  | some (.pending parts) =>
    let child := key.part parts
    let counted := Table.insert s.turns key (.pending (parts + 1))
    ({ s with turns := Table.insert counted child (.pending 0) }, child)
  | _ => (s, key)

/-- Ends a turn; whoever does takes up the delivery unless somebody else delivers. -/
def complete (s : Sequencer α) (key : TurnKey) (outcome : Turn α) : Sequencer α :=
  { s with turns := Table.insert s.turns key outcome, delivering := true }

/-- The turns at the front that are not pending. -/
def completedTurns (turns : Table TurnKey (Turn α)) : List (Turn α) :=
  (turns.takeWhile fun entry => !entry.2.isPending).map Prod.snd

/--
Takes the completed turns off the front and collects their values.  The delivery ends if there
are none.
-/
def collect (s : Sequencer α) : Sequencer α :=
  let values := (completedTurns s.turns).filterMap Turn.value?
  { s with
    turns := s.turns.dropWhile fun entry => !entry.2.isPending
    delivering := !values.isEmpty
    collected := values }

/-- Delivers the next collected value. -/
def deliver (s : Sequencer α) : Option (α × Sequencer α) :=
  match s.collected with
  | value :: rest => some (value, { s with collected := rest })
  | [] => none

/-- Delivers all that can be delivered; gives the values in order. -/
def settle (s : Sequencer α) : List α × Sequencer α :=
  let collected := s.collect
  (collected.collected, { collected with delivering := false, collected := [] })

/-- Ends a turn and delivers all that can be delivered. -/
def finish (s : Sequencer α) (key : TurnKey) (outcome : Turn α) : List α × Sequencer α :=
  (s.complete key outcome).settle

/-- How many turns are not delivered. -/
def size (s : Sequencer α) : Nat := s.turns.length

end Sequencer

end DocIndex.Work
