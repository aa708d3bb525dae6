/-
Capacity: how much work is under way, against a ceiling.

The ceiling does not refuse work.  It only decides whether more work is asked for.
-/

namespace DocIndex.Work

/-- A ceiling and the cost of the work that is under way. -/
structure Capacity where
  ceiling : Nat
  inFlight : Nat
deriving DecidableEq, Repr

namespace Capacity

/-- Nothing is under way. -/
def idle (ceiling : Nat) : Capacity := ⟨ceiling, 0⟩

/-- Counts work that begins. -/
def charge (c : Capacity) (cost : Nat) : Capacity := { c with inFlight := c.inFlight + cost }

/-- Counts work that is done; the count does not fall below zero. -/
def discharge (c : Capacity) (cost : Nat) : Capacity := { c with inFlight := c.inFlight - cost }

/-- Whether more work may be asked for. -/
def hasRoom (c : Capacity) : Bool := c.inFlight < c.ceiling

end Capacity

end DocIndex.Work
