/-
Numbers as the index holds them, and intervals of what can be compared.

Two integers are compared exactly; as soon as one side is a double both are compared as
doubles.
-/
import DocIndex.Number.Double

namespace DocIndex

/-- A number in the index. -/
inductive Numeric where
  | long (value : Int)
  | double (value : Double)
deriving DecidableEq

namespace Numeric

/-- The nearest double. -/
def toDouble : Numeric → Double
  | long n => Double.ofInt n
  | double x => x

/-- The order of two numbers; a NaN is comparable with nothing. -/
def order? : Numeric → Numeric → Option Ordering
  | long a, long b => some (compare a b)
  | a, b => a.toDouble.order? b.toDouble

end Numeric

/-- An interval with bounds that may be missing and may belong to it. -/
structure Interval (α : Type) where
  lower : Option α
  upper : Option α
  includeLower : Bool
  includeUpper : Bool
deriving DecidableEq

namespace Interval

variable {α : Type}

/-- The interval that holds one value. -/
def exactly (value : α) : Interval α := ⟨some value, some value, true, true⟩

/-- The interval that holds every value. -/
def unbounded : Interval α := ⟨none, none, false, false⟩

/-- The interval from a bound upwards. -/
def above (bound : α) (inclusive : Bool) : Interval α := ⟨some bound, none, inclusive, false⟩

/-- The interval from a bound downwards. -/
def below (bound : α) (inclusive : Bool) : Interval α := ⟨none, some bound, false, inclusive⟩

/-- Whether a value lies in the interval under a partial order; a bound holds none incomparable. -/
def contains (order? : α → α → Option Ordering) (interval : Interval α) (value : α) : Bool :=
  let aboveLower := match interval.lower with
    | none => true
    | some lower => match order? value lower with
      | some .gt => true
      | some .eq => interval.includeLower
      | _ => false
  let belowUpper := match interval.upper with
    | none => true
    | some upper => match order? value upper with
      | some .lt => true
      | some .eq => interval.includeUpper
      | _ => false
  aboveLower && belowUpper

end Interval

end DocIndex
