/-
Spans of time, counted in nanoseconds with a sign.

The supported range is that of a signed 64-bit number of milliseconds, the same in both
directions; `Span.check?` is the one place that says so.
-/
import DocIndex.Number.Integer

namespace DocIndex

/-- A signed span of time. -/
structure Span where
  nanos : Int
deriving DecidableEq

namespace Span

def nanosPerSecond : Int := 1000000000

/-- The longest supported span in nanoseconds. -/
def limit : Int := int64Max * 1000000

/-- A span that lies in the supported range. -/
def check? (nanos : Int) : Option Span :=
  if -limit ≤ nanos && nanos ≤ limit then some ⟨nanos⟩ else none

def zero : Span := ⟨0⟩

/-- So many whole seconds. -/
def ofSeconds? (seconds : Int) : Option Span := check? (seconds * nanosPerSecond)

/-- The sum of two spans. -/
def add? (a b : Span) : Option Span := check? (a.nanos + b.nanos)

def neg (a : Span) : Span := ⟨-a.nanos⟩

/-- Whole seconds, rounded toward zero. -/
def seconds (a : Span) : Int := a.nanos.tdiv nanosPerSecond

/-- What is left beyond the whole seconds, with the sign of the span. -/
def subsecondNanos (a : Span) : Int := a.nanos.tmod nanosPerSecond

/-- The span in units of 100 nanoseconds. -/
def ticks (a : Span) : Int := a.seconds * 10000000 + a.subsecondNanos.tdiv 100

/-- Pads the digits of a decimal fraction of a second to seven places. -/
def padFraction (fraction : List Char) : List Char :=
  fraction ++ List.replicate (7 - fraction.length) '0'

/-- The text before and after the first `mark`. -/
def splitAtFirst? (mark : Char) (text : List Char) : Option (List Char × List Char) :=
  match text.span (· != mark) with
  | (before, _ :: after) => some (before, after)
  | (_, []) => none

/-- Reads days and hours: `h`, or `d.h`. -/
def readHours? (text : List Char) : Option (Int × Int) :=
  match splitAtFirst? '.' text with
  | some (days, hours) => do return (← readInt64? days, ← readInt64? hours)
  | none => do return (0, ← readInt64? text)

/-- Reads seconds and their fraction in units of 100 nanoseconds: `s`, or `s.f`. -/
def readSeconds? (text : List Char) : Option (Int × Int) :=
  match splitAtFirst? '.' text with
  | some (seconds, fraction) => do
    let seconds ← readInt64? seconds
    if fraction.isEmpty then return (seconds, 0)
    else if (String.ofList fraction).utf8ByteSize > 7 then none
    else return (seconds, ← readInt64? (padFraction fraction))
  | none => do return (← readInt64? text, 0)

/--
Reads `[-][d.]h:m:s[.f]`.  The pieces are integers with an optional sign of their own, and
hours, minutes and seconds are bounded from above only.
-/
def ofText? (text : List Char) : Option Span := do
  let (negative, body) := match text with
    | '-' :: rest => (true, rest)
    | _ => (false, text)
  let (first, rest) ← splitAtFirst? ':' body
  let (middle, last) ← splitAtFirst? ':' rest
  let minutes ← readInt64? middle
  let (days, hours) ← readHours? first
  let (seconds, ticks) ← readSeconds? last
  if 23 < hours || 59 < minutes || 59 < seconds then none
  else
    let total ← ofSeconds? (days * 86400)
    let total ← total.add? (← ofSeconds? (hours * 3600))
    let total ← total.add? (← ofSeconds? (minutes * 60))
    let total ← total.add? (← ofSeconds? seconds)
    let total ← total.add? ⟨ticks * 100⟩
    return if negative then total.neg else total

end Span

end DocIndex
