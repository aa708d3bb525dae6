/-
Instants with the offset from UTC that they are written in.

An instant is a number of whole seconds since 1970-01-01T00:00:00Z, read off the UTC clock,
and the nanoseconds after that second.  During a leap second the clock stands still and the
nanoseconds run on past a full second.  `sameInstant` ignores the offset.
-/
import DocIndex.Time.Calendar
import DocIndex.Time.Span

namespace DocIndex

/-- An instant, and the seconds by which local time is ahead of UTC. -/
structure Moment where
  seconds : Int
  nanos : Nat
  offset : Int
deriving DecidableEq

/-- A time of day, with second 59 and more than a full second of nanoseconds in a leap second. -/
structure Clock where
  hour : Nat
  minute : Nat
  second : Nat
  nanos : Nat
deriving DecidableEq

namespace Moment

def secondsPerDay : Int := 86400

/-- Whether two moments are the same instant. -/
def sameInstant (a b : Moment) : Bool := a.seconds == b.seconds && a.nanos == b.nanos

/-- Whether the year in UTC is supported. -/
def isSupported (m : Moment) : Bool :=
  Date.isSupportedYear (Date.ofDays (m.seconds / secondsPerDay)).year

/-- A moment whose UTC year is supported. -/
def check? (m : Moment) : Option Moment := if m.isSupported then some m else none

/-- The same instant written in UTC. -/
def utc (m : Moment) : Moment := { m with offset := 0 }

/-- The local date. -/
def date (m : Moment) : Date := Date.ofDays ((m.seconds + m.offset) / secondsPerDay)

/-- The local time of day. -/
def clock (m : Moment) : Clock :=
  let second := ((m.seconds + m.offset) % secondsPerDay).toNat
  ⟨second / 3600, second / 60 % 60, second % 60, m.nanos⟩

/-- The instant that a local date and time of day denote under an offset. -/
def ofLocal (date : Date) (clock : Clock) (offset : Int) : Moment :=
  let second : Int := (clock.hour * 3600 + clock.minute * 60 + clock.second : Nat)
  ⟨date.toDays * secondsPerDay + second - offset, clock.nanos, offset⟩

/-- The first instant of the local day. -/
def startOfDay (m : Moment) : Moment := ofLocal m.date ⟨0, 0, 0, 0⟩ m.offset

/-- The number of 100 nanosecond units since 0001-01-01T00:00:00Z. -/
def ticks (m : Moment) : Int :=
  621355968000000000 + m.seconds * 10000000 + (m.nanos / 100 : Nat)

/-- The same day and time so many calendar months later. -/
def addMonths? (m : Moment) (months : Int) : Option Moment :=
  match m.date.addMonths? months with
  | some date => (ofLocal date m.clock m.offset).check?
  | none => none

/--
The instant a span later.  A span that leaves a leap second backwards counts from its end, and
one that leaves it forwards counts from the second before.
-/
def add? (m : Moment) (span : Span) : Option Moment :=
  let seconds := span.seconds
  let nanos : Int := m.nanos + span.subsecondNanos
  let inLeap := 1000000000 ≤ m.nanos
  if inLeap && seconds = 0 && 0 ≤ nanos && nanos < 2000000000 then
    check? { m with nanos := nanos.toNat }
  else
    let (start, nanos) :=
      if inLeap && 0 ≤ seconds then (m.seconds, nanos - 1000000000)
      else if inLeap then (m.seconds + 1, nanos - 1000000000)
      else (m.seconds, nanos)
    let carry := nanos / 1000000000
    check? { m with seconds := start + seconds + carry, nanos := (nanos % 1000000000).toNat }

/-! ### Text -/

/-- A number with at least so many digits. -/
def padded (width n : Nat) : String :=
  let digits := Nat.toDigits 10 n
  String.ofList (List.replicate (width - digits.length) '0' ++ digits)

/-- A year with four digits, or with a sign and at least four. -/
def writeYear (year : Int) : String :=
  if 0 ≤ year && year ≤ 9999 then padded 4 year.toNat
  else (if year < 0 then "-" else "+") ++ padded 4 year.natAbs

/-- A fraction of a second with 3, 6 or 9 digits, as few as are exact; none for a full second. -/
def writeFraction (nanos : Nat) : String :=
  if nanos = 0 then ""
  else if nanos % 1000000 = 0 then "." ++ padded 3 (nanos / 1000000)
  else if nanos % 1000 = 0 then "." ++ padded 6 (nanos / 1000)
  else "." ++ padded 9 nanos

/-- An offset from UTC in hours and minutes. -/
def writeOffset (offset : Int) : String :=
  let minutes := (offset.natAbs + 30) / 60
  (if offset < 0 then "-" else "+") ++ padded 2 (minutes / 60) ++ ":" ++ padded 2 (minutes % 60)

/-- The date and time before the offset. -/
def writeLocal (m : Moment) : String :=
  let d := m.date
  let c := m.clock
  let leap := c.nanos / 1000000000
  writeYear d.year ++ "-" ++ padded 2 d.month ++ "-" ++ padded 2 d.day ++ "T" ++
    padded 2 c.hour ++ ":" ++ padded 2 c.minute ++ ":" ++ padded 2 (c.second + leap) ++
    writeFraction (c.nanos % 1000000000)

/-- The moment in RFC 3339 notation. -/
def write (m : Moment) : String := m.writeLocal ++ writeOffset m.offset

/-- The instant in RFC 3339 notation, in UTC with the letter for it. -/
def writeUtc (m : Moment) : String := m.utc.writeLocal ++ "Z"

/-- The clock that the numbers of a time of day denote; second 60 is a leap second. -/
def clock? (hour minute second nanos : Nat) : Option Clock :=
  if hour ≤ 23 && minute ≤ 59 && second ≤ 60 then
    if second = 60 then some ⟨hour, minute, 59, nanos + 1000000000⟩
    else some ⟨hour, minute, second, nanos⟩
  else none

/-- The moment that a written date, time and offset denote, if all of them exist. -/
def ofParts? (date : Date) (clock : Clock) (offset : Int) : Option Moment :=
  if date.isValid && Date.isSupportedYear date.year && -86400 < offset && offset < 86400 then
    check? (ofLocal date clock offset)
  else none

/-- Nanoseconds that the digits of a fraction denote; those after the ninth are dropped. -/
def fractionNanos (digits : List Char) : Nat :=
  let kept := digits.take 9
  numeralValue kept * Nat.pow 10 (9 - kept.length)

end Moment

end DocIndex
