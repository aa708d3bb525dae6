/-
The proleptic Gregorian calendar.

A date stands for a number of days since 1970-01-01.  Years are counted here from March, so
that the leap day is the last day of its year and the months before it have lengths that do
not depend on the year; an era of 400 such years always has the same number of days.
-/

namespace DocIndex

/-- A year, a month from 1 and a day of the month from 1. -/
structure Date where
  year : Int
  month : Nat
  day : Nat
deriving DecidableEq

namespace Date

/-- Whether a year has a leap day. -/
def isLeapYear (year : Int) : Bool := year % 4 == 0 && (year % 100 != 0 || year % 400 == 0)

/-- How many days a month has. -/
def daysInMonth (year : Int) (month : Nat) : Nat :=
  if month = 2 then if isLeapYear year then 29 else 28
  else if month = 4 || month = 6 || month = 9 || month = 11 then 30
  else 31

/-- Whether the month and the day exist. -/
def isValid (d : Date) : Bool :=
  1 ≤ d.month && d.month ≤ 12 && 1 ≤ d.day && d.day ≤ daysInMonth d.year d.month

/-- Days in an era of 400 years. -/
def daysPerEra : Int := 146097

/-- Days from 0000-03-01 to 1970-01-01. -/
def daysToUnixEpoch : Int := 719468

/-- Days from 1970-01-01 to a date. -/
def toDays (d : Date) : Int :=
  let year := if d.month ≤ 2 then d.year - 1 else d.year
  let era := year / 400
  let yearOfEra := year % 400
  let monthFromMarch : Int := ((d.month + 9) % 12 : Nat)
  let dayOfYear := (153 * monthFromMarch + 2) / 5 + d.day - 1
  let dayOfEra := yearOfEra * 365 + yearOfEra / 4 - yearOfEra / 100 + dayOfYear
  era * daysPerEra + dayOfEra - daysToUnixEpoch

/-- The date that is so many days after 1970-01-01. -/
def ofDays (days : Int) : Date :=
  let shifted := days + daysToUnixEpoch
  let era := shifted / daysPerEra
  let dayOfEra := shifted % daysPerEra
  let yearOfEra := (dayOfEra - dayOfEra / 1460 + dayOfEra / 36524 - dayOfEra / 146096) / 365
  let dayOfYear := dayOfEra - (365 * yearOfEra + yearOfEra / 4 - yearOfEra / 100)
  let monthFromMarch := (5 * dayOfYear + 2) / 153
  let day := dayOfYear - (153 * monthFromMarch + 2) / 5 + 1
  let month := if monthFromMarch < 10 then monthFromMarch + 3 else monthFromMarch - 9
  let year := yearOfEra + era * 400
  ⟨if month ≤ 2 then year + 1 else year, month.toNat, day.toNat⟩

/-- The first and the last year that dates are computed in. -/
def minYear : Int := -262143
def maxYear : Int := 262142

/-- Whether a year lies in the supported range. -/
def isSupportedYear (year : Int) : Bool := minYear ≤ year && year ≤ maxYear

/-- The date so many months later, moved back to the end of a month that is too short. -/
def addMonths? (d : Date) (months : Int) : Option Date :=
  let count := d.year * 12 + (d.month - 1 : Nat) + months
  let year := count / 12
  let month := (count % 12).toNat + 1
  if isSupportedYear year then some ⟨year, month, min d.day (daysInMonth year month)⟩ else none

end Date

end DocIndex
