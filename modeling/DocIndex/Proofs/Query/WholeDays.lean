/-
Dates found by their day.

A date is projected to the minute that it lies in and to its ticks.  The seconds of a minute and
the fraction behind them are less than a minute, so that the ticks lie in it.  The exception is a
leap second: the nanoseconds run on past a full second there, which is the last of its minute, and
the ticks are already those of the next one.  So a document is found by the day of its date,
but in a leap second at the end of the day.
-/
import DocIndex.Proofs.Query.Dates
import DocIndex.Proofs.Query.Spelling
import DocIndex.Proofs.Query.Trichotomy

namespace DocIndex

namespace Moment

/-! ### Instants of documents -/

variable {text rest : List Char} {m : Moment}

/-- An offset is read to the minute. -/
theorem readOffset?_minutes {offset : Int} (h : readOffset? text = some (offset, rest)) :
    offset % 60 = 0 := by
  unfold readOffset? at h
  split at h
  · cases h
  · split at h
    · cases h
      rfl
    · split at h
      · simp only [Option.bind_eq_bind, Option.bind_eq_some_iff, Prod.exists] at h
        obtain ⟨hours, _, -, _, -, minutes, _, -, h⟩ := h
        split at h
        · cases h
        · cases h
          split <;> omega
      · cases h

theorem readFraction?_lt {nanos : Nat} (h : readFraction? text = some (nanos, rest)) :
    nanos < 1000000000 := by
  unfold readFraction? at h
  split at h
  · rename_i digits
    simp only at h
    split at h
    · cases h
    · cases h
      exact fractionNanos_lt fun c hc => List.all_eq_true.mp List.all_takeWhile c hc
  · cases h
    decide

theorem regular_of_ofRfc3339? (h : ofRfc3339? text = some m) : m.Regular := by
  -- only the numbers of the clock, the fraction and the offset matter
  obtain ⟨⟨year, _⟩, -, h⟩ := Option.bind_eq_some_iff.mp h
  obtain ⟨_, -, h⟩ := Option.bind_eq_some_iff.mp h
  obtain ⟨⟨month, _⟩, -, h⟩ := Option.bind_eq_some_iff.mp h
  obtain ⟨_, -, h⟩ := Option.bind_eq_some_iff.mp h
  obtain ⟨⟨day, _⟩, -, h⟩ := Option.bind_eq_some_iff.mp h
  obtain ⟨_, -, h⟩ := Option.bind_eq_some_iff.mp h
  obtain ⟨⟨hour, _⟩, -, h⟩ := Option.bind_eq_some_iff.mp h
  obtain ⟨_, -, h⟩ := Option.bind_eq_some_iff.mp h
  obtain ⟨⟨minute, _⟩, -, h⟩ := Option.bind_eq_some_iff.mp h
  obtain ⟨_, -, h⟩ := Option.bind_eq_some_iff.mp h
  obtain ⟨⟨second, _⟩, -, h⟩ := Option.bind_eq_some_iff.mp h
  obtain ⟨⟨nanos, _⟩, hnanos, h⟩ := Option.bind_eq_some_iff.mp h
  obtain ⟨⟨offset, rest⟩, hoffset, h⟩ := Option.bind_eq_some_iff.mp h
  simp only at h
  split at h
  · obtain ⟨clock, hclock, hparts⟩ := Option.bind_eq_some_iff.mp h
    exact regular_of_ofParts? hparts (clock?_eq_some (readFraction?_lt hnanos) hclock).2
      (readOffset?_minutes hoffset)
  · cases h

theorem regular_of_ofLocalText? (h : ofLocalText? text = some m) : m.Regular := by
  unfold ofLocalText? at h
  simp only [Option.bind_eq_bind, Option.bind_eq_some_iff, Prod.exists] at h
  obtain ⟨year, _, -, _, -, month, _, -, _, -, day, _, -, _, -, hour, _, -, _, -, minute, _, -, _,
    -, second, _, -, nanos, rest, hnanos, h⟩ := h
  split at h
  · obtain ⟨clock, hclock, hparts⟩ := Option.bind_eq_some_iff.mp h
    exact regular_of_ofParts? hparts (clock?_eq_some (readFraction?_lt hnanos) hclock).2 rfl
  · cases h

/-- An instant of a document is one that a clock shows, in UTC. -/
theorem regular_of_ofDocumentText? {s : String} (h : ofDocumentText? s = some m) :
    m.Regular ∧ m.offset = 0 := by
  unfold ofDocumentText? at h
  simp only at h
  split at h
  · split at h
    · rename_i instant hinstant
      cases h
      obtain ⟨hsupported, hleap⟩ := regular_of_ofRfc3339? hinstant
      exact ⟨⟨hsupported, hleap⟩, rfl⟩
    · exact ⟨regular_of_ofLocalText? h, congrArg Moment.offset (utc_of_ofLocalText? h).symm⟩
  · cases h

/-! ### Minutes and days -/

def ticksPerSecond : Int := 10000000

def ticksPerMinute : Int := 60 * ticksPerSecond

/-- The first instant of a minute in UTC. -/
def ofMinute (date : Date) (hour minute : Nat) : Moment := ofLocal date ⟨hour, minute, 0, 0⟩ 0

theorem ticks_ofMinute (date : Date) (hour minute : Nat) : (ofMinute date hour minute).ticks
    = 621355968000000000 + (date.toDays * 86400 + hour * 3600 + minute * 60) * ticksPerSecond := by
  simp only [ofMinute, ofLocal, ticks, secondsPerDay, ticksPerSecond]
  omega

section Utc

variable (hoffset : m.offset = 0)

include hoffset

/-- The seconds since the start of the day are those of the hour, of the minute and the rest. -/
theorem seconds_eq : m.seconds
    = m.date.toDays * 86400 + m.clock.hour * 3600 + m.clock.minute * 60 + m.clock.second := by
  rw [Moment.date, Date.toDays_ofDays]
  simp only [clock, hoffset, secondsPerDay]
  omega

/-- An instant is its seconds and nanoseconds after the start of its minute. -/
theorem ticks_eq : m.ticks = (ofMinute m.date m.clock.hour m.clock.minute).ticks +
    m.clock.second * ticksPerSecond + (m.nanos / 100 : Nat) := by
  have hseconds := seconds_eq hoffset
  rw [ticks_ofMinute]
  unfold ticks ticksPerSecond
  omega

theorem dayStart_le : (ofMinute m.date 0 0).ticks ≤ m.ticks := by
  rw [ticks_eq hoffset, ticks_ofMinute, ticks_ofMinute]
  unfold ticksPerSecond
  omega

variable (hregular : m.Regular)

include hregular

/-- An instant lies in its minute, or in a leap second and less than a second behind it. -/
theorem ticks_bounds : (ofMinute m.date m.clock.hour m.clock.minute).ticks ≤ m.ticks ∧
    (m.ticks < (ofMinute m.date m.clock.hour m.clock.minute).ticks + ticksPerMinute ↔
      m.nanos < 1000000000) ∧
    m.ticks < (ofMinute m.date m.clock.hour m.clock.minute).ticks + ticksPerMinute +
      ticksPerSecond := by
  obtain ⟨-, -, hsecond⟩ := m.clock_bounds
  have hseconds := seconds_eq hoffset
  have hleap := hregular.leap
  rw [ticks_eq hoffset]
  unfold ticksPerMinute ticksPerSecond
  omega

/-- The ticks lie in the day, but in a leap second at its end. -/
theorem ticks_lt_dayEnd : m.ticks < (ofMinute m.date 0 0).ticks + Query.ticksPerDay ↔
    m.nanos < 1000000000 ∨ (m.clock.hour, m.clock.minute) ≠ (23, 59) := by
  obtain ⟨hhour, hminute, hsecond⟩ := m.clock_bounds
  have hseconds := seconds_eq hoffset
  have hleap := hregular.leap
  have hlast : (m.clock.hour, m.clock.minute) ≠ (23, 59) ↔
      m.clock.hour ≠ 23 ∨ m.clock.minute ≠ 59 := by
    rw [Ne, Prod.mk.injEq, not_and_or]
  rw [hlast, ticks_eq hoffset, ticks_ofMinute, ticks_ofMinute]
  unfold ticksPerSecond Query.ticksPerDay
  omega

/-- The ticks of all but very distant years are integers of 64 bits. -/
theorem fitsInt64_ticks (hfirst : -27000 ≤ m.date.year) (hlast : m.date.year ≤ 29000) :
    fitsInt64 m.ticks = true := by
  have hdays := Date.toDays_bounds (Date.isValid_ofDays ((m.seconds + m.offset) / secondsPerDay))
  have hleap := hregular.leap
  rw [Date.toDays_ofDays, hoffset] at hdays
  simp only [Moment.date, hoffset] at hfirst hlast
  unfold Date.daysToMarch Date.daysToUnixEpoch secondsPerDay at hdays
  unfold secondsPerDay at hfirst hlast
  rw [fitsInt64, Bool.and_eq_true, decide_eq_true_eq, decide_eq_true_eq]
  unfold int64Min int64Max ticks
  omega

end Utc

/-! ### Whole days in queries -/

theorem dayTicks_ofMinute (date : Date) : Query.dayTicks (ofMinute date 0 0)
    = ((ofMinute date 0 0).ticks, (ofMinute date 0 0).ticks + Query.ticksPerDay) := by
  have hdate : (ofMinute date 0 0).utc.date = Date.ofDays date.toDays :=
    date_ofLocal (by decide)
  have hstart : (ofMinute date 0 0).utc.startOfDay = ofMinute date 0 0 := by
    rw [startOfDay, hdate, ofLocal, Date.toDays_ofDays]
    rfl
  rw [Query.dayTicks, hstart]

/-- The start of a day can be written, if the year has four digits. -/
theorem writable_ofMinute {date : Date} (hvalid : date.isValid = true)
    (hyear : 0 ≤ date.year ∧ date.year ≤ 9999) : (ofMinute date 0 0).Writable := by
  have hdays : (ofMinute date 0 0).seconds / secondsPerDay = date.toDays := by
    simp only [ofMinute, ofLocal, secondsPerDay]
    omega
  have hyears : Date.isSupportedYear date.year = true := by
    rw [Date.isSupportedYear, Bool.and_eq_true, decide_eq_true_eq, decide_eq_true_eq]
    unfold Date.minYear Date.maxYear
    omega
  have hsupported : (ofMinute date 0 0).isSupported = true := by
    rw [isSupported, hdays, Date.year_ofDays_toDays hvalid, hyears]
  have hcheck : check? (ofMinute date 0 0) = some (ofMinute date 0 0) := if_pos hsupported
  have hparts : ofParts? date ⟨0, 0, 0, 0⟩ 0 = some (ofMinute date 0 0) := by
    rw [ofParts?, if_pos (by simp [hvalid, hyears]), ← hcheck]
    rfl
  exact writable_of_ofParts? hparts (by decide) (by decide) hyear rfl

end Moment

namespace Query

/-- The text of a day is the day from its start. -/
theorem Lexer.tokenize_day {date : Date} (hvalid : date.isValid = true)
    (hyear : 0 ≤ date.year ∧ date.year ≤ 9999) :
    tokenize (Value.writeDay (Moment.ofMinute date 0 0))
      = .ok [⟨.time (Moment.ofMinute date 0 0) .day, 0⟩] := by
  have hwritable := Moment.writable_ofMinute hvalid hyear
  have hclock : (Moment.ofMinute date 0 0).clock = ⟨0, 0, 0, 0⟩ :=
    Moment.clock_ofLocal (by decide)
  obtain ⟨c, more, htext, hblank, hread⟩ :=
    readsAs_date fun rest hrest => readDate?_writeDay hwritable hclock rfl hrest
  have hend : Stops [] := nofun
  rw [tokenize, htext]
  have hscan := @scan_token [] c more _ 0 hblank (hread [] hend) [] rfl
  rwa [List.append_nil] at hscan

namespace PlanContext

open Moment (ofMinute ticksPerMinute ticksPerSecond)

end PlanContext

end Query

end DocIndex
