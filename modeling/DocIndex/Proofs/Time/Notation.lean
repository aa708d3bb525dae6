/-
Instants read back from their notation.

A written instant is a row of numbers with a mark behind each, and no mark is a digit or a
blank.  So every number is read up to its mark and comes back, and the date and time of day
that they denote is the instant again.  In a leap second the clock is written with second 60,
which is read as such only at the end of a minute.
-/
import Mathlib.Algebra.Group.Nat.Defs
import DocIndex.Proofs.Text.Digits
import DocIndex.Proofs.Time.Calendar
import DocIndex.Time.Notation

namespace DocIndex.Moment

open Text (NoDigit noDigit_cons readDigits?_append readMark? readDigits? trimLeft_cons
  trimLeft_digits)

/-! ### Numbers -/

theorem isDigit_padded (width n : Nat) : ∀ c ∈ (padded width n).toList, c.isDigit = true := by
  intro c hc
  unfold padded at hc
  rw [String.toList_ofList, List.mem_append] at hc
  rcases hc with hzero | hdigit
  · rw [(List.mem_replicate.mp hzero).2]
    decide
  · exact Nat.isDigit_of_mem_toDigits (by decide) (by decide) hdigit

theorem numeralValue_padded (width n : Nat) : numeralValue (padded width n).toList = n := by
  unfold padded
  rw [String.toList_ofList, numeralValue_zeros, numeralValue_toDigits]

theorem le_length_padded (width n : Nat) : width ≤ (padded width n).toList.length := by
  unfold padded
  rw [String.toList_ofList, List.length_append, List.length_replicate]
  omega

theorem length_padded {width n : Nat} (hwidth : 0 < width) (h : n < 10 ^ width) :
    (padded width n).toList.length = width := by
  have hdigits : (Nat.toDigits 10 n).length ≤ width :=
    (Nat.length_toDigits_le_iff (by decide) hwidth).mpr h
  unfold padded
  rw [String.toList_ofList, List.length_append, List.length_replicate]
  omega

theorem padded_ne_nil {width : Nat} (hwidth : 0 < width) (n : Nat) :
    (padded width n).toList ≠ [] := by
  intro h
  have hlength := le_length_padded width n
  rw [h, List.length_nil] at hlength
  omega

/-- A number that its width is enough for is read up to its mark. -/
theorem readDigits?_padded {width n : Nat} (hwidth : 0 < width) (h : n < 10 ^ width)
    {rest : List Char} (hrest : NoDigit rest) :
    readDigits? width width ((padded width n).toList ++ rest) = some (n, rest) := by
  have hlength := length_padded hwidth h
  rw [readDigits?_append (isDigit_padded _ _) (Nat.le_of_eq hlength.symm) (Nat.le_of_eq hlength)
    hrest, numeralValue_padded]

/-- A number of two digits is read up to its mark. -/
theorem readShort?_padded {n : Nat} (h : n < 100) {rest : List Char} (hrest : NoDigit rest) :
    readShort? ((padded 2 n).toList ++ rest) = some (n, rest) := by
  have hlength : (padded 2 n).toList.length = 2 := length_padded (by decide) h
  unfold readShort?
  rw [trimLeft_digits (isDigit_padded _ _) (padded_ne_nil (by decide) n),
    readDigits?_append (isDigit_padded _ _) (by omega) (by omega) hrest, numeralValue_padded]

/-- A year that begins with a digit has no sign. -/
theorem readYear?_digit {c : Char} (h : c.isDigit = true) (rest : List Char) :
    readYear? (c :: rest)
      = (readDigits? 1 4 (c :: rest)).map fun (n, rest) => ((n : Int), rest) := by
  unfold readYear?
  rw [trimLeft_cons (Text.isBlank_of_isDigit h)]
  split
  · rename_i more heq
    rw [(List.cons.inj heq).1] at h
    exact absurd h (by decide)
  · rename_i more heq
    rw [(List.cons.inj heq).1] at h
    exact absurd h (by decide)
  · rfl

theorem readYear?_signed {sign : Char} (h : sign = '-' ∨ sign = '+') (rest : List Char) :
    readYear? (sign :: rest) = (readDigits? 1 rest.length rest).map fun (n, rest) =>
      (if sign = '-' then -(n : Int) else n, rest) := by
  rcases h with rfl | rfl
  · unfold readYear?
    rw [trimLeft_cons (by decide)]
    rfl
  · unfold readYear?
    rw [trimLeft_cons (by decide)]
    rfl

/-- A year is read up to its mark. -/
theorem readYear?_writeYear (year : Int) {rest : List Char} (hrest : NoDigit rest) :
    readYear? ((writeYear year).toList ++ rest) = some (year, rest) := by
  unfold writeYear
  by_cases hplain : (decide (0 ≤ year) && decide (year ≤ 9999)) = true
  · rw [if_pos hplain]
    simp only [Bool.and_eq_true, decide_eq_true_eq] at hplain
    have hlength : (padded 4 year.toNat).toList.length = 4 :=
      length_padded (by decide) (by omega)
    have hread : readDigits? 1 4 ((padded 4 year.toNat).toList ++ rest)
        = some (year.toNat, rest) := by
      rw [readDigits?_append (isDigit_padded _ _) (by omega) (by omega) hrest, numeralValue_padded]
    obtain ⟨c, digits, hcons⟩ :=
      List.exists_cons_of_ne_nil (padded_ne_nil (by decide : 0 < 4) year.toNat)
    have hc : c.isDigit = true := by
      refine isDigit_padded 4 year.toNat c ?_
      rw [hcons]
      exact List.mem_cons_self
    rw [hcons, List.cons_append] at hread ⊢
    rw [readYear?_digit hc, hread, Option.map_some]
    simp only [Int.toNat_of_nonneg hplain.1]
  · rw [if_neg hplain]
    simp only [Bool.and_eq_true, decide_eq_true_eq, not_and, Int.not_le] at hplain
    have hlength := le_length_padded 4 year.natAbs
    have hread : readDigits? 1 ((padded 4 year.natAbs).toList ++ rest).length
        ((padded 4 year.natAbs).toList ++ rest) = some (year.natAbs, rest) := by
      rw [readDigits?_append (isDigit_padded _ _) (by omega) (by simp) hrest, numeralValue_padded]
    by_cases hneg : year < 0
    · have habs : -(year.natAbs : Int) = year := by omega
      have htext : ("-" ++ padded 4 year.natAbs).toList ++ rest
          = '-' :: ((padded 4 year.natAbs).toList ++ rest) := by
        rw [String.toList_append]
        rfl
      rw [if_pos hneg, htext, readYear?_signed (Or.inl rfl), hread, Option.map_some]
      simp only [if_true, habs]
    · have habs : (year.natAbs : Int) = year := by omega
      have htext : ("+" ++ padded 4 year.natAbs).toList ++ rest
          = '+' :: ((padded 4 year.natAbs).toList ++ rest) := by
        rw [String.toList_append]
        rfl
      rw [if_neg hneg, htext, readYear?_signed (Or.inr rfl), hread, Option.map_some]
      simp [habs]

/-- Behind a point the digits of a fraction are read, as far as they go. -/
theorem readFraction?_point {width n : Nat} (hwidth : 0 < width) (hmost : width ≤ 9)
    (h : n < 10 ^ width) {rest : List Char} (hrest : NoDigit rest) :
    readFraction? ('.' :: ((padded width n).toList ++ rest))
      = some (n * 10 ^ (9 - width), rest) := by
  have hlength := length_padded hwidth h
  have hsome : (padded width n).toList.isEmpty = false := by
    rw [List.isEmpty_eq_false_iff]
    exact padded_ne_nil hwidth n
  have hnanos : fractionNanos (padded width n).toList = n * 10 ^ (9 - width) := by
    unfold fractionNanos
    simp only [List.take_of_length_le (Nat.le_trans (Nat.le_of_eq hlength) hmost),
      numeralValue_padded, hlength]
    rfl
  unfold readFraction?
  simp only [Text.takeWhile_isDigit (isDigit_padded width n) hrest,
    Text.dropWhile_isDigit (isDigit_padded width n) hrest, hsome, hnanos, Bool.false_eq_true,
    if_false]

theorem fractionNanos_lt {digits : List Char} (h : ∀ c ∈ digits, c.isDigit = true) :
    fractionNanos digits < 1000000000 := by
  have hkept := numeralValue_lt fun c (hc : c ∈ digits.take 9) => h c (List.mem_of_mem_take hc)
  have hlength : (digits.take 9).length ≤ 9 := by
    rw [List.length_take]
    exact Nat.min_le_left _ _
  have hnine : 1000000000 = 10 ^ (digits.take 9).length * 10 ^ (9 - (digits.take 9).length) := by
    rw [← Nat.pow_add, Nat.add_sub_cancel' hlength]
  rw [hnine]
  exact Nat.mul_lt_mul_of_pos_right hkept (Nat.pow_pos (by decide))

/-- A fraction is written with as many digits as it has. -/
theorem readFraction?_writeFraction {nanos : Nat} (h : nanos < 1000000000) {rest : List Char}
    (hrest : NoDigit rest) (hpoint : ∀ more, rest ≠ '.' :: more) :
    readFraction? ((writeFraction nanos).toList ++ rest) = some (nanos, rest) := by
  have hsplit : ∀ width n : Nat, ("." ++ padded width n).toList ++ rest
      = '.' :: ((padded width n).toList ++ rest) := by
    intro width n
    rw [String.toList_append]
    rfl
  unfold writeFraction
  by_cases hzero : nanos = 0
  · rw [if_pos hzero, hzero]
    show readFraction? rest = _
    unfold readFraction?
    split
    · rename_i more
      exact absurd rfl (hpoint more)
    · rfl
  · rw [if_neg hzero]
    by_cases hmilli : nanos % 1000000 = 0
    · rw [if_pos hmilli, hsplit,
        readFraction?_point (by decide) (by decide) (by omega) hrest]
      congr 2
      omega
    · rw [if_neg hmilli]
      by_cases hmicro : nanos % 1000 = 0
      · rw [if_pos hmicro, hsplit,
          readFraction?_point (by decide) (by decide) (by omega) hrest]
        congr 2
        omega
      · rw [if_neg hmicro, hsplit,
          readFraction?_point (by decide) (by decide) (by omega) hrest]
        congr 2
        omega

/-- A fraction begins with a point, if there is one. -/
theorem noDigit_writeFraction (nanos : Nat) {rest : List Char} (hrest : NoDigit rest) :
    NoDigit ((writeFraction nanos).toList ++ rest) := by
  have hpoint : ∀ width n : Nat, NoDigit (("." ++ padded width n).toList ++ rest) := by
    intro width n
    rw [String.toList_append]
    exact noDigit_cons (by decide) _
  unfold writeFraction
  by_cases hzero : nanos = 0
  · rw [if_pos hzero]
    exact hrest
  · rw [if_neg hzero]
    split
    · exact hpoint 3 _
    · split
      · exact hpoint 6 _
      · exact hpoint 9 _

/-! ### Instants -/

/-- An instant as a clock shows it: a leap second stands only at the end of a minute. -/
structure Regular (m : Moment) : Prop where
  supported : m.isSupported = true
  leap : m.nanos < 1000000000 ∨ m.nanos < 2000000000 ∧ m.seconds % 60 = 59

/-- A mark is found behind blanks, of which there are none. -/
theorem readMark?_trimLeft {mark : Char} (h : Text.isBlank mark = false) (rest : List Char) :
    readMark? mark (Text.trimLeft (mark :: rest)) = some rest := by
  rw [trimLeft_cons h]
  simp [readMark?]

theorem clock_bounds (m : Moment) :
    m.clock.hour ≤ 23 ∧ m.clock.minute ≤ 59 ∧ m.clock.second ≤ 59 := by
  simp only [clock, secondsPerDay]
  omega

/-- The time of day comes back from its numbers, if a leap second stands where it may. -/
theorem clock?_self {m : Moment}
    (h : m.nanos < 1000000000 ∨ m.nanos < 2000000000 ∧ (m.seconds + m.offset) % 60 = 59) :
    clock? m.clock.hour m.clock.minute (m.clock.second + m.clock.nanos / 1000000000)
      (m.clock.nanos % 1000000000) = some m.clock := by
  obtain ⟨hhour, hminute, hsecond⟩ := m.clock_bounds
  have hnanos : m.clock.nanos = m.nanos := rfl
  rw [hnanos]
  unfold clock?
  rcases h with hplain | ⟨hleap, hend⟩
  · have hfull : m.nanos / 1000000000 = 0 := by omega
    have hrest : m.nanos % 1000000000 = m.nanos := by omega
    rw [hfull, hrest, Nat.add_zero, if_pos (by simp; omega), if_neg (by omega), ← hnanos]
  · have hlast : m.clock.second = 59 := by
      simp only [clock, secondsPerDay]
      omega
    by_cases hfull : m.nanos < 1000000000
    · have hzero : m.nanos / 1000000000 = 0 := by omega
      have hrest : m.nanos % 1000000000 = m.nanos := by omega
      rw [hzero, hrest, Nat.add_zero, if_pos (by simp; omega), if_neg (by omega), ← hnanos]
    · have hone : m.nanos / 1000000000 = 1 := by omega
      have hrest : m.nanos % 1000000000 + 1000000000 = m.nanos := by omega
      rw [hone, hlast, if_pos (by simp; omega), if_pos rfl, hrest, ← hlast, ← hnanos]

/-- The local date and time of day of a moment denote it under its offset. -/
theorem ofParts?_self {m : Moment} (hsupported : m.isSupported = true)
    (hyear : Date.isSupportedYear m.date.year = true)
    (hoffset : -86400 < m.offset ∧ m.offset < 86400) :
    ofParts? m.date m.clock m.offset = some m := by
  have hvalid : m.date.isValid = true := Date.isValid_ofDays _
  have hdays : m.date.toDays = (m.seconds + m.offset) / secondsPerDay := Date.toDays_ofDays _
  have hlocal : ofLocal m.date m.clock m.offset = m := by
    unfold ofLocal
    rw [hdays]
    obtain ⟨seconds, nanos, offset⟩ := m
    simp only [clock, secondsPerDay]
    congr 1
    omega
  have hcheck : check? m = some m := if_pos hsupported
  unfold ofParts?
  rw [if_pos (by simp [hvalid, hyear, hoffset]), hlocal, hcheck]

theorem clock?_clock {m : Moment} (h : m.Regular) :
    clock? m.utc.clock.hour m.utc.clock.minute
        (m.utc.clock.second + m.utc.clock.nanos / 1000000000) (m.utc.clock.nanos % 1000000000)
      = some m.utc.clock :=
  clock?_self (by simpa [utc] using h.leap)

theorem ofParts?_date {m : Moment} (h : m.Regular) :
    ofParts? m.utc.date m.utc.clock 0 = some m.utc := by
  have hyear : Date.isSupportedYear m.utc.date.year = true := by
    have hsupported := h.supported
    unfold isSupported at hsupported
    simpa [date, utc] using hsupported
  have hoffset : -86400 < (0 : Int) ∧ (0 : Int) < 86400 := by decide
  exact @ofParts?_self m.utc h.supported hyear hoffset

/-- The numbers of an instant in UTC, with their marks. -/
theorem toList_writeUtc (m : Moment) : m.writeUtc.toList
    = (writeYear m.utc.date.year).toList ++ '-' :: ((padded 2 m.utc.date.month).toList ++
      '-' :: ((padded 2 m.utc.date.day).toList ++ 'T' :: ((padded 2 m.utc.clock.hour).toList ++
      ':' :: ((padded 2 m.utc.clock.minute).toList ++ ':' ::
      ((padded 2 (m.utc.clock.second + m.utc.clock.nanos / 1000000000)).toList ++
      ((writeFraction (m.utc.clock.nanos % 1000000000)).toList ++ ['Z'])))))) := by
  unfold writeUtc writeLocal
  simp [String.toList_append]

/-- **An instant is read as it is written.** -/
theorem ofLooseText?_writeUtc {m : Moment} (h : m.Regular) :
    ofLooseText? m.writeUtc.toList = some m.utc := by
  obtain ⟨hmonth, hday⟩ : m.utc.date.month < 100 ∧ m.utc.date.day < 100 := Date.ofDays_bounds _
  obtain ⟨hhour, hminute, hsecond⟩ := m.utc.clock_bounds
  have hleap : m.utc.clock.second + m.utc.clock.nanos / 1000000000 < 100 := by
    have hnanos : m.utc.clock.nanos = m.nanos := rfl
    have hbound := h.leap
    omega
  have hfraction : m.utc.clock.nanos % 1000000000 < 1000000000 := Nat.mod_lt _ (by decide)
  have hoffset : readLooseOffset? (Text.trimLeft ['Z']) = some (0, []) := by decide
  have hend : (Text.trimLeft []).isEmpty = true := rfl
  have hdash : ∀ rest : List Char, NoDigit ('-' :: rest) := noDigit_cons (by decide)
  have hcolon : ∀ rest : List Char, NoDigit (':' :: rest) := noDigit_cons (by decide)
  have htime : ∀ rest : List Char, NoDigit ('T' :: rest) := noDigit_cons (by decide)
  have hzone : NoDigit ['Z'] := noDigit_cons (by decide) []
  have hseconds : NoDigit
      ((writeFraction (m.utc.clock.nanos % 1000000000)).toList ++ ['Z']) :=
    noDigit_writeFraction _ hzone
  have hdashes : ∀ rest, readMark? '-' (Text.trimLeft ('-' :: rest)) = some rest :=
    readMark?_trimLeft (by decide)
  have hcolons : ∀ rest, readMark? ':' (Text.trimLeft (':' :: rest)) = some rest :=
    readMark?_trimLeft (by decide)
  have hdateEnd : ∀ rest, readDateEnd? ('T' :: rest) = some rest := fun _ => rfl
  have hpoint : ∀ more, ['Z'] ≠ '.' :: more := by simp
  rw [toList_writeUtc]
  unfold ofLooseText?
  simp only [Option.bind_eq_bind]
  rw [readYear?_writeYear _ (hdash _), Option.bind_some, hdashes, Option.bind_some,
    readShort?_padded hmonth (hdash _), Option.bind_some, hdashes, Option.bind_some,
    readShort?_padded hday (htime _), Option.bind_some, hdateEnd, Option.bind_some,
    readShort?_padded (Nat.lt_of_le_of_lt hhour (by decide)) (hcolon _), Option.bind_some,
    hcolons, Option.bind_some,
    readShort?_padded (Nat.lt_of_le_of_lt hminute (by decide)) (hcolon _), Option.bind_some,
    hcolons, Option.bind_some, readShort?_padded hleap hseconds, Option.bind_some,
    readFraction?_writeFraction hfraction hzone hpoint, Option.bind_some, hoffset,
    Option.bind_some, if_pos hend, clock?_clock h, Option.bind_some]
  exact ofParts?_date h

/-! ### Moments with an offset -/

/-- A moment with a year of four digits and whole minutes of an offset. -/
structure Writable (m : Moment) : Prop extends Regular m where
  year : 0 ≤ m.date.year ∧ m.date.year ≤ 9999
  minutes : m.offset % 60 = 0
  offset : -86400 < m.offset ∧ m.offset < 86400

theorem ofParts?_eq_some {date : Date} {clock : Clock} {offset : Int} {m : Moment}
    (h : ofParts? date clock offset = some m) : date.isValid = true ∧ m.isSupported = true ∧
      (-86400 < offset ∧ offset < 86400) ∧ m = ofLocal date clock offset := by
  unfold ofParts? check? at h
  split at h
  · rename_i hparts
    split at h
    · rename_i hsupported
      cases h
      simp only [Bool.and_eq_true, decide_eq_true_eq] at hparts
      exact ⟨hparts.1.1.1, hsupported, ⟨hparts.1.2, hparts.2⟩, rfl⟩
    · cases h
  · cases h

theorem date_ofLocal {date : Date} {clock : Clock} {offset : Int}
    (hclock : clock.hour ≤ 23 ∧ clock.minute ≤ 59 ∧ clock.second ≤ 59) :
    (ofLocal date clock offset).date = Date.ofDays date.toDays := by
  unfold ofLocal Moment.date
  congr 1
  simp only [secondsPerDay]
  omega

theorem clock_ofLocal {date : Date} {clock : Clock} {offset : Int}
    (hclock : clock.hour ≤ 23 ∧ clock.minute ≤ 59 ∧ clock.second ≤ 59) :
    (ofLocal date clock offset).clock = clock := by
  obtain ⟨hour, minute, second, nanos⟩ := clock
  unfold ofLocal Moment.clock
  simp only [secondsPerDay, Clock.mk.injEq, and_true] at hclock ⊢
  omega

/-- A leap second is shown at the end of a minute. -/
theorem clock?_eq_some {hour minute second nanos : Nat} {clock : Clock}
    (hnanos : nanos < 1000000000) (h : clock? hour minute second nanos = some clock) :
    (clock.hour ≤ 23 ∧ clock.minute ≤ 59 ∧ clock.second ≤ 59) ∧
      (clock.nanos < 1000000000 ∨ clock.nanos < 2000000000 ∧ clock.second = 59) := by
  unfold clock? at h
  split at h
  · rename_i hbounds
    simp only [Bool.and_eq_true, decide_eq_true_eq] at hbounds
    split at h <;> cases h <;> dsimp only <;> omega
  · cases h

/-- What is denoted with whole minutes of an offset is an instant as a clock shows it. -/
theorem regular_of_ofParts? {date : Date} {clock : Clock} {offset : Int} {m : Moment}
    (h : ofParts? date clock offset = some m)
    (hleap : clock.nanos < 1000000000 ∨ clock.nanos < 2000000000 ∧ clock.second = 59)
    (hminutes : offset % 60 = 0) : m.Regular := by
  obtain ⟨-, hsupported, -, rfl⟩ := ofParts?_eq_some h
  refine ⟨hsupported, ?_⟩
  simp only [ofLocal, secondsPerDay]
  omega

/-- What is denoted with a year of four digits and whole minutes of an offset can be written. -/
theorem writable_of_ofParts? {date : Date} {clock : Clock} {offset : Int} {m : Moment}
    (h : ofParts? date clock offset = some m)
    (hclock : clock.hour ≤ 23 ∧ clock.minute ≤ 59 ∧ clock.second ≤ 59)
    (hleap : clock.nanos < 1000000000 ∨ clock.nanos < 2000000000 ∧ clock.second = 59)
    (hyear : 0 ≤ date.year ∧ date.year ≤ 9999) (hminutes : offset % 60 = 0) : m.Writable := by
  have hregular := regular_of_ofParts? h hleap hminutes
  obtain ⟨hvalid, -, hoffset, rfl⟩ := ofParts?_eq_some h
  refine ⟨hregular, ?_, hminutes, hoffset⟩
  rw [date_ofLocal hclock, Date.year_ofDays_toDays hvalid]
  exact hyear

namespace Writable

variable {m : Moment} (h : m.Writable)

include h

theorem clock?_self : clock? m.clock.hour m.clock.minute
    (m.clock.second + m.clock.nanos / 1000000000) (m.clock.nanos % 1000000000) = some m.clock := by
  have hleap := h.leap
  have hminutes := h.minutes
  exact Moment.clock?_self (by omega)

theorem ofParts?_self : ofParts? m.date m.clock m.offset = some m := by
  have hyear := h.year
  refine Moment.ofParts?_self h.supported ?_ h.offset
  simp only [Date.isSupportedYear, Bool.and_eq_true, decide_eq_true_eq]
  unfold Date.minYear Date.maxYear
  omega

end Writable

end DocIndex.Moment
