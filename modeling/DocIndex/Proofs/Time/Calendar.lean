/-
Dates and the days that they stand for.

The days of an era are counted off in years of 365 days, put right by the leap days before
them, and what is left is the day of a year that begins in March.  The month of such a day does
not depend on the year, because the leap day is the last of its days.  So a table of the days
of one year is enough for the months, and the rest is arithmetic of eras and their years.
-/
import DocIndex.Time.Calendar

namespace DocIndex.Date

/-- The date of a day of a year, counted from the first of March. -/
def ofYearDay (year day : Int) : Date :=
  let monthFromMarch := (5 * day + 2) / 153
  let dayOfMonth := day - (153 * monthFromMarch + 2) / 5 + 1
  let month := if monthFromMarch < 10 then monthFromMarch + 3 else monthFromMarch - 9
  ⟨if month ≤ 2 then year + 1 else year, month.toNat, dayOfMonth.toNat⟩

/-- Days before the day of the first of a month, counted from March. -/
def daysBefore (month : Nat) : Int := (153 * ((month + 9) % 12 : Nat) + 2) / 5

/-! ### The days of a year -/

/-- The months of the days of a year, of which the last is a leap day. -/
theorem yearDay_table : ∀ day : Fin 366,
    1 ≤ (ofYearDay 0 day.val).month ∧ (ofYearDay 0 day.val).month ≤ 12 ∧
      1 ≤ (ofYearDay 0 day.val).day ∧
      (ofYearDay 0 day.val).day ≤ daysInMonth (if day.val = 365 then 4 else 1)
        (ofYearDay 0 day.val).month ∧
      daysBefore (ofYearDay 0 day.val).month + (ofYearDay 0 day.val).day - 1 = day.val ∧
      (ofYearDay 0 day.val).year = (if (ofYearDay 0 day.val).month ≤ 2 then 1 else 0) := by
  decide +kernel

/-- The month does not depend on the year. -/
theorem ofYearDay_eq (year day : Int) : ofYearDay year day
    = ⟨year + (ofYearDay 0 day).year, (ofYearDay 0 day).month, (ofYearDay 0 day).day⟩ := by
  unfold ofYearDay
  simp only
  generalize (if (5 * day + 2) / 153 < 10 then _ else _) = month
  by_cases h : month ≤ 2
  · rw [if_pos h, if_pos h, Int.zero_add]
  · rw [if_neg h, if_neg h, Int.add_zero]

theorem daysInMonth_le {year other : Int} (h : isLeapYear year = true → isLeapYear other = true)
    (month : Nat) : daysInMonth year month ≤ daysInMonth other month := by
  unfold daysInMonth
  by_cases hmonth : month = 2
  · rw [if_pos hmonth, if_pos hmonth]
    by_cases hyear : isLeapYear year = true
    · refine Nat.le_of_eq ?_
      rw [if_pos hyear, if_pos (h hyear)]
    · rw [if_neg hyear]
      split <;> decide
  · refine Nat.le_of_eq ?_
    rw [if_neg hmonth, if_neg hmonth]

/-- A day of a year has a date, if there is no leap day in a common year. -/
theorem isValid_ofYearDay {year day : Int} (hpos : 0 ≤ day) (hlt : day < 366)
    (hleap : day = 365 → isLeapYear (year + 1) = true) : (ofYearDay year day).isValid = true := by
  obtain ⟨n, rfl⟩ := Int.eq_ofNat_of_zero_le hpos
  have hn : n < 366 := by omega
  obtain ⟨hmonth, hmonths, hday, hdays, hbefore, hyear⟩ := yearDay_table ⟨n, hn⟩
  simp only at hmonth hmonths hday hdays hbefore hyear
  have hlength : (ofYearDay 0 n).day ≤ daysInMonth (year + (ofYearDay 0 n).year)
      (ofYearDay 0 n).month := by
    refine Nat.le_trans hdays (daysInMonth_le ?_ _)
    intro h
    by_cases hlast : n = 365
    · subst hlast
      exact hleap rfl
    · rw [if_neg hlast] at h
      exact absurd h (by decide)
  rw [ofYearDay_eq]
  simp only [isValid, Bool.and_eq_true, decide_eq_true_eq]
  exact ⟨⟨⟨hmonth, hmonths⟩, hday⟩, hlength⟩

/-- Counting the days up to a date gives its day of the year again. -/
theorem toDays_ofYearDay {era yearOfEra day : Int} (hfirst : 0 ≤ yearOfEra)
    (hlast : yearOfEra < 400) (hpos : 0 ≤ day) (hlt : day < 366) :
    (ofYearDay (yearOfEra + era * 400) day).toDays
      = era * daysPerEra + (yearOfEra * 365 + yearOfEra / 4 - yearOfEra / 100 + day)
        - daysToUnixEpoch := by
  obtain ⟨n, rfl⟩ := Int.eq_ofNat_of_zero_le hpos
  have hn : n < 366 := by omega
  obtain ⟨-, -, -, -, hbefore, hyear⟩ := yearDay_table ⟨n, hn⟩
  simp only at hbefore hyear
  rw [ofYearDay_eq, hyear]
  generalize hmonth : (ofYearDay 0 n).month = month at hbefore
  generalize (ofYearDay 0 n).day = dayOfMonth at hbefore
  have hmarch : (if month ≤ 2 then yearOfEra + era * 400 + (if month ≤ 2 then 1 else 0) - 1
      else yearOfEra + era * 400 + (if month ≤ 2 then 1 else 0)) = yearOfEra + era * 400 := by
    by_cases h : month ≤ 2
    · rw [if_pos h, if_pos h]
      omega
    · rw [if_neg h, if_neg h]
      omega
  have hera : (yearOfEra + era * 400) / 400 = era := by omega
  have hrest : (yearOfEra + era * 400) % 400 = yearOfEra := by omega
  unfold daysBefore at hbefore
  simp only [toDays, hmarch, hera, hrest]
  omega

/-! ### The years of an era -/

/-- The year of a day of an era, counted from March. -/
def yearOfEra (day : Int) : Int := (day - day / 1460 + day / 36524 - day / 146096) / 365

/-- What is left of a day of an era after the years before it. -/
def dayOfYear (day : Int) : Int :=
  day - (365 * yearOfEra day + yearOfEra day / 4 - yearOfEra day / 100)

theorem yearOfEra_bounds {day : Int} (hpos : 0 ≤ day) (hlt : day < daysPerEra) :
    0 ≤ yearOfEra day ∧ yearOfEra day < 400 := by
  unfold daysPerEra at hlt
  unfold yearOfEra
  omega

/-- The centuries of a day and of its year: with these fixed, what remains is linear. -/
theorem century_cases {day : Int} (hpos : 0 ≤ day) (hlt : day < daysPerEra) : day = 146096 ∨
    day / 146096 = 0 ∧
      (day / 36524 = 0 ∨ day / 36524 = 1 ∨ day / 36524 = 2 ∨ day / 36524 = 3) ∧
      (yearOfEra day / 100 = 0 ∨ yearOfEra day / 100 = 1 ∨ yearOfEra day / 100 = 2 ∨
        yearOfEra day / 100 = 3) := by
  obtain ⟨hfirst, hlast⟩ := yearOfEra_bounds hpos hlt
  unfold daysPerEra at hlt
  by_cases h : day = 146096
  · exact Or.inl h
  · exact Or.inr ⟨by omega, by omega, by omega⟩

theorem dayOfYear_bounds {day : Int} (hpos : 0 ≤ day) (hlt : day < daysPerEra) :
    0 ≤ dayOfYear day ∧ dayOfYear day < 366 := by
  rcases century_cases hpos hlt with rfl | ⟨hlast, hcentury, hyears⟩
  · decide
  · unfold dayOfYear
    unfold yearOfEra at hyears ⊢
    rcases hcentury with hc | hc | hc | hc <;>
      rcases hyears with hy | hy | hy | hy <;> omega

/-- Only a leap year has a last day. -/
theorem isLeapYear_of_dayOfYear {day : Int} (hpos : 0 ≤ day) (hlt : day < daysPerEra)
    (h : dayOfYear day = 365) (era : Int) :
    isLeapYear (yearOfEra day + era * 400 + 1) = true := by
  have hrest : (yearOfEra day + 1) % 4 = 0 ∧
      ((yearOfEra day + 1) % 100 ≠ 0 ∨ (yearOfEra day + 1) % 400 = 0) := by
    rcases century_cases hpos hlt with rfl | ⟨hlast, hcentury, hyears⟩
    · decide
    · have hquarter : yearOfEra day % 4 = 0 ∨ yearOfEra day % 4 = 1 ∨ yearOfEra day % 4 = 2 ∨
          yearOfEra day % 4 = 3 := by
        omega
      unfold dayOfYear at h
      unfold yearOfEra at hyears hquarter h ⊢
      -- With the centuries and the place in a leap cycle fixed, no quotient of a quotient is left.
      rcases hcentury with hc | hc | hc | hc <;> rcases hyears with hy | hy | hy | hy <;>
        rcases hquarter with hq | hq | hq | hq <;> omega
  obtain ⟨hfour, hcenturies⟩ := hrest
  have hyear : (yearOfEra day + era * 400 + 1) % 4 = 0 := by omega
  have hall : (yearOfEra day + era * 400 + 1) % 100 ≠ 0 ∨
      (yearOfEra day + era * 400 + 1) % 400 = 0 := by
    omega
  unfold isLeapYear
  simp only [Bool.and_eq_true, Bool.or_eq_true, beq_iff_eq, bne_iff_ne]
  exact ⟨hyear, hall⟩

/-! ### Days and dates -/

theorem ofDays_eq (days : Int) : ofDays days
    = ofYearDay (yearOfEra ((days + daysToUnixEpoch) % daysPerEra) +
        (days + daysToUnixEpoch) / daysPerEra * 400)
      (dayOfYear ((days + daysToUnixEpoch) % daysPerEra)) := rfl

theorem dayOfEra_bounds (days : Int) : 0 ≤ (days + daysToUnixEpoch) % daysPerEra ∧
    (days + daysToUnixEpoch) % daysPerEra < daysPerEra := by
  unfold daysPerEra
  omega

/-- **Every day has a date.** -/
theorem isValid_ofDays (days : Int) : (ofDays days).isValid = true := by
  obtain ⟨hpos, hlt⟩ := dayOfEra_bounds days
  obtain ⟨hfirst, hlast⟩ := dayOfYear_bounds hpos hlt
  rw [ofDays_eq]
  exact isValid_ofYearDay hfirst hlast fun h => isLeapYear_of_dayOfYear hpos hlt h _

theorem daysInMonth_le_31 (year : Int) (month : Nat) : daysInMonth year month ≤ 31 := by
  unfold daysInMonth
  split
  · split <;> decide
  · split <;> decide

/-- The month and the day have two digits at most. -/
theorem ofDays_bounds (days : Int) : (ofDays days).month < 100 ∧ (ofDays days).day < 100 := by
  have hvalid := isValid_ofDays days
  have hlength := daysInMonth_le_31 (ofDays days).year (ofDays days).month
  simp only [isValid, Bool.and_eq_true, decide_eq_true_eq] at hvalid
  omega

/-- **The date of a day stands for that day.** -/
theorem toDays_ofDays (days : Int) : (ofDays days).toDays = days := by
  obtain ⟨hpos, hlt⟩ := dayOfEra_bounds days
  obtain ⟨hfirst, hlast⟩ := dayOfYear_bounds hpos hlt
  obtain ⟨hyear, hyears⟩ := yearOfEra_bounds hpos hlt
  rw [ofDays_eq, toDays_ofYearDay hyear hyears hfirst hlast]
  have hday : yearOfEra ((days + daysToUnixEpoch) % daysPerEra) * 365
      + yearOfEra ((days + daysToUnixEpoch) % daysPerEra) / 4
      - yearOfEra ((days + daysToUnixEpoch) % daysPerEra) / 100
      + dayOfYear ((days + daysToUnixEpoch) % daysPerEra)
      = (days + daysToUnixEpoch) % daysPerEra := by
    unfold dayOfYear
    omega
  rw [hday, Int.mul_comm, Int.mul_ediv_add_emod]
  omega

/-! ### Years and days -/

/-- Days from 0000-03-01 to the first of March of a year. -/
def daysToMarch (year : Int) : Int := 365 * year + year / 4 - year / 100 + year / 400

theorem daysToMarch_lt {a b : Int} (h : a < b) : daysToMarch a + 365 ≤ daysToMarch b := by
  unfold daysToMarch
  omega

theorem daysToMarch_eq (year : Int) : year / 400 * daysPerEra +
    (year % 400 * 365 + year % 400 / 4 - year % 400 / 100) = daysToMarch year := by
  unfold daysToMarch daysPerEra
  omega

/-- A date lies between the first day of its year and that of the next one. -/
theorem toDays_bounds {d : Date} (h : d.isValid = true) :
    daysToMarch (d.year - 1) + 306 ≤ d.toDays + daysToUnixEpoch ∧
      d.toDays + daysToUnixEpoch < daysToMarch d.year + 306 := by
  obtain ⟨year, month, day⟩ := d
  have hlength := daysInMonth_le_31 year month
  simp only [isValid, Bool.and_eq_true, decide_eq_true_eq] at h
  have hstep := daysToMarch_lt (show year - 1 < year by omega)
  unfold toDays
  simp only
  by_cases hmarch : month ≤ 2
  · have := daysToMarch_eq (year - 1)
    rw [if_pos hmarch]
    omega
  · have := daysToMarch_eq year
    rw [if_neg hmarch]
    omega

/-- **Dates of a later year stand for later days.** -/
theorem toDays_lt_toDays {a b : Date} (ha : a.isValid = true) (hb : b.isValid = true)
    (h : a.year < b.year) : a.toDays < b.toDays := by
  have hlast := (toDays_bounds ha).2
  have hfirst := (toDays_bounds hb).1
  rcases Int.lt_or_eq_of_le (show a.year ≤ b.year - 1 by omega) with hlt | heq
  · have hstep := daysToMarch_lt hlt
    omega
  · rw [heq] at hlast
    omega

/-- The date of a day lies in the year of any date that stands for it. -/
theorem year_ofDays_toDays {d : Date} (h : d.isValid = true) : (ofDays d.toDays).year = d.year := by
  have hsame := toDays_ofDays d.toDays
  have hvalid := isValid_ofDays d.toDays
  rcases Int.lt_trichotomy (ofDays d.toDays).year d.year with hlt | heq | hlt
  · have hless := toDays_lt_toDays hvalid h hlt
    omega
  · exact heq
  · have hless := toDays_lt_toDays h hvalid hlt
    omega

end DocIndex.Date
