/-
Tokens read back from their spelling.

Where a query is printed, every token is followed by a blank, a closing parenthesis, a comma or
the end.  A word and a relative time are printed as they were read, from a whole run of word
characters, and such a run is read again as what it was.  An integer, a time and a phrase are
printed anew.  An integer is read back because its digits are a number and nothing else, and a
time because it has a year of four digits, and an offset of whole minutes.  A phrase
is read back if it has no backslash: the printer puts a backslash before each quote but not
before a backslash, and the reader drops it.
-/
import DocIndex.Proofs.Query.Runs

namespace DocIndex.Query.Lexer

open Text (NoDigit noDigit_cons readDigits?)
open Moment (padded readDigits?_padded)

/-- A text that is read as a token wherever it is printed. -/
def ReadsAs (text : List Char) (token : Token) : Prop :=
  ∃ c more, text = c :: more ∧ Text.isBlank c = false ∧
    ∀ rest, Stops rest → readToken c (more ++ rest) = .ok (token, rest)

variable {c : Char} {text rest : List Char} {token : Token}

theorem isBlank_of_isWordChar (h : isWordChar c = true) : Text.isBlank c = false := by
  by_contra hblank
  rw [isWordChar_of_isBlank (by simpa using hblank)] at h
  cases h

theorem noDigit_of_nil : NoDigit [] := nofun

theorem Stops.noDigit (h : Stops rest) : NoDigit rest := by
  intro c hc
  rcases h c hc with rfl | rfl | rfl <;> decide

/-! ### Runs -/

/-- A run that is no date in one place is read as the same wherever it is printed. -/
theorem readsAs_run {run : List Char} (hrun : IsRun run) (hne : run ≠ []) {other : List Char}
    (hother : atBoundary other = true) (hdate : readDate? (run ++ other) = none) :
    ReadsAs run (readRun run).1 := by
  obtain ⟨c, more, rfl⟩ := List.exists_cons_of_ne_nil hne
  refine ⟨c, more, rfl, isBlank_of_isWordChar (hrun c List.mem_cons_self), fun rest hrest => ?_⟩
  rw [readToken_run hrun hrest.atBoundary (readDate?_eq_none hrun hother hdate hrest),
    readRun_snd hrun, List.nil_append]

/-- A run that is no date is a relative time of that text, a number, a keyword or a word. -/
theorem readRun_cases {run : List Char} (hrun : IsRun run) :
    (∃ t, (readRun run).1 = .relative t ∧ t.raw.toList = run) ∨
      (∃ n, (readRun run).1 = .integer n ∧ fitsInt64 n = true) ∨
      (∃ x, (readRun run).1 = .number x) ∨ (readRun run).1 = keywordOrWord run := by
  have hend := readRun_snd hrun
  unfold readRun at hend ⊢
  cases hrelative : readRelative? run with
  | some found =>
      obtain ⟨-, -, t, htoken, hraw⟩ := readRelative?_eq_some hrelative
      have hrest : found.2 = [] := by simpa [hrelative] using hend
      refine .inl ⟨t, htoken, ?_⟩
      rw [hraw, hrest, List.length_nil, Nat.sub_zero, List.take_length, String.toList_ofList]
  | none =>
      cases hnumber : readNumber? run with
      | some found =>
          obtain ⟨-, -, ⟨n, htoken, hfits⟩ | ⟨x, htoken⟩⟩ := readNumber?_eq_some hnumber
          · exact .inr (.inl ⟨n, htoken, hfits⟩)
          · exact .inr (.inr (.inl ⟨x, htoken⟩))
      | none => exact .inr (.inr (.inr rfl))

/-- The tokens that words in any case stand for, without a text of their own. -/
def keywords : List Token :=
  [.andWord, .orWord, .notWord, .inWord, .orderWord, .byWord, .ascWord, .descWord]

theorem keywordOrWord_cases (run : List Char) :
    keywordOrWord run = .word (String.ofList run) ∨ keywordOrWord run ∈ keywords := by
  unfold keywordOrWord keywords
  simp only
  split_ifs <;> simp

/-! ### Integers -/

/-- A date has dashes. -/
theorem readDate?_digits {digits : List Char} (hdigits : ∀ c ∈ digits, c.isDigit = true) :
    readDate? (digits ++ []) = none := by
  refine Option.eq_none_iff_forall_ne_some.mpr fun found hfound => ?_
  have hrun : IsRun digits := fun c hc => wordTest_isDigit c (hdigits c hc)
  have hend : Stops [] := nofun
  obtain ⟨date, ⟨year, months, _, _, _, hyear, -⟩, -⟩ := isDay_of_readDate? hrun hend hfound
  exact absurd (hdigits '-' ((readDigits?_suffix hyear).subset List.mem_cons_self)) (by decide)

/-- A relative time has an anchor or units. -/
theorem readRelative?_digits {digits : List Char} (hdigits : ∀ c ∈ digits, c.isDigit = true)
    (hne : digits ≠ []) :
    readRelative? digits = none ∧ readRelative? ('-' :: digits) = none := by
  obtain ⟨c, more, rfl⟩ := List.exists_cons_of_ne_nil hne
  have hc : c.isDigit = true := hdigits c List.mem_cons_self
  have hother : ∀ d : Char, d.isDigit = false → c ≠ d := by
    rintro d hd rfl
    rw [hd] at hc
    cases hc
  constructor
  · have hnow : 'N' ≠ c := (hother 'N' (by decide)).symm
    have htoday : 'T' ≠ c := (hother 'T' (by decide)).symm
    exact readRelative?_of_no_anchor (by simp [List.isPrefixOf, hnow])
      (by simp [List.isPrefixOf, htoday]) (hother '+' (by decide)) (hother '-' (by decide))
  · have hgroups : readGroups (c :: more).length (c :: more) = ([], c :: more) := by
      have hunit : (c :: more).dropWhile Char.isDigit = [] := by
        simpa using Text.dropWhile_isDigit hdigits (noDigit_of_nil)
      rw [List.length_cons, readGroups, hunit]
      simp
    have hliteral : readRelativeLiteral? ('-' :: c :: more) = none := by
      have hanchor : readAnchor ('-' :: c :: more) = (none, '-' :: c :: more) := rfl
      simp only [readRelativeLiteral?, hanchor, hgroups]
      rfl
    rw [readRelative?, hliteral]
    rfl

theorem readDecimal?_digits {negative : Bool} {digits : List Char}
    (hdigits : ∀ c ∈ digits, c.isDigit = true) (hne : digits ≠ [])
    (hfits : fitsInt64 (signed negative (numeralValue digits)) = true) :
    readDecimal? negative digits = some (.integer (signed negative (numeralValue digits)), []) := by
  have htake : digits.takeWhile Char.isDigit = digits := by
    simpa using Text.takeWhile_isDigit hdigits noDigit_of_nil
  have hdrop : digits.dropWhile Char.isDigit = [] := by
    simpa using Text.dropWhile_isDigit hdigits noDigit_of_nil
  unfold readDecimal?
  simp [htake, hdrop, readFraction, hne, hfits, atBoundary]

/-- An integer is read back. -/
theorem readsAs_integer {n : Int} (h : fitsInt64 n = true) :
    ReadsAs (toString n).toList (.integer n) := by
  have hdigits : ∀ c ∈ Nat.toDigits 10 n.natAbs, c.isDigit = true := fun c hc =>
    Nat.isDigit_of_mem_toDigits (by decide) (by decide) hc
  have hne : Nat.toDigits 10 n.natAbs ≠ [] := Nat.toDigits_ne_nil
  have hrun : IsRun (Nat.toDigits 10 n.natAbs) := fun c hc => wordTest_isDigit c (hdigits c hc)
  have hend : atBoundary [] = true := rfl
  obtain ⟨hrelative, hminus⟩ := readRelative?_digits hdigits hne
  rw [toList_toString]
  by_cases hneg : n < 0
  · have hvalue : signed true (numeralValue (Nat.toDigits 10 n.natAbs)) = n := by
      rw [numeralValue_toDigits, signed, if_pos rfl]
      omega
    have hread : (readRun ('-' :: Nat.toDigits 10 n.natAbs)).1 = .integer n := by
      have hnumber : readNumber? ('-' :: Nat.toDigits 10 n.natAbs) = some (.integer n, []) := by
        rw [readNumber?_minus, readDecimal?_digits hdigits hne (hvalue.symm ▸ h), hvalue]
      simp [readRun, hminus, hnumber]
    rw [if_pos hneg, ← hread]
    exact readsAs_run (List.forall_mem_cons.mpr ⟨by decide, hrun⟩) (List.cons_ne_nil _ _)
      hend (readDate?_of_not_digit (by decide))
  · have hvalue : signed false (numeralValue (Nat.toDigits 10 n.natAbs)) = n := by
      rw [numeralValue_toDigits, signed, if_neg (by decide)]
      omega
    have hread : (readRun (Nat.toDigits 10 n.natAbs)).1 = .integer n := by
      have hunsigned : ∀ more, Nat.toDigits 10 n.natAbs ≠ '-' :: more := fun more heq =>
        absurd (hdigits '-' (heq ▸ List.mem_cons_self)) (by decide)
      have hnumber : readNumber? (Nat.toDigits 10 n.natAbs) = some (.integer n, []) := by
        rw [readNumber?_of_unsigned hunsigned, readDecimal?_digits hdigits hne (hvalue.symm ▸ h),
          hvalue]
      simp [readRun, hrelative, hnumber]
    rw [if_neg hneg, ← hread]
    exact readsAs_run hrun hne hend (readDate?_digits hdigits)

/-! ### Phrases -/

/-- The characters of a phrase in print: a backslash stands before each quote. -/
def escape (c : Char) : List Char := if c == '\x22' then ['\\', c] else [c]

theorem readQuoted?_escape {phrase : List Char} (h : '\\' ∉ phrase) (rest : List Char) :
    readQuoted? (phrase.flatMap escape ++ '\x22' :: rest) = some (phrase, rest) := by
  induction phrase with
  | nil => simp [readQuoted?]
  | cons c more ih =>
      obtain ⟨hc, hmore⟩ := List.ne_and_not_mem_of_not_mem_cons h
      by_cases hquote : c = '\x22'
      · subst hquote
        simp [escape, readQuoted?, ih hmore]
      · simp [escape, readQuoted?, hquote, hc.symm, ih hmore]

/-- A phrase without backslashes is read back. -/
theorem readsAs_phrase {phrase : String} (h : '\\' ∉ phrase.toList) :
    ReadsAs (Value.writePhrase phrase).toList (.quoted phrase) := by
  refine ⟨'\x22', phrase.toList.flatMap escape ++ ['\x22'], ?_, by decide, fun rest _ => ?_⟩
  · rw [Value.writePhrase, String.toList_ofList]
    rfl
  · have hread := readQuoted?_escape h rest
    rw [List.append_assoc, List.singleton_append]
    simp [readToken, hread]

/-! ### Operators -/

/-- What is no word character starts no literal and no word. -/
theorem readToken_sign (hc : isWordChar c = false) (hquote : c ≠ '\x22') (text : List Char) :
    readToken c text = match readOperator? (c :: text) <|> readPunctuation? (c :: text) with
      | some found => .ok found
      | none => .error (.unexpectedCharacter c) := by
  have hend : atBoundary (c :: text) = true := by rw [atBoundary, hc, Bool.not_false]
  have hdigit : c.isDigit = false := by
    by_contra hdigit
    rw [wordTest_isDigit c (by simpa using hdigit)] at hc
    cases hc
  have hdate : readDate? (c :: text) = none := readDate?_of_not_digit hdigit
  have hrelative : readRelative? (c :: text) = none := readRelative?_append hend []
  have hnumber : readNumber? (c :: text) = none := readNumber?_append hend []
  have hword : readWord? (c :: text) = none := by simp [readWord?, hc]
  unfold readToken
  simp only [beq_iff_eq, hquote, if_false, hdate, hrelative, hnumber, hword]
  cases readOperator? (c :: text) with
  | some found => rfl
  | none => cases readPunctuation? (c :: text) <;> rfl

/-- Whether an operator is a sign, and not nothing or words. -/
def isSign : Operator → Bool
  | .plain | .oneOf | .noneOf => false
  | _ => true

/-- No longer sign stands where one is printed. -/
theorem readsAs_operator {op : Operator} (h : isSign op = true) :
    ReadsAs op.symbol.toList (.operator op) := by
  obtain ⟨c, more, hsymbol, hc, hquote, hblank⟩ : ∃ c more, op.symbol.toList = c :: more ∧
      isWordChar c = false ∧ c ≠ '\x22' ∧ Text.isBlank c = false := by
    cases op <;> first
      | exact absurd h (by decide)
      | exact ⟨_, _, rfl, by decide⟩
  refine ⟨c, more, hsymbol, hblank, fun rest hrest => ?_⟩
  have hequals : ∀ others, rest ≠ '=' :: others := by
    rintro others rfl
    exact absurd (hrest '=' rfl) (by decide)
  have hread : readOperator? (op.symbol.toList ++ rest) = some (.operator op, rest) := by
    cases op <;> first
      | exact absurd h (by decide)
      | simp [Operator.symbol, readOperator?]
  rw [hsymbol, List.cons_append] at hread
  rw [readToken_sign hc hquote, hread]
  rfl

theorem readOperator?_eq_some (h : readOperator? text = some (token, rest)) :
    token = .colon ∨ ∃ op, token = .operator op ∧ isSign op = true := by
  unfold readOperator? at h
  split at h <;> cases h <;> first
    | exact .inl rfl
    | exact .inr ⟨_, rfl, rfl⟩

/-! ### Times -/

theorem readOffset_writeOffset {offset : Int} (hminutes : offset % 60 = 0)
    (hbound : -86400 < offset ∧ offset < 86400) (hrest : NoDigit rest) :
    readOffset ((Moment.writeOffset offset).toList ++ rest) = (offset, rest) := by
  have hwrite : (Moment.writeOffset offset).toList ++ rest = (if offset < 0 then '-' else '+') ::
      ((padded 2 (offset.natAbs / 3600)).toList ++ ':' ::
        ((padded 2 (offset.natAbs / 60 % 60)).toList ++ rest)) := by
    have hhours : (offset.natAbs + 30) / 60 / 60 = offset.natAbs / 3600 := by omega
    have hminute : (offset.natAbs + 30) / 60 % 60 = offset.natAbs / 60 % 60 := by omega
    unfold Moment.writeOffset
    rw [← hhours, ← hminute]
    split <;> simp [String.toList_append]
  have hhour := readDigits?_padded (show 0 < 2 by decide)
    (show offset.natAbs / 3600 < 10 ^ 2 by omega)
    (noDigit_cons (by decide : ':'.isDigit = false)
      ((padded 2 (offset.natAbs / 60 % 60)).toList ++ rest))
  have hminute := readDigits?_padded (show 0 < 2 by decide)
    (show offset.natAbs / 60 % 60 < 10 ^ 2 by omega) hrest
  have hvalue : offset.natAbs / 3600 * 3600 + offset.natAbs / 60 % 60 * 60 = offset.natAbs := by
    omega
  rw [hwrite]
  generalize offset.natAbs / 3600 = hours at *
  generalize offset.natAbs / 60 % 60 = minutes at *
  by_cases hneg : offset < 0
  · have heq : -(↑(hours * 3600 + minutes * 60) : Int) = offset := by omega
    rw [if_pos hneg, readOffset]
    simp only [hhour, hminute, Text.readMark?_self, Option.bind_eq_bind, Option.bind_some, heq]
    rfl
  · have heq : (↑(hours * 3600 + minutes * 60) : Int) = offset := by omega
    rw [if_neg hneg, readOffset]
    simp only [hhour, hminute, Text.readMark?_self, Option.bind_eq_bind, Option.bind_some, heq]
    rfl

/-- The clock of an instant in print, with the letter before it and the offset behind it. -/
def clockText (m : Moment) : List Char :=
  'T' :: ((padded 2 m.clock.hour).toList ++ ':' :: ((padded 2 m.clock.minute).toList ++
    ':' :: ((padded 2 (m.clock.second + m.clock.nanos / 1000000000)).toList ++
    ((Moment.writeFraction (m.clock.nanos % 1000000000)).toList ++
    (Moment.writeOffset m.offset).toList))))

section Times

variable {m : Moment} (h : m.Writable)

include h

/-- The date is read, and then a clock as far as there is one. -/
theorem readDateLiteral?_writeDay {tail : List Char} (htail : NoDigit tail) :
    readDateLiteral? ((Value.writeDay m).toList ++ tail)
      = some (⟨m.date, (readClock tail).1.1, (readClock tail).1.2⟩, (readClock tail).2) := by
  obtain ⟨hyear, hyears⟩ := h.year
  obtain ⟨hmonth, hday⟩ : m.date.month < 100 ∧ m.date.day < 100 := Date.ofDays_bounds _
  have hdash : ∀ more : List Char, NoDigit ('-' :: more) := noDigit_cons (by decide)
  have hwrite : (Value.writeDay m).toList ++ tail = (padded 4 m.date.year.toNat).toList ++
      '-' :: ((padded 2 m.date.month).toList ++ '-' :: ((padded 2 m.date.day).toList ++ tail)) := by
    simp [Value.writeDay, Value.writeYear, hyear, String.toList_append]
  refine readDateLiteral?_eq_some.mpr ⟨m.date.year.toNat, _, _, _, _, tail, ?_,
    readDigits?_padded (by decide) hmonth (hdash _), readDigits?_padded (by decide) hday htail,
    ?_, rfl⟩
  · rw [hwrite]
    exact readDigits?_padded (by decide) (by omega) (hdash _)
  · rw [Int.toNat_of_nonneg hyear]

/-- A day that starts at midnight in UTC is read back. -/
theorem readDate?_writeDay (hclock : m.clock = ⟨0, 0, 0, 0⟩) (hoffset : m.offset = 0)
    (hrest : Stops rest) :
    readDate? ((Value.writeDay m).toList ++ rest) = some (.time m .day, rest) := by
  have hparts : Moment.ofParts? m.date ⟨0, 0, 0, 0⟩ 0 = some m := by
    have hself := h.ofParts?_self
    rwa [hclock, hoffset] at hself
  have hread := readDateLiteral?_writeDay h hrest.noDigit
  rw [readClock_of_atBoundary hrest.atBoundary] at hread
  refine readDate?_eq_some.mpr ⟨_, hread, hrest.atBoundary, ?_⟩
  rw [DateLiteral.token?, hparts]
  rfl

/-- The clock is read with its offset, up to what stands behind it. -/
theorem readClock_clockText (hrest : NoDigit rest) : ∃ digits,
    Moment.fractionNanos digits = m.clock.nanos % 1000000000 ∧
    readClock (clockText m ++ rest) = ((some (m.clock.hour, m.clock.minute,
      m.clock.second + m.clock.nanos / 1000000000, digits), m.offset), rest) := by
  obtain ⟨hhour, hminute, hsecond⟩ := m.clock_bounds
  have hnanos : m.clock.nanos = m.nanos := rfl
  have hleap := h.leap
  obtain ⟨sign, zone, hsign, hzone⟩ : ∃ sign zone, (sign = '-' ∨ sign = '+') ∧
      (Moment.writeOffset m.offset).toList ++ rest = sign :: zone := by
    unfold Moment.writeOffset
    split
    · exact ⟨'-', _, .inl rfl, by simp [String.toList_append]; rfl⟩
    · exact ⟨'+', _, .inr rfl, by simp [String.toList_append]; rfl⟩
  have hbehind : NoDigit ((Moment.writeOffset m.offset).toList ++ rest) := by
    rw [hzone]
    rcases hsign with rfl | rfl <;> exact noDigit_cons (by decide) zone
  have hpoint : ∀ more, (Moment.writeOffset m.offset).toList ++ rest ≠ '.' :: more := by
    intro more heq
    rw [hzone] at heq
    rcases hsign with rfl | rfl <;> exact absurd (List.cons.inj heq).1 (by decide)
  obtain ⟨hvalue, hafter⟩ := readFraction_of (Moment.readFraction?_writeFraction
    (Nat.mod_lt m.clock.nanos (by decide)) hbehind hpoint)
  have hcolon : ∀ more : List Char, NoDigit (':' :: more) := noDigit_cons (by decide)
  refine ⟨_, hvalue, ?_⟩
  simp only [clockText, List.cons_append, List.append_assoc]
  rw [readClock_minute (readDigits?_padded (by decide) (by omega) (hcolon _))
      (readDigits?_padded (by decide) (by omega) (hcolon _)),
    readSeconds_second (readDigits?_padded (by decide) (by omega)
      (Moment.noDigit_writeFraction _ hbehind)), hafter,
    readOffset_writeOffset h.minutes h.offset hrest]

/-- An instant is read back with its offset. -/
theorem readDate?_write (hrest : Stops rest) :
    readDate? (m.write.toList ++ rest) = some (.time m .instant, rest) := by
  obtain ⟨digits, hnanos, hclock⟩ := readClock_clockText h hrest.noDigit
  have hwrite : m.write.toList ++ rest = (Value.writeDay m).toList ++ (clockText m ++ rest) := by
    simp [Moment.write, Moment.writeLocal, Moment.writeYear, Value.writeDay, Value.writeYear,
      clockText, h.year, String.toList_append]
  have hletter : NoDigit (clockText m ++ rest) := noDigit_cons (by decide) _
  have hread := readDateLiteral?_writeDay h hletter
  rw [← hwrite, hclock] at hread
  refine readDate?_eq_some.mpr ⟨_, hread, hrest.atBoundary, ?_⟩
  simp only [DateLiteral.token?, hnanos, h.clock?_self, Option.bind_eq_bind, Option.bind_some,
    h.ofParts?_self]
  rfl

end Times

/-- A fraction of a second is made of digits. -/
theorem readSeconds_digits (text : List Char) :
    ∀ c ∈ (readSeconds text).1.2, c.isDigit = true := by
  have hfraction : ∀ text, ∀ c ∈ (readFraction text).1, c.isDigit = true := by
    intro text
    unfold readFraction
    split
    · simp only
      split
      · exact nofun
      · exact List.all_eq_true.mp List.all_takeWhile
    · exact nofun
  cases hcolon : Text.readMark? ':' text with
  | none => simp [readSeconds, hcolon]
  | some more =>
      obtain rfl := Text.readMark?_eq_some.mp hcolon
      cases hsecond : readDigits? 2 2 more with
      | none => simp [readSeconds_none hsecond]
      | some found =>
          rw [readSeconds_second hsecond]
          exact hfraction found.2

/-- An offset is read to the minute. -/
theorem readOffset_minutes (text : List Char) : (readOffset text).1 % 60 = 0 := by
  cases text with
  | nil => rfl
  | cons c more =>
      unfold readOffset
      simp only
      split
      · rfl
      · split
        · cases hhours : readDigits? 2 2 more with
          | none => simp
          | some found =>
              cases hcolon : Text.readMark? ':' found.2 with
              | none => simp [hcolon]
              | some minutes =>
                  cases hminutes : readDigits? 2 2 minutes with
                  | none => simp [hcolon, hminutes]
                  | some last =>
                      simp only [Option.bind_eq_bind, Option.bind_some, hcolon, hminutes,
                        Option.pure_def, Option.getD_some]
                      split <;> omega
        · rfl

/-- A time that is read can be written, and a day starts at midnight in UTC. -/
theorem readDate?_time (h : readDate? text = some (token, rest)) : ∃ m precision,
    token = .time m precision ∧ m.Writable ∧
      (precision = .day → m.clock = ⟨0, 0, 0, 0⟩ ∧ m.offset = 0) := by
  obtain ⟨literal, hliteral, -, htoken⟩ := readDate?_eq_some.mp h
  obtain ⟨year, months, month, days, day, tail, hread, -, -, rfl, -⟩ :=
    readDateLiteral?_eq_some.mp hliteral
  have hbound : year < 10 ^ 4 := Text.lt_of_readDigits? hread
  have hyear : 0 ≤ (year : Int) ∧ (year : Int) ≤ 9999 := by omega
  rcases readClock_cases tail with hnone | ⟨hours, hour, minutes, minute, after, rfl, hhour,
    hminute⟩
  · rw [hnone] at htoken
    obtain ⟨m, hparts, rfl⟩ := Option.map_eq_some_iff.mp htoken
    have hclock : (⟨0, 0, 0, 0⟩ : Clock).hour ≤ 23 ∧ (⟨0, 0, 0, 0⟩ : Clock).minute ≤ 59 ∧
        (⟨0, 0, 0, 0⟩ : Clock).second ≤ 59 := by decide
    refine ⟨m, .day, rfl, Moment.writable_of_ofParts? hparts hclock (by decide) hyear rfl,
      fun _ => ?_⟩
    obtain ⟨-, -, -, rfl⟩ := Moment.ofParts?_eq_some hparts
    exact ⟨Moment.clock_ofLocal hclock, rfl⟩
  · rw [readClock_minute hhour hminute] at htoken
    obtain ⟨clock, hclock, htoken⟩ := Option.bind_eq_some_iff.mp htoken
    obtain ⟨m, hparts, htoken⟩ := Option.bind_eq_some_iff.mp htoken
    cases htoken
    obtain ⟨hbounds, hleap⟩ :=
      Moment.clock?_eq_some (Moment.fractionNanos_lt (readSeconds_digits after)) hclock
    exact ⟨m, .instant, rfl,
      Moment.writable_of_ofParts? hparts hbounds hleap hyear (readOffset_minutes _), nofun⟩

/-! ### What tokens are read as again -/

theorem readsAs_date (h : ∀ rest, Stops rest → readDate? (text ++ rest) = some (token, rest)) :
    ReadsAs text token := by
  obtain ⟨literal, hliteral, -, -⟩ := readDate?_eq_some.mp (h [] nofun)
  obtain ⟨year, months, _, _, _, _, hyear, -⟩ := readDateLiteral?_eq_some.mp hliteral
  obtain ⟨c, more, heq, hc⟩ := Text.readDigits?_cons hyear
  rw [List.append_nil] at heq
  subst heq
  have hquote : c ≠ '\x22' := by
    rintro rfl
    exact absurd hc (by decide)
  refine ⟨c, more, rfl, Text.isBlank_of_isDigit hc, fun rest hrest => ?_⟩
  have hread := h rest hrest
  rw [List.cons_append] at hread
  unfold readToken
  simp [hquote, hread]

/-- What a token is printed as is read as the token, numbers and some phrases apart. -/
def Rereads : Token → Prop
  | .word text => ReadsAs text.toList (.word text)
  | .relative t => ReadsAs t.raw.toList (.relative t)
  | .integer n => ReadsAs (toString n).toList (.integer n)
  | .time m precision => ReadsAs (Value.time m precision).write.toList (.time m precision)
  | .operator op => op ≠ .plain ∧ ReadsAs op.symbol.toList (.operator op)
  | _ => True

theorem rereads_time (h : readDate? text = some (token, rest)) : Rereads token := by
  obtain ⟨m, precision, rfl, hm, hday⟩ := readDate?_time h
  cases precision with
  | day =>
      obtain ⟨hclock, hoffset⟩ := hday rfl
      exact readsAs_date fun rest hrest => readDate?_writeDay hm hclock hoffset hrest
  | instant => exact readsAs_date fun rest hrest => readDate?_write hm hrest

theorem rereads_run {run : List Char} (hrun : IsRun run)
    (hread : ReadsAs run (readRun run).1) : Rereads (readRun run).1 := by
  rcases readRun_cases hrun with ⟨t, htoken, hraw⟩ | ⟨n, htoken, hfits⟩ | ⟨x, htoken⟩ | htoken
  · rw [htoken] at hread ⊢
    rwa [Rereads, hraw]
  · rw [htoken]
    exact readsAs_integer hfits
  · rw [htoken]
    trivial
  · rw [htoken] at hread ⊢
    rcases keywordOrWord_cases run with hword | hkeyword
    · rw [hword] at hread ⊢
      rwa [Rereads, String.toList_ofList]
    · have hall : ∀ keyword ∈ keywords, Rereads keyword := by simp [keywords, Rereads]
      exact hall _ hkeyword

/-! ### How tokens are found -/

/-- The tokens of the signs that are no operators. -/
def marks : List Token := [.colon, .openParen, .closeParen, .comma]

/-- A token found at the front of a text, and what is left of the text. -/
inductive Reading : List Char → Token → List Char → Prop where
  | phrase {text phrase rest : List Char} (h : readQuoted? text = some (phrase, rest)) :
      Reading ('\x22' :: text) (.quoted (String.ofList phrase)) rest
  | mark {text rest : List Char} {token : Token} (h : token ∈ marks) : Reading text token rest
  | sign {text rest : List Char} {op : Operator} (h : isSign op = true) :
      Reading text (.operator op) rest
  | date {text rest : List Char} {token : Token} (h : readDate? text = some (token, rest)) :
      Reading text token rest
  | run {run rest : List Char} (hrun : IsRun run) (hne : run ≠ []) (hrest : atBoundary rest = true)
      (hdate : readDate? (run ++ rest) = none) : Reading (run ++ rest) (readRun run).1 rest

theorem reading_of_sign (hc : isWordChar c = false) (hquote : c ≠ '\x22')
    (h : readToken c text = .ok (token, rest)) : Reading (c :: text) token rest := by
  rw [readToken_sign hc hquote] at h
  cases hoperator : readOperator? (c :: text) with
  | some found =>
      rw [hoperator] at h
      obtain rfl : found = (token, rest) := Except.ok.inj h
      rcases readOperator?_eq_some hoperator with rfl | ⟨op, rfl, hop⟩
      · exact .mark List.mem_cons_self
      · exact .sign hop
  | none =>
      rw [hoperator] at h
      have hpunctuation : ∀ found, readPunctuation? (c :: text) = some found →
          found.1 ∈ marks := by
        intro found hfound
        unfold readPunctuation? at hfound
        split at hfound <;> cases hfound <;> simp [marks]
      cases hfound : readPunctuation? (c :: text) with
      | some found =>
          rw [hfound] at h
          obtain rfl : found = (token, rest) := Except.ok.inj h
          exact .mark (hpunctuation _ hfound)
      | none =>
          rw [hfound] at h
          cases h

/-- What begins with a word character and is no date is read from the longest run. -/
theorem exists_run (hc : isWordChar c = true) (hdate : readDate? (c :: text) = none)
    (h : readToken c text = .ok (token, rest)) :
    ∃ more, text = more ++ rest ∧ IsRun (c :: more) ∧ atBoundary rest = true ∧
      token = (readRun (c :: more)).1 := by
  have hrun : IsRun (c :: text.takeWhile isWordChar) :=
    List.forall_mem_cons.mpr ⟨hc, isRun_takeWhile text⟩
  have hend := atBoundary_dropWhile text
  have htext := List.takeWhile_append_dropWhile (p := isWordChar) (l := text)
  have htoken := readToken_run hrun hend (by rw [htext]; exact hdate)
  rw [htext, h, readRun_snd hrun, List.nil_append] at htoken
  obtain ⟨rfl, rfl⟩ := Prod.mk.inj (Except.ok.inj htoken)
  exact ⟨_, htext.symm, hrun, hend, rfl⟩

/-- A token that is no date is a phrase, a sign, or that of the longest run from here on. -/
theorem reading_of_readToken (h : readToken c text = .ok (token, rest)) :
    Reading (c :: text) token rest := by
  by_cases hquote : c = '\x22'
  · subst hquote
    unfold readToken at h
    simp only [beq_self_eq_true, if_true] at h
    split at h
    · rename_i phrase left hquoted
      cases h
      exact .phrase hquoted
    · cases h
  · cases hc : isWordChar c with
    | false => exact reading_of_sign hc hquote h
    | true =>
        cases hdate : readDate? (c :: text) with
        | some found =>
            unfold readToken at h
            simp only [beq_iff_eq, hquote, if_false, hdate] at h
            obtain rfl : found = (token, rest) := Except.ok.inj h
            exact .date hdate
        | none =>
            obtain ⟨more, rfl, hrun, hend, rfl⟩ := exists_run hc hdate h
            exact .run hrun (List.cons_ne_nil c more) hend hdate

/-- **Every token that is read is read again from what it is printed as.** -/
theorem Reading.rereads (h : Reading text token rest) : Rereads token := by
  cases h with
  | phrase _ => trivial
  | mark hmark =>
      have hall : ∀ mark ∈ marks, Rereads mark := by simp [marks, Rereads]
      exact hall _ hmark
  | sign hop =>
      refine ⟨?_, readsAs_operator hop⟩
      rintro rfl
      cases hop
  | date hdate => exact rereads_time hdate
  | run hrun hne hrest hdate => exact rereads_run hrun (readsAs_run hrun hne hrest hdate)

end DocIndex.Query.Lexer
