/-
Date literals of queries and instants of documents.

Queries and documents read written dates by different readers.  A literal of a query may be a
whole day, may leave out the seconds, and is read as far as it goes; an instant of a document
has seconds, may have shorter numbers with blanks before them, and has to fill its text.  Where
both read a text they read the same numbers: the literal's numbers have a fixed width, so the
other reader, which takes as many digits as there are, cannot take more or fewer.  If the
literal went less far than the instant, the rest of the text would not be blank.
-/
import Mathlib.Data.List.Basic
import DocIndex.Document.Strategy
import DocIndex.Proofs.Except
import DocIndex.Proofs.Time.Notation
import DocIndex.Query.Token.Lexer

namespace DocIndex

namespace Text

/-- Nothing but blanks. -/
def Blank (text : List Char) : Prop := ∀ c ∈ text, isBlank c = true

theorem Blank.ne_cons {text rest : List Char} (h : Blank text) {c : Char}
    (hc : isBlank c = false) : text ≠ c :: rest := by
  rintro rfl
  rw [h c List.mem_cons_self] at hc
  cases hc

/-- What begins with a digit does not begin with blanks. -/
theorem Blank.eq_nil_of_digit {blanks text : List Char} (h : Blank blanks)
    (hdigit : (blanks ++ text).head?.any Char.isDigit = true) : blanks = [] := by
  cases blanks with
  | nil => rfl
  | cons c more =>
      rw [List.cons_append, List.head?_cons, Option.any_some] at hdigit
      have hblank := h c List.mem_cons_self
      rw [isBlank_of_isDigit hdigit] at hblank
      cases hblank

/-- As many digits as a reader of fixed width takes are also taken by one that needs fewer. -/
theorem readDigits?_least {least most : Nat} (h : least ≤ most) {text rest : List Char} {n : Nat}
    (hread : readDigits? most most text = some (n, rest)) :
    readDigits? least most text = some (n, rest) := by
  unfold readDigits? at hread ⊢
  simp only at hread ⊢
  split at hread
  · cases hread
  · rw [if_neg (by omega), hread]

/-- What is read as digits begins with one. -/
theorem readDigits?_cons {most : Nat} {text rest : List Char} {n : Nat}
    (hread : readDigits? (most + 1) (most + 1) text = some (n, rest)) :
    ∃ c more, text = c :: more ∧ c.isDigit = true := by
  cases text with
  | nil => simp [readDigits?] at hread
  | cons c more =>
      refine ⟨c, more, rfl, ?_⟩
      by_contra hc
      simp [readDigits?, List.takeWhile_cons_of_neg hc] at hread

theorem trimLeft_of_readDigits? {most : Nat} {text rest : List Char} {n : Nat}
    (hread : readDigits? (most + 1) (most + 1) text = some (n, rest)) : trimLeft text = text := by
  obtain ⟨c, more, rfl, hc⟩ := readDigits?_cons hread
  exact trimLeft_cons (isBlank_of_isDigit hc) more

theorem readMark?_eq_some {mark : Char} {text rest : List Char} :
    readMark? mark text = some rest ↔ text = mark :: rest := by
  cases text with
  | nil => simp [readMark?]
  | cons c more => simp [readMark?]

theorem readMark?_self (mark : Char) (rest : List Char) :
    readMark? mark (mark :: rest) = some rest :=
  readMark?_eq_some.mpr rfl

theorem trimLeft_append {blanks : List Char} (h : Blank blanks) (text : List Char) :
    trimLeft (blanks ++ text) = trimLeft text :=
  List.dropWhile_append_of_pos h

end Text

open Text (Blank readMark? readDigits? readDigits?_least readMark?_eq_some)

/-! ### Numbers of a fixed width -/

namespace Moment

theorem readShort?_of_readDigits? {text rest : List Char} {n : Nat}
    (hread : readDigits? 2 2 text = some (n, rest)) : readShort? text = some (n, rest) := by
  rw [readShort?, Text.trimLeft_of_readDigits? hread]
  exact readDigits?_least (by decide) hread

theorem readYear?_of_readDigits? {text rest : List Char} {n : Nat}
    (hread : readDigits? 4 4 text = some (n, rest)) : readYear? text = some ((n : Int), rest) := by
  have hshort := readDigits?_least (by decide : 1 ≤ 4) hread
  obtain ⟨c, more, rfl, hc⟩ := Text.readDigits?_cons hread
  rw [readYear?_digit hc, hshort, Option.map_some]

theorem readYear?_append {blanks : List Char} (h : Blank blanks) (text : List Char) :
    readYear? (blanks ++ text) = readYear? text := by
  rw [readYear?, readYear?, Text.trimLeft_append h]

/-- Blanks may stand in front of a date and time without offset. -/
theorem ofLocalText?_append {blanks : List Char} (h : Blank blanks) (text : List Char) :
    ofLocalText? (blanks ++ text) = ofLocalText? text := by
  rw [ofLocalText?, ofLocalText?, readYear?_append h]

/-- No blanks may stand in front of an instant in the notation of RFC 3339. -/
theorem eq_nil_of_ofRfc3339? {blanks text : List Char} (h : Blank blanks) {instant : Moment}
    (hinstant : ofRfc3339? (blanks ++ text) = some instant) : blanks = [] := by
  cases blanks with
  | nil => rfl
  | cons c more =>
      obtain ⟨⟨year, rest⟩, hyear, -⟩ := Option.bind_eq_some_iff.mp hinstant
      obtain ⟨d, digits, heq, hd⟩ := Text.readDigits?_cons hyear
      obtain rfl := (List.cons.inj heq).1
      have hblank := h c List.mem_cons_self
      rw [Text.isBlank_of_isDigit hd] at hblank
      cases hblank

theorem offset_of_ofParts? {date : Date} {clock : Clock} {offset : Int} {m : Moment}
    (h : ofParts? date clock offset = some m) : m.offset = offset := by
  unfold ofParts? check? at h
  split at h
  · split at h
    · cases h
      rfl
    · cases h
  · cases h

/-- A date and time without offset is in UTC. -/
theorem utc_of_ofLocalText? {text : List Char} {m : Moment} (h : ofLocalText? text = some m) :
    m.utc = m := by
  unfold ofLocalText? at h
  simp only [Option.bind_eq_bind, Option.bind_eq_some_iff, Prod.exists] at h
  obtain ⟨year, _, -, _, -, month, _, -, _, -, day, _, -, _, -, hour, _, -, _, -, minute, _, -, _,
    -, second, _, -, nanos, rest, -, h⟩ := h
  split at h
  · obtain ⟨clock, -, hparts⟩ := Option.bind_eq_some_iff.mp h
    have hoffset := offset_of_ofParts? hparts
    cases m
    simp_all [utc]
  · cases h

end Moment

namespace Query.Lexer

variable {text rest after : List Char}

/-! ### The parts of a literal -/

theorem readDate?_eq_some {token : Token} :
    readDate? text = some (token, rest) ↔ ∃ literal, readDateLiteral? text = some (literal, rest) ∧
      atBoundary rest = true ∧ literal.token? = some token := by
  unfold readDate? bounded
  simp only [Option.bind_eq_bind, Option.bind_eq_some_iff, Option.filter_eq_some_iff, Prod.exists,
    Option.pure_def, Option.some.injEq, Prod.mk.injEq]
  constructor
  · rintro ⟨literal, _, ⟨hread, hboundary⟩, _, htoken, rfl, rfl⟩
    exact ⟨literal, hread, hboundary, htoken⟩
  · rintro ⟨literal, hread, hboundary, htoken⟩
    exact ⟨literal, rest, ⟨hread, hboundary⟩, token, htoken, rfl, rfl⟩

/-- A clock that is read to the minute goes on with seconds and an offset, as far as they go. -/
theorem readClock_minute {hour minute : Nat} {minutes : List Char}
    (hhour : readDigits? 2 2 text = some (hour, ':' :: minutes))
    (hminute : readDigits? 2 2 minutes = some (minute, after)) :
    readClock ('T' :: text) =
      ((some (hour, minute, (readSeconds after).1), (readOffset (readSeconds after).2).1),
        (readOffset (readSeconds after).2).2) := by
  simp [readClock, Text.readMark?_self, hhour, hminute]

/-- A text has no clock, or one that is read to the minute. -/
theorem readClock_cases (text : List Char) :
    readClock text = ((none, 0), text) ∨ ∃ hours hour minutes minute after,
      text = 'T' :: hours ∧ readDigits? 2 2 hours = some (hour, ':' :: minutes) ∧
        readDigits? 2 2 minutes = some (minute, after) := by
  cases hmark : readMark? 'T' text with
  | none => left; simp [readClock, hmark]
  | some hours =>
      obtain rfl := readMark?_eq_some.mp hmark
      cases hhour : readDigits? 2 2 hours with
      | none => left; simp [readClock, hmark, hhour]
      | some found =>
          obtain ⟨hour, afterHour⟩ := found
          cases hcolon : readMark? ':' afterHour with
          | none => left; simp [readClock, hmark, hhour, hcolon]
          | some minutes =>
              obtain rfl := readMark?_eq_some.mp hcolon
              cases hminute : readDigits? 2 2 minutes with
              | none => left; simp [readClock, hmark, hhour, hcolon, hminute]
              | some found =>
                  exact Or.inr ⟨hours, hour, minutes, found.1, found.2, rfl, hhour, hminute⟩

theorem readSeconds_second {second : Nat}
    (hsecond : readDigits? 2 2 text = some (second, after)) :
    readSeconds (':' :: text) = ((second, (readFraction after).1), (readFraction after).2) := by
  simp [readSeconds, Text.readMark?_self, hsecond]

theorem readSeconds_none (h : readDigits? 2 2 text = none) :
    readSeconds (':' :: text) = ((0, []), ':' :: text) := by
  simp [readSeconds, Text.readMark?_self, h]

/-- A fraction that an instant has is read as far, and denotes the same. -/
theorem readFraction_of {nanos : Nat} (h : Moment.readFraction? text = some (nanos, after)) :
    Moment.fractionNanos (readFraction text).1 = nanos ∧ (readFraction text).2 = after := by
  unfold Moment.readFraction? at h
  split at h
  · rename_i digits
    unfold readFraction
    simp only at h ⊢
    split at h
    · cases h
    · rename_i hsome
      rw [if_neg hsome]
      simpa using h
  · rename_i hpoint
    cases h
    have hnone : readFraction text = ([], text) := by
      unfold readFraction
      split
      · exact absurd rfl (hpoint _)
      · rfl
    rw [hnone]
    exact ⟨Nat.zero_mul _, rfl⟩

/-- An offset that an instant ends with is read whole, or not at all. -/
theorem readOffset_of {offset : Int} (h : Moment.readOffset? text = some (offset, [])) :
    readOffset text = (offset, []) ∨ ∃ c more, text = c :: more ∧ Text.isBlank c = false ∧
      readOffset text = (0, text) := by
  cases text with
  | nil => cases h
  | cons c more =>
      by_cases hz : c = 'z'
      · subst hz
        exact Or.inr ⟨'z', more, rfl, by decide, rfl⟩
      by_cases hminus : c = '−'
      · subst hminus
        exact Or.inr ⟨'−', more, rfl, by decide, rfl⟩
      left
      simp only [Moment.readOffset?, beq_iff_eq, Bool.or_eq_true, hz, hminus, or_false] at h
      unfold readOffset
      by_cases hutc : c = 'Z'
      · rw [if_pos hutc] at h
        simpa [hutc] using h
      · rw [if_neg hutc] at h
        by_cases hsign : c = '+' ∨ c = '-'
        · rw [if_pos hsign] at h
          obtain ⟨⟨hours, afterHours⟩, hhours, h⟩ := Option.bind_eq_some_iff.mp h
          obtain ⟨minutes, hcolon, h⟩ := Option.bind_eq_some_iff.mp h
          obtain ⟨⟨minute, left⟩, hminute, h⟩ := Option.bind_eq_some_iff.mp h
          simp only at hcolon h hminute
          split at h
          · cases h
          · simp only [Option.pure_def, Option.some.injEq, Prod.mk.injEq] at h
            obtain ⟨rfl, rfl⟩ := h
            rcases hsign with rfl | rfl <;> simp [hhours, hcolon, hminute]
        · rw [if_neg hsign] at h
          cases h

/-! ### Whole literals -/

/-- A literal is a date of four, two and two digits and what is read of a clock behind it. -/
theorem readDateLiteral?_eq_some {literal : DateLiteral} :
    readDateLiteral? text = some (literal, rest) ↔ ∃ year months month days day tail,
      readDigits? 4 4 text = some (year, '-' :: months) ∧
      readDigits? 2 2 months = some (month, '-' :: days) ∧
      readDigits? 2 2 days = some (day, tail) ∧
      literal = ⟨⟨(year : Int), month, day⟩, (readClock tail).1.1, (readClock tail).1.2⟩ ∧
      rest = (readClock tail).2 := by
  unfold readDateLiteral?
  simp only [Option.bind_eq_bind, Option.bind_eq_some_iff, Prod.exists, readMark?_eq_some,
    Option.pure_def, Option.some.injEq, Prod.mk.injEq]
  constructor
  · rintro ⟨year, _, hyear, months, rfl, month, _, hmonth, days, rfl, day, tail, hday, rfl, rfl⟩
    exact ⟨year, months, month, days, day, tail, hyear, hmonth, hday, rfl, rfl⟩
  · rintro ⟨year, months, month, days, day, tail, hyear, hmonth, hday, rfl, rfl⟩
    exact ⟨year, _, hyear, months, rfl, month, _, hmonth, days, rfl, day, tail, hday, rfl, rfl⟩

/-- A literal with a clock is an instant, the one that its numbers denote. -/
theorem token?_clock {date : Date} {hour minute second : Nat} {fraction : List Char}
    {offset : Int} {m : Moment} {precision : Precision}
    (h : DateLiteral.token? ⟨date, some (hour, minute, second, fraction), offset⟩
      = some (.time m precision)) :
    precision = .instant ∧ ((Moment.clock? hour minute second (Moment.fractionNanos fraction)).bind
      fun clock => Moment.ofParts? date clock offset) = some m := by
  obtain ⟨clock, hclock, h⟩ := Option.bind_eq_some_iff.mp h
  obtain ⟨_, hm, h⟩ := Option.bind_eq_some_iff.mp h
  cases h
  exact ⟨rfl, Option.bind_eq_some_iff.mpr ⟨clock, hclock, hm⟩⟩

/-! ### Literals that documents read as instants -/

/-- Behind the day of a literal that leaves only blanks, a clock begins with its letter. -/
theorem readDateEnd?_letter {tail hours : List Char} {hour : Nat}
    (hend : Moment.readDateEnd? tail = some hours)
    (hhour : readDigits? 2 2 hours = some (hour, after)) (hrest : Blank (readClock tail).2) :
    tail = 'T' :: hours := by
  cases tail with
  | nil => cases hend
  | cons c more =>
      simp only [Moment.readDateEnd?] at hend
      split at hend
      · cases hend
        rcases readClock_cases (c :: hours) with hnone | ⟨others, _, _, _, _, heq, -⟩
        · rw [hnone] at hrest
          obtain ⟨d, digits, rfl, hd⟩ := Text.readDigits?_cons hhour
          have hblank := hrest d (by simp)
          rw [Text.isBlank_of_isDigit hd] at hblank
          cases hblank
        · rw [(List.cons.inj heq).1]
      · cases hend

/-- What an instant in the notation of RFC 3339 consists of behind its date. -/
theorem ofRfc3339?_eq_some {instant : Moment} {year month day : Nat}
    {months days tail : List Char} (hyear : readDigits? 4 4 text = some (year, '-' :: months))
    (hmonth : readDigits? 2 2 months = some (month, '-' :: days))
    (hday : readDigits? 2 2 days = some (day, tail)) :
    Moment.ofRfc3339? text = some instant ↔
      ∃ hours hour minutes minute seconds second behind nanos zone offset,
        Moment.readDateEnd? tail = some hours ∧
        readDigits? 2 2 hours = some (hour, ':' :: minutes) ∧
        readDigits? 2 2 minutes = some (minute, ':' :: seconds) ∧
        readDigits? 2 2 seconds = some (second, behind) ∧
        Moment.readFraction? behind = some (nanos, zone) ∧
        Moment.readOffset? zone = some (offset, []) ∧
        ((Moment.clock? hour minute second nanos).bind fun clock =>
          Moment.ofParts? ⟨year, month, day⟩ clock offset) = some instant := by
  unfold Moment.ofRfc3339?
  constructor
  · intro h
    obtain ⟨_, hyear', h⟩ := Option.bind_eq_some_iff.mp h
    cases hyear.symm.trans hyear'
    obtain ⟨_, hdash, h⟩ := Option.bind_eq_some_iff.mp h
    cases readMark?_eq_some.mp hdash
    obtain ⟨_, hmonth', h⟩ := Option.bind_eq_some_iff.mp h
    cases hmonth.symm.trans hmonth'
    obtain ⟨_, hdash, h⟩ := Option.bind_eq_some_iff.mp h
    cases readMark?_eq_some.mp hdash
    obtain ⟨_, hday', h⟩ := Option.bind_eq_some_iff.mp h
    cases hday.symm.trans hday'
    obtain ⟨hours, hend, h⟩ := Option.bind_eq_some_iff.mp h
    obtain ⟨⟨hour, afterHour⟩, hhour, h⟩ := Option.bind_eq_some_iff.mp h
    obtain ⟨minutes, hafterHour, h⟩ := Option.bind_eq_some_iff.mp h
    obtain ⟨⟨minute, afterMinute⟩, hminute, h⟩ := Option.bind_eq_some_iff.mp h
    obtain ⟨seconds, hafterMinute, h⟩ := Option.bind_eq_some_iff.mp h
    obtain ⟨⟨second, behind⟩, hsecond, h⟩ := Option.bind_eq_some_iff.mp h
    obtain ⟨⟨nanos, zone⟩, hnanos, h⟩ := Option.bind_eq_some_iff.mp h
    obtain ⟨⟨offset, left⟩, hoffset, h⟩ := Option.bind_eq_some_iff.mp h
    rw [readMark?_eq_some.mp hafterHour] at hhour
    rw [readMark?_eq_some.mp hafterMinute] at hminute
    cases left with
    | nil =>
        exact ⟨hours, hour, minutes, minute, seconds, second, behind, nanos, zone, offset, hend,
          hhour, hminute, hsecond, hnanos, hoffset, h⟩
    | cons c more => cases h
  · rintro ⟨hours, hour, minutes, minute, seconds, second, behind, nanos, zone, offset, hend,
      hhour, hminute, hsecond, hnanos, hoffset, h⟩
    refine Option.bind_eq_some_iff.mpr ⟨(year, _), hyear, ?_⟩
    refine Option.bind_eq_some_iff.mpr ⟨months, Text.readMark?_self _ _, ?_⟩
    refine Option.bind_eq_some_iff.mpr ⟨(month, _), hmonth, ?_⟩
    refine Option.bind_eq_some_iff.mpr ⟨days, Text.readMark?_self _ _, ?_⟩
    refine Option.bind_eq_some_iff.mpr ⟨(day, tail), hday, ?_⟩
    refine Option.bind_eq_some_iff.mpr ⟨hours, hend, ?_⟩
    refine Option.bind_eq_some_iff.mpr ⟨(hour, _), hhour, ?_⟩
    refine Option.bind_eq_some_iff.mpr ⟨minutes, Text.readMark?_self _ _, ?_⟩
    refine Option.bind_eq_some_iff.mpr ⟨(minute, _), hminute, ?_⟩
    refine Option.bind_eq_some_iff.mpr ⟨seconds, Text.readMark?_self _ _, ?_⟩
    refine Option.bind_eq_some_iff.mpr ⟨(second, behind), hsecond, ?_⟩
    refine Option.bind_eq_some_iff.mpr ⟨(nanos, zone), hnanos, ?_⟩
    exact Option.bind_eq_some_iff.mpr ⟨(offset, []), hoffset, h⟩

/-- An instant in the notation of RFC 3339 is the instant of the literal that it is. -/
theorem eq_of_ofRfc3339? {m instant : Moment} {precision : Precision}
    (hread : readDate? text = some (.time m precision, rest)) (hrest : Blank rest)
    (hinstant : Moment.ofRfc3339? text = some instant) :
    precision = .instant ∧ m = instant := by
  obtain ⟨literal, hliteral, -, htoken⟩ := readDate?_eq_some.mp hread
  obtain ⟨year, months, month, days, day, tail, hyear, hmonth, hday, rfl, rfl⟩ :=
    readDateLiteral?_eq_some.mp hliteral
  obtain ⟨hours, hour, minutes, minute, seconds, second, behind, nanos, zone, offset, hend, hhour,
    hminute, hsecond, hnanos, hoffset, hinstant⟩ :=
    (ofRfc3339?_eq_some hyear hmonth hday).mp hinstant
  obtain rfl := readDateEnd?_letter hend hhour hrest
  obtain ⟨hfraction, hzone⟩ := readFraction_of hnanos
  rw [readClock_minute hhour hminute, readSeconds_second hsecond, hzone] at htoken hrest
  rcases readOffset_of hoffset with hread | ⟨c, more, rfl, hc, hnone⟩
  · rw [hread] at htoken
    obtain ⟨hprecision, hm⟩ := token?_clock htoken
    rw [hfraction, hinstant] at hm
    exact ⟨hprecision, (Option.some.inj hm).symm⟩
  · rw [hnone] at hrest
    exact absurd rfl (hrest.ne_cons hc)

/-- A date and time without offset is the instant of the literal that it is. -/
theorem eq_of_ofLocalText? {m instant : Moment} {precision : Precision}
    (hread : readDate? text = some (.time m precision, rest)) (hrest : Blank rest)
    (hinstant : Moment.ofLocalText? text = some instant) :
    precision = .instant ∧ m = instant := by
  obtain ⟨literal, hliteral, -, htoken⟩ := readDate?_eq_some.mp hread
  obtain ⟨year, months, month, days, day, tail, hyear, hmonth, hday, rfl, rfl⟩ :=
    readDateLiteral?_eq_some.mp hliteral
  unfold Moment.ofLocalText? at hinstant
  simp only [Option.bind_eq_bind, Moment.readYear?_of_readDigits? hyear,
    Moment.readShort?_of_readDigits? hmonth, Moment.readShort?_of_readDigits? hday,
    Option.bind_some, Text.readMark?_self, Option.bind_eq_some_iff, Prod.exists,
    readMark?_eq_some] at hinstant
  obtain ⟨hours, rfl, hour, _, hhour, minutes, rfl, minute, _, hminute, seconds, rfl, second,
    behind, hsecond, nanos, left, hnanos, hinstant⟩ := hinstant
  by_cases hleft : left.isEmpty = true
  · rw [if_pos hleft] at hinstant
    obtain ⟨hfraction, hend⟩ := readFraction_of hnanos
    -- If the literal stopped before the seconds, the letter or a colon would be left.
    rcases readClock_cases ('T' :: hours) with hnone | ⟨_, hour', _, minute', after, heq, hhour',
      hminute'⟩
    · rw [hnone] at hrest
      exact absurd rfl (hrest.ne_cons (by decide))
    · cases heq
      cases hhour.symm.trans (Moment.readShort?_of_readDigits? hhour')
      cases hminute.symm.trans (Moment.readShort?_of_readDigits? hminute')
      rw [readClock_minute hhour' hminute'] at htoken hrest
      cases hsecond' : readDigits? 2 2 seconds with
      | none =>
          rw [readSeconds_none hsecond'] at hrest
          exact absurd rfl (hrest.ne_cons (c := ':') (by decide))
      | some found =>
          cases hsecond.symm.trans (Moment.readShort?_of_readDigits? hsecond')
          rw [readSeconds_second hsecond', hend, List.isEmpty_iff.mp hleft] at htoken
          obtain ⟨hprecision, hm⟩ := token?_clock htoken
          rw [hfraction] at hm
          exact ⟨hprecision, Option.some.inj (hm.symm.trans hinstant)⟩
  · rw [if_neg hleft] at hinstant
    cases hinstant

/-- **What queries and documents both read as an instant is the same instant.** -/
theorem eq_of_ofDocumentText? {s : String} {blanks : List Char} (hs : s.toList = blanks ++ text)
    (hblanks : Blank blanks) {m instant : Moment} {precision : Precision}
    (hread : readDate? text = some (.time m precision, rest)) (hrest : Blank rest)
    (hinstant : Moment.ofDocumentText? s = some instant) :
    precision = .instant ∧ m.utc = instant := by
  unfold Moment.ofDocumentText? at hinstant
  simp only [hs] at hinstant
  split at hinstant
  · split at hinstant
    · rename_i other hother
      obtain rfl := Moment.eq_nil_of_ofRfc3339? hblanks hother
      obtain ⟨hprecision, rfl⟩ := eq_of_ofRfc3339? hread hrest hother
      exact ⟨hprecision, Option.some.inj hinstant⟩
    · rw [Moment.ofLocalText?_append hblanks] at hinstant
      obtain ⟨hprecision, rfl⟩ := eq_of_ofLocalText? hread hrest hinstant
      exact ⟨hprecision, Moment.utc_of_ofLocalText? hinstant⟩
  · cases hinstant

/-! ### Texts that are one literal -/

theorem readDigits?_suffix {least most n : Nat}
    (h : readDigits? least most text = some (n, rest)) : rest <:+ text := by
  unfold readDigits? at h
  simp only at h
  split at h
  · cases h
  · cases h
    exact List.drop_suffix _ _

theorem readFraction_suffix (text : List Char) : (readFraction text).2 <:+ text := by
  unfold readFraction
  split
  · simp only
    split
    · exact List.suffix_rfl
    · exact (List.dropWhile_suffix _).trans (List.suffix_cons _ _)
  · exact List.suffix_rfl

theorem readSeconds_suffix (text : List Char) : (readSeconds text).2 <:+ text := by
  cases hcolon : readMark? ':' text with
  | none => simp [readSeconds, hcolon]
  | some more =>
      obtain rfl := readMark?_eq_some.mp hcolon
      cases hsecond : readDigits? 2 2 more with
      | none => simp [readSeconds_none hsecond]
      | some found =>
          rw [readSeconds_second hsecond]
          exact (readFraction_suffix _).trans
            ((readDigits?_suffix hsecond).trans (List.suffix_cons _ _))

theorem readOffset_suffix (text : List Char) : (readOffset text).2 <:+ text := by
  cases text with
  | nil => exact List.suffix_rfl
  | cons c more =>
      unfold readOffset
      simp only
      split
      · exact List.suffix_cons _ _
      · split
        · cases hhours : readDigits? 2 2 more with
          | none => simp
          | some found =>
              obtain ⟨hours, afterHours⟩ := found
              cases hcolon : readMark? ':' afterHours with
              | none => simp [hcolon]
              | some minutes =>
                  cases hminutes : readDigits? 2 2 minutes with
                  | none => simp [hcolon, hminutes]
                  | some last =>
                      simp only [Option.bind_eq_bind, Option.bind_some, hcolon, hminutes,
                        Option.pure_def, Option.getD_some]
                      obtain rfl := readMark?_eq_some.mp hcolon
                      exact (readDigits?_suffix hminutes).trans ((List.suffix_cons _ _).trans
                        ((readDigits?_suffix hhours).trans (List.suffix_cons _ _)))
        · exact List.suffix_rfl

theorem readClock_suffix (text : List Char) : (readClock text).2 <:+ text := by
  rcases readClock_cases text with hnone | ⟨hours, hour, minutes, minute, after, rfl, hhour,
    hminute⟩
  · simp [hnone]
  · rw [readClock_minute hhour hminute]
    refine (readOffset_suffix _).trans ((readSeconds_suffix _).trans ?_)
    exact (readDigits?_suffix hminute).trans ((List.suffix_cons _ _).trans
      ((readDigits?_suffix hhour).trans (List.suffix_cons _ _)))

/-- A literal takes some of the text from its front. -/
theorem readDate?_suffix {c : Char} {token : Token}
    (h : readDate? (c :: text) = some (token, rest)) : rest <:+ text := by
  obtain ⟨literal, hliteral, -, -⟩ := readDate?_eq_some.mp h
  obtain ⟨year, months, month, days, day, tail, hyear, hmonth, hday, -, rfl⟩ :=
    readDateLiteral?_eq_some.mp hliteral
  have hmonths : months <:+ text := by
    rcases List.suffix_cons_iff.mp (readDigits?_suffix hyear) with heq | hsuffix
    · simp [(List.cons.inj heq).2]
    · exact (List.suffix_cons _ _).trans hsuffix
  have hdays := (List.suffix_cons '-' days).trans (readDigits?_suffix hmonth)
  exact (readClock_suffix tail).trans ((readDigits?_suffix hday).trans (hdays.trans hmonths))

theorem readRelative?_ne_time {m : Moment} {precision : Precision} :
    readRelative? text ≠ some (.time m precision, rest) := by
  intro h
  obtain ⟨⟨literal, after⟩, -, h⟩ := Option.bind_eq_some_iff.mp h
  obtain ⟨shift, -, h⟩ := Option.bind_eq_some_iff.mp h
  cases h

theorem readNumber?_ne_time {m : Moment} {precision : Precision} :
    readNumber? text ≠ some (.time m precision, rest) := by
  unfold readNumber?
  split
  dsimp only
  split_ifs <;> simp

theorem readOperator?_ne_time {m : Moment} {precision : Precision} :
    readOperator? text ≠ some (.time m precision, rest) := by
  unfold readOperator?
  split <;> simp

theorem readPunctuation?_ne_time {m : Moment} {precision : Precision} :
    readPunctuation? text ≠ some (.time m precision, rest) := by
  unfold readPunctuation?
  split <;> simp

theorem readWord?_ne_time {m : Moment} {precision : Precision} :
    readWord? text ≠ some (.time m precision, rest) := by
  have hword : ∀ word, keywordOrWord word ≠ .time m precision := by
    intro word
    unfold keywordOrWord
    simp only
    split_ifs <;> simp
  unfold readWord?
  simp only
  split
  · simp
  · simp [hword]

/-- Only the reader of dates gives a time. -/
theorem readToken_time {c : Char} {m : Moment} {precision : Precision}
    (h : readToken c text = .ok (.time m precision, rest)) :
    readDate? (c :: text) = some (.time m precision, rest) := by
  unfold readToken at h
  split at h
  · split at h <;> cases h
  · simp only at h
    split at h
    · rename_i found hfound
      cases h
      simpa only [Option.orElse_eq_orElse, Option.orElse_eq_or, Option.or_eq_some_iff,
        readRelative?_ne_time,
        readNumber?_ne_time, readOperator?_ne_time, readPunctuation?_ne_time, readWord?_ne_time,
        and_false, or_false] using hfound
    · cases h

/-- Nothing but blanks has no tokens. -/
theorem blank_of_scan_eq_nil {position pending : Nat} :
    scan position pending text = .ok [] → Blank (text.drop pending) := by
  induction text generalizing position pending with
  | nil => simp [Blank]
  | cons c more ih =>
      intro h
      cases pending with
      | succ pending => exact ih h
      | zero =>
          rw [scan] at h
          split at h
          · rename_i hc
            have hmore : Blank more := ih h
            exact List.forall_mem_cons.mpr ⟨hc, hmore⟩
          · split at h
            · cases h
            · obtain ⟨tokens, -, h⟩ := bind_eq_ok.mp h
              cases h

/-- A text that is one time is a literal with blanks around it. -/
theorem scan_eq_time {position place : Nat} {m : Moment} {precision : Precision} :
    scan position 0 text = .ok [⟨.time m precision, place⟩] → ∃ blanks literal rest,
      text = blanks ++ literal ∧ Blank blanks ∧
        readDate? literal = some (.time m precision, rest) ∧ Blank rest := by
  induction text generalizing position with
  | nil => intro h; cases h
  | cons c more ih =>
      intro h
      rw [scan] at h
      split at h
      · rename_i hc
        obtain ⟨blanks, literal, rest, rfl, hblanks, hread, hrest⟩ := ih h
        exact ⟨c :: blanks, literal, rest, rfl, List.forall_mem_cons.mpr ⟨hc, hblanks⟩, hread,
          hrest⟩
      · split at h
        · cases h
        · rename_i token after htoken
          obtain ⟨tokens, htokens, h⟩ := bind_eq_ok.mp h
          cases h
          have hread := readToken_time htoken
          have hafter : more.drop (more.length - after.length) = after :=
            (List.suffix_iff_eq_drop.mp (readDate?_suffix hread)).symm
          refine ⟨[], c :: more, after, rfl, by simp [Blank], hread, ?_⟩
          rw [← hafter]
          exact blank_of_scan_eq_nil htokens

/-- **A text that is one time, and an instant to documents, is the same instant to both.** -/
theorem eq_of_tokenize {s : String} {m instant : Moment} {precision : Precision} {place : Nat}
    (htokens : tokenize s = .ok [⟨.time m precision, place⟩])
    (hinstant : Moment.ofDocumentText? s = some instant) :
    precision = .instant ∧ m.utc = instant := by
  obtain ⟨blanks, literal, rest, hs, hblanks, hread, hrest⟩ := scan_eq_time htokens
  exact eq_of_ofDocumentText? hs hblanks hread hrest hinstant

/-! ### Literals that are written out -/

/--
Whether a literal is written out as documents expect it: it begins with a digit, has seconds
behind its minutes, and ends with them, with their fraction or with an offset of a document.
-/
def isWrittenOut (text : List Char) : Bool :=
  match text.drop 16 with
  | ':' :: seconds =>
    let zone := (readFraction (seconds.drop 2)).2
    text.head?.any Char.isDigit &&
      (zone.isEmpty || (Moment.readOffset? zone).any fun found => found.2.isEmpty)
  | _ => false

theorem readDigits?_drop {most n : Nat} (h : readDigits? most most text = some (n, rest)) :
    rest = text.drop most := by
  unfold readDigits? at h
  simp only at h
  split at h
  · cases h
  · rename_i hlength
    have hle := (List.takeWhile_sublist Char.isDigit (l := text.take most)).length_le
    rw [List.length_take] at hle
    cases h
    congr 1
    omega

theorem readDigits?_drop_mark {most n : Nat} {mark : Char} {more : List Char}
    (h : readDigits? most most text = some (n, mark :: more)) : more = text.drop (most + 1) := by
  rw [← List.drop_drop, ← readDigits?_drop h]
  rfl

/-- What stands behind a fraction tells whether a document can read it. -/
theorem readFraction?_of_zone {zone : List Char} (hzone : (readFraction text).2 = zone)
    (hend : zone.isEmpty = true ∨ ∃ offset, Moment.readOffset? zone = some (offset, [])) :
    ∃ nanos, Moment.readFraction? text = some (nanos, zone) := by
  unfold Moment.readFraction?
  split
  · rename_i digits
    have hread : (readFraction ('.' :: digits)).2 = if (digits.takeWhile Char.isDigit).isEmpty then
        '.' :: digits else digits.dropWhile Char.isDigit := by
      rw [readFraction]
      exact apply_ite Prod.snd _ _ _
    rw [hread] at hzone
    by_cases hempty : (digits.takeWhile Char.isDigit).isEmpty = true
    · rw [if_pos hempty] at hzone
      subst hzone
      rcases hend with hnil | ⟨offset, hoffset⟩
      · cases hnil
      · cases hoffset
    · rw [if_neg hempty] at hzone
      exact ⟨_, by rw [if_neg hempty, hzone]⟩
  · rename_i hpoint
    have hread : readFraction text = ([], text) := by
      unfold readFraction
      split
      · exact absurd rfl (hpoint _)
      · rfl
    rw [hread] at hzone
    exact ⟨0, by rw [← hzone]⟩

/-- A text with the letter of a clock is an instant if one of the two notations reads it. -/
theorem isSome_ofDocumentText? {s : String} (hletter : s.toList.contains 'T' = true)
    (hread : (∃ instant, Moment.ofRfc3339? s.toList = some instant) ∨
      ∃ instant, Moment.ofLocalText? s.toList = some instant) :
    (Moment.ofDocumentText? s).isSome = true := by
  unfold Moment.ofDocumentText?
  simp only [hletter, if_true]
  split
  · rfl
  · rename_i hnone
    rcases hread with ⟨instant, hinstant⟩ | ⟨instant, hinstant⟩
    · rw [hnone] at hinstant
      cases hinstant
    · rw [hinstant]
      rfl

section Clock

variable {year month day hour minute second : Nat}
  {months days hours minutes seconds behind : List Char}

/-- A date and time to the second without offset is read as it is written. -/
theorem ofLocalText?_of_clock {nanos : Nat} {clock : Clock} {m : Moment}
    (hyear : readDigits? 4 4 text = some (year, '-' :: months))
    (hmonth : readDigits? 2 2 months = some (month, '-' :: days))
    (hday : readDigits? 2 2 days = some (day, 'T' :: hours))
    (hhour : readDigits? 2 2 hours = some (hour, ':' :: minutes))
    (hminute : readDigits? 2 2 minutes = some (minute, ':' :: seconds))
    (hsecond : readDigits? 2 2 seconds = some (second, behind))
    (hnanos : Moment.readFraction? behind = some (nanos, []))
    (hclock : Moment.clock? hour minute second nanos = some clock)
    (hparts : Moment.ofParts? ⟨year, month, day⟩ clock 0 = some m) :
    Moment.ofLocalText? text = some m := by
  simp only [Moment.ofLocalText?, Option.bind_eq_bind, Moment.readYear?_of_readDigits? hyear,
    Moment.readShort?_of_readDigits? hmonth, Moment.readShort?_of_readDigits? hday,
    Moment.readShort?_of_readDigits? hhour, Moment.readShort?_of_readDigits? hminute,
    Moment.readShort?_of_readDigits? hsecond, Text.readMark?_self, Option.bind_some, hnanos,
    List.isEmpty_nil, if_true, hclock]
  exact hparts

/-- A literal that has a clock to the second, and behind it only what documents read. -/
theorem isSome_of_zone {s : String} {m : Moment} {precision : Precision}
    (hyear : readDigits? 4 4 s.toList = some (year, '-' :: months))
    (hmonth : readDigits? 2 2 months = some (month, '-' :: days))
    (hday : readDigits? 2 2 days = some (day, 'T' :: hours))
    (hhour : readDigits? 2 2 hours = some (hour, ':' :: minutes))
    (hminute : readDigits? 2 2 minutes = some (minute, ':' :: seconds))
    (hsecond : readDigits? 2 2 seconds = some (second, behind))
    (hend : (readFraction behind).2.isEmpty = true ∨
      ∃ offset, Moment.readOffset? (readFraction behind).2 = some (offset, []))
    (hrest : Blank (readOffset (readFraction behind).2).2)
    (htoken : DateLiteral.token? ⟨⟨(year : Int), month, day⟩,
      some (hour, minute, second, (readFraction behind).1), (readOffset (readFraction behind).2).1⟩
        = some (.time m precision)) : (Moment.ofDocumentText? s).isSome = true := by
  have hletter : 'T' ∈ s.toList := by
    have hin := ((List.suffix_cons _ _).trans (readDigits?_suffix hmonth)).trans
      ((List.suffix_cons _ _).trans (readDigits?_suffix hyear))
    exact ((readDigits?_suffix hday).trans hin).subset List.mem_cons_self
  obtain ⟨nanos, hnanos⟩ := readFraction?_of_zone rfl hend
  obtain ⟨-, hm⟩ := token?_clock htoken
  rw [(readFraction_of hnanos).1] at hm
  obtain ⟨clock, hclock, hparts⟩ := Option.bind_eq_some_iff.mp hm
  refine isSome_ofDocumentText? (List.contains_iff_mem.mpr hletter) ?_
  rcases hend with hnil | ⟨offset, hoffset⟩
  · rw [List.isEmpty_iff.mp hnil] at hnanos hparts
    exact .inr ⟨m, ofLocalText?_of_clock hyear hmonth hday hhour hminute hsecond hnanos hclock
      hparts⟩
  · have hsame : readOffset (readFraction behind).2 = (offset, []) := by
      rcases readOffset_of hoffset with hsame | ⟨c, more, heq, hc, hnone⟩
      · exact hsame
      · rw [hnone] at hrest
        exact absurd heq (hrest.ne_cons hc)
    rw [hsame] at hparts
    have hdateEnd : Moment.readDateEnd? ('T' :: hours) = some hours := rfl
    have hinstant : ((Moment.clock? hour minute second nanos).bind fun clock =>
        Moment.ofParts? ⟨year, month, day⟩ clock offset) = some m :=
      Option.bind_eq_some_iff.mpr ⟨clock, hclock, hparts⟩
    exact .inl ⟨m, (ofRfc3339?_eq_some hyear hmonth hday).mpr ⟨_, _, _, _, _, _, _, _, _, _,
      hdateEnd, hhour, hminute, hsecond, hnanos, hoffset, hinstant⟩⟩

end Clock

/-- **A literal that is written out is an instant to documents.** -/
theorem isSome_of_isWrittenOut {s : String} {m : Moment} {precision : Precision} {place : Nat}
    (htokens : tokenize s = .ok [⟨.time m precision, place⟩])
    (h : isWrittenOut s.toList = true) : (Moment.ofDocumentText? s).isSome = true := by
  obtain ⟨blanks, literal, rest, hs, hblanks, hread, hrest⟩ := scan_eq_time htokens
  unfold isWrittenOut at h
  split at h
  · rename_i seconds hseconds
    simp only [Bool.and_eq_true, Bool.or_eq_true] at h
    obtain ⟨hdigit, hend⟩ := h
    rw [hs] at hdigit
    obtain rfl := hblanks.eq_nil_of_digit hdigit
    rw [List.nil_append] at hs
    subst hs
    obtain ⟨_, hliteral, -, htoken⟩ := readDate?_eq_some.mp hread
    obtain ⟨year, months, month, days, day, tail, hyear, hmonth, hday, rfl, rfl⟩ :=
      readDateLiteral?_eq_some.mp hliteral
    -- The minutes end sixteen characters into the literal, the date after ten.
    have htail : tail.drop 6 = ':' :: seconds := by
      rw [← hseconds, readDigits?_drop hday, readDigits?_drop_mark hmonth,
        readDigits?_drop_mark hyear]
      simp only [List.drop_drop]
    rcases readClock_cases tail with hnone | ⟨hours, hour, minutes, minute, after, rfl, hhour,
      hminute⟩
    · rw [hnone] at hrest
      have hcolon : ':' ∈ tail := List.mem_of_mem_drop (htail ▸ List.mem_cons_self)
      exact absurd (hrest ':' hcolon) (by decide)
    · obtain rfl : after = ':' :: seconds := by
        rw [← htail, readDigits?_drop hminute, readDigits?_drop_mark hhour, List.drop_drop,
          List.drop_succ_cons]
      rw [readClock_minute hhour hminute] at htoken hrest
      cases hsecond : readDigits? 2 2 seconds with
      | none =>
          rw [readSeconds_none hsecond] at hrest
          exact absurd rfl (hrest.ne_cons (c := ':') (by decide))
      | some found =>
          rw [readSeconds_second hsecond] at htoken hrest
          refine isSome_of_zone hyear hmonth hday hhour hminute hsecond ?_ hrest htoken
          rw [readDigits?_drop hsecond]
          refine hend.imp_right fun hoffset => ?_
          cases hfound : Moment.readOffset? (readFraction (seconds.drop 2)).2 with
          | none =>
              rw [hfound] at hoffset
              cases hoffset
          | some found =>
              rw [hfound, Option.any_some] at hoffset
              exact ⟨found.1, by rw [← List.isEmpty_iff.mp hoffset]⟩
  · cases h

end Query.Lexer

end DocIndex
