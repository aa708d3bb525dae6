/-
Time spans in pieces.

The text of a span is cut at its colons and points, and the pieces are integers with signs of
their own that are bounded from above only.  So a text is a span if its pieces write numbers whose
units, and whose sums on the way from the days to the ticks, all lie in the supported range.
-/
import Mathlib.Data.List.TakeDrop
import DocIndex.Proofs.Text.Digits
import DocIndex.Time.Span

namespace DocIndex

namespace Span

/-! ### The range -/

/-- A number of nanoseconds in the supported range. -/
def InRange (nanos : Int) : Prop := -limit ≤ nanos ∧ nanos ≤ limit

theorem check?_eq_some {nanos : Int} {span : Span} :
    check? nanos = some span ↔ InRange nanos ∧ ⟨nanos⟩ = span := by
  simp [check?, InRange]

end Span

/-- The numbers of a time span, with the fraction of a second in units of 100 nanoseconds. -/
structure SpanParts where
  days : Int
  hours : Int
  minutes : Int
  seconds : Int
  ticks : Int

namespace SpanParts

open DocIndex.Span (InRange nanosPerSecond)

variable (p : SpanParts)

/-- The nanoseconds up to the hours. -/
def toHours : Int := p.days * 86400 * nanosPerSecond + p.hours * 3600 * nanosPerSecond

/-- The nanoseconds up to the minutes. -/
def toMinutes : Int := p.toHours + p.minutes * 60 * nanosPerSecond

/-- The nanoseconds up to the seconds. -/
def toSeconds : Int := p.toMinutes + p.seconds * nanosPerSecond

/-- All nanoseconds. -/
def nanos : Int := p.toSeconds + p.ticks * 100

/-- No unit is more than the next one can hold, and every unit and every sum is supported. -/
structure Supported : Prop where
  hours : p.hours ≤ 23
  minutes : p.minutes ≤ 59
  seconds : p.seconds ≤ 59
  units : InRange (p.days * 86400 * nanosPerSecond) ∧ InRange (p.hours * 3600 * nanosPerSecond) ∧
    InRange (p.minutes * 60 * nanosPerSecond) ∧ InRange (p.seconds * nanosPerSecond)
  sums : InRange p.toHours ∧ InRange p.toMinutes ∧ InRange p.toSeconds ∧ InRange p.nanos

/-- Supported numbers are integers of 64 bits. -/
theorem Supported.fitsInt64 {p : SpanParts} (h : p.Supported) :
    fitsInt64 p.days = true ∧ fitsInt64 p.hours = true ∧ fitsInt64 p.minutes = true ∧
      fitsInt64 p.seconds = true := by
  obtain ⟨hdays, hhours, hminutes, hseconds⟩ := h.units
  unfold Span.InRange Span.limit Span.nanosPerSecond int64Max at hdays hhours hminutes hseconds
  simp only [DocIndex.fitsInt64, Bool.and_eq_true]
  refine ⟨?_, ?_, ?_, ?_⟩ <;> rw [decide_eq_true_eq, decide_eq_true_eq] <;>
    unfold int64Min int64Max <;> omega

end SpanParts

/-! ### Pieces of a text -/

/-- The pieces of a text in the form `[-][d.]h:m:s[.f]`. -/
structure SpanNotation where
  negative : Bool
  days : Option (List Char)
  hours : List Char
  minutes : List Char
  seconds : List Char
  fraction : Option (List Char)

namespace SpanNotation

/-- Days stand before a point. -/
def withDays (days : Option (List Char)) (hours : List Char) : List Char :=
  match days with
  | some days => days ++ '.' :: hours
  | none => hours

/-- A fraction stands behind a point. -/
def withFraction (seconds : List Char) (fraction : Option (List Char)) : List Char :=
  match fraction with
  | some fraction => seconds ++ '.' :: fraction
  | none => seconds

/-- The text without the sign of the span. -/
def body (n : SpanNotation) : List Char :=
  withDays n.days n.hours ++ ':' :: (n.minutes ++ ':' :: withFraction n.seconds n.fraction)

/-- The text of the pieces. -/
def write (n : SpanNotation) : List Char := if n.negative then '-' :: n.body else n.body

/-- What the days are read as, which may be left out. -/
def DaysRead (days : Option (List Char)) (n : Int) : Prop :=
  match days with
  | some text => SignedDigits text n
  | none => n = 0

/-- What the fraction is read as, which may be left out or empty: seven places, with zeros at the
end. -/
def FractionReads (fraction : Option (List Char)) (ticks : Int) : Prop :=
  match fraction with
  | some [] | none => ticks = 0
  | some text => text.length ≤ 7 ∧ SignedDigits (Span.padFraction text) ticks

/-- The pieces write the numbers. -/
structure Pieces (n : SpanNotation) (p : SpanParts) : Prop where
  days : DaysRead n.days p.days
  hours : SignedDigits n.hours p.hours
  minutes : SignedDigits n.minutes p.minutes
  seconds : SignedDigits n.seconds p.seconds
  fraction : FractionReads n.fraction p.ticks

/-- The text writes the numbers, where a minus that it begins with is the sign of the span. -/
structure ReadsAs (n : SpanNotation) (p : SpanParts) : Prop where
  sign : n.negative = false → n.body.head? ≠ some '-'
  pieces : n.Pieces p

end SpanNotation

/-! ### Reading the pieces -/

namespace Span

open SpanNotation (withDays withFraction DaysRead FractionReads)

theorem splitAtFirst?_eq_some {mark : Char} {text before after : List Char} :
    splitAtFirst? mark text = some (before, after) ↔
      text = before ++ mark :: after ∧ mark ∉ before := by
  unfold splitAtFirst?
  rw [List.span_eq_takeWhile_dropWhile]
  constructor
  · intro h
    split at h
    · rename_i front c rest heq
      obtain ⟨rfl, rfl⟩ := Prod.mk.inj (Option.some.inj h)
      obtain ⟨hfront, hrest⟩ := Prod.mk.inj heq
      have hall := List.takeWhile_append_dropWhile (p := (· != mark)) (l := text)
      have hhead := List.head?_dropWhile_not (· != mark) text
      rw [hrest, List.head?_cons] at hhead
      rw [hfront, hrest, bne_eq_false_iff_eq.mp hhead] at hall
      refine ⟨hall.symm, fun hmark => ?_⟩
      have hkept := List.all_eq_true.mp (List.all_takeWhile (p := (· != mark)) (l := text)) mark
      rw [hfront] at hkept
      simpa using hkept hmark
    · cases h
  · rintro ⟨rfl, hmark⟩
    have hall : ∀ c ∈ before, (c != mark) = true := by
      intro c hc
      exact bne_iff_ne.mpr fun heq => hmark (heq ▸ hc)
    rw [List.takeWhile_append_of_pos hall, List.dropWhile_append_of_pos hall]
    simp

theorem splitAtFirst?_eq_none {mark : Char} {text : List Char} :
    splitAtFirst? mark text = none ↔ mark ∉ text := by
  constructor
  · intro h hmark
    obtain ⟨before, after, hsplit⟩ := List.eq_append_cons_of_mem hmark
    rw [splitAtFirst?_eq_some.mpr hsplit] at h
    cases h
  · intro hmark
    refine Option.eq_none_iff_forall_not_mem.mpr fun ⟨before, after⟩ h => hmark ?_
    rw [(splitAtFirst?_eq_some.mp h).1]
    simp

/-- A text is cut at its first mark in one way only. -/
theorem eq_of_append_mark {mark : Char} {a b c d : List Char}
    (h : a ++ mark :: b = c ++ mark :: d) (ha : mark ∉ a) (hc : mark ∉ c) : a = c ∧ b = d := by
  have hleft : splitAtFirst? mark (a ++ mark :: b) = some (a, b) :=
    splitAtFirst?_eq_some.mpr ⟨rfl, ha⟩
  have hright : splitAtFirst? mark (a ++ mark :: b) = some (c, d) :=
    splitAtFirst?_eq_some.mpr ⟨h, hc⟩
  exact Prod.mk.inj (Option.some.inj (hleft.symm.trans hright))

/-- A number has no point in it. -/
theorem point_not_mem {text : List Char} {n : Int} (h : SignedDigits text n) : '.' ∉ text :=
  h.not_mem (by decide) (by decide) (by decide)

/-- Days are what stands before a point, if there is one. -/
theorem splitAtFirst?_withDays {d : Option (List Char)} {h : List Char} {days hours : Int}
    (hd : DaysRead d days) (hh : SignedDigits h hours) :
    splitAtFirst? '.' (withDays d h) = d.map (·, h) := by
  cases d with
  | none => exact splitAtFirst?_eq_none.mpr (point_not_mem hh)
  | some d => exact splitAtFirst?_eq_some.mpr ⟨rfl, point_not_mem hd⟩

/-- A fraction is what stands behind a point, if there is one. -/
theorem splitAtFirst?_withFraction {s : List Char} {seconds : Int} (hs : SignedDigits s seconds)
    (f : Option (List Char)) : splitAtFirst? '.' (withFraction s f) = f.map (s, ·) := by
  cases f with
  | none => exact splitAtFirst?_eq_none.mpr (point_not_mem hs)
  | some f => exact splitAtFirst?_eq_some.mpr ⟨rfl, point_not_mem hs⟩

theorem readInt64?_iff {text : List Char} {n : Int} (hn : fitsInt64 n = true) :
    readInt64? text = some n ↔ SignedDigits text n := by
  rw [readInt64?_eq_some, and_iff_left hn]

theorem readHours?_iff {text : List Char} {days hours : Int} (hdays : fitsInt64 days = true)
    (hhours : fitsInt64 hours = true) : readHours? text = some (days, hours) ↔
      ∃ d h, withDays d h = text ∧ DaysRead d days ∧ SignedDigits h hours := by
  constructor
  · intro h
    unfold readHours? at h
    split at h <;> simp only [Option.bind_eq_bind, Option.bind_eq_some_iff, Option.pure_def,
      Option.some.injEq, Prod.mk.injEq] at h
    · rename_i d rest hsplit
      obtain ⟨_, hd, _, hh, rfl, rfl⟩ := h
      exact ⟨some d, rest, (splitAtFirst?_eq_some.mp hsplit).1.symm,
        (readInt64?_iff hdays).mp hd, (readInt64?_iff hhours).mp hh⟩
    · obtain ⟨_, hh, rfl, rfl⟩ := h
      exact ⟨none, text, rfl, rfl, (readInt64?_iff hhours).mp hh⟩
  · rintro ⟨d, h, rfl, hd, hh⟩
    have hread := (readInt64?_iff hhours).mpr hh
    rw [readHours?, splitAtFirst?_withDays hd hh]
    cases d with
    | some d => simp [(readInt64?_iff hdays).mpr hd, hread]
    | none =>
        obtain rfl : days = 0 := hd
        simp [withDays, hread]

theorem length_padFraction {fraction : List Char} (h : fraction.length ≤ 7) :
    (padFraction fraction).length = 7 := by
  rw [padFraction, List.length_append, List.length_replicate]
  omega

/-- Seven places always fit, and their characters are single bytes. -/
theorem readFraction_iff {text : List Char} {ticks : Int} :
    ¬7 < (String.ofList text).utf8ByteSize ∧ readInt64? (padFraction text) = some ticks ↔
      text.length ≤ 7 ∧ SignedDigits (padFraction text) ticks := by
  have hbytes : SignedDigits (padFraction text) ticks →
      (String.ofList text).utf8ByteSize = text.length := fun h =>
    utf8ByteSize_of_single fun c hc => h.utf8Size_of_mem (List.mem_append_left _ hc)
  rw [readInt64?_eq_some]
  constructor
  · rintro ⟨hsize, hread, -⟩
    rw [hbytes hread] at hsize
    exact ⟨Nat.not_lt.mp hsize, hread⟩
  · rintro ⟨hlength, hread⟩
    have hlt := hread.natAbs_lt
    rw [length_padFraction hlength] at hlt
    refine ⟨by rw [hbytes hread]; omega, hread, ?_⟩
    rw [fitsInt64, Bool.and_eq_true, decide_eq_true_eq, decide_eq_true_eq]
    unfold int64Min int64Max
    omega

theorem readSeconds?_iff {text : List Char} {seconds ticks : Int}
    (hseconds : fitsInt64 seconds = true) : readSeconds? text = some (seconds, ticks) ↔
      ∃ s f, withFraction s f = text ∧ SignedDigits s seconds ∧ FractionReads f ticks := by
  constructor
  · intro h
    unfold readSeconds? at h
    split at h
    · rename_i s f hsplit
      obtain ⟨read, hs, hrest⟩ := Option.bind_eq_some_iff.mp h
      cases f with
      | nil =>
          obtain ⟨rfl, rfl⟩ := Prod.mk.inj (Option.some.inj hrest)
          exact ⟨s, some [], (splitAtFirst?_eq_some.mp hsplit).1.symm,
            (readInt64?_iff hseconds).mp hs, rfl⟩
      | cons c f =>
          obtain ⟨hsize, hrest⟩ := Option.ite_none_left_eq_some.mp hrest
          obtain ⟨units, hunits, heq⟩ := Option.bind_eq_some_iff.mp hrest
          obtain ⟨rfl, rfl⟩ := Prod.mk.inj (Option.some.inj heq)
          exact ⟨s, some (c :: f), (splitAtFirst?_eq_some.mp hsplit).1.symm,
            (readInt64?_iff hseconds).mp hs, readFraction_iff.mp ⟨hsize, hunits⟩⟩
    · obtain ⟨read, hs, heq⟩ := Option.bind_eq_some_iff.mp h
      obtain ⟨rfl, rfl⟩ := Prod.mk.inj (Option.some.inj heq)
      exact ⟨text, none, rfl, (readInt64?_iff hseconds).mp hs, rfl⟩
  · rintro ⟨s, f, rfl, hs, hf⟩
    have hread := (readInt64?_iff hseconds).mpr hs
    rw [readSeconds?, splitAtFirst?_withFraction hs]
    rcases f with _ | _ | ⟨c, f⟩
    · obtain rfl : ticks = 0 := hf
      simp [withFraction, hread]
    · obtain rfl : ticks = 0 := hf
      simp [hread]
    · obtain ⟨hsize, hunits⟩ := readFraction_iff.mpr hf
      simp only [Option.map_some, hread, hunits, List.isEmpty_cons, Bool.false_eq_true, if_false,
        if_neg hsize]
      rfl

theorem colon_not_mem_withDays {days : Option (List Char)} {hours : List Char} {d h : Int}
    (hdays : DaysRead days d) (hhours : SignedDigits hours h) : ':' ∉ withDays days hours := by
  have hno : ':' ∉ hours := hhours.not_mem (by decide) (by decide) (by decide)
  cases days with
  | none => exact hno
  | some text =>
      have hdays : ':' ∉ text := SignedDigits.not_mem hdays (by decide) (by decide) (by decide)
      simp [withDays, hdays, hno]

/-- Reads the pieces of a text without the sign of the span. -/
def readPieces? (negative : Bool) (body : List Char) : Option Span := do
  let (first, rest) ← splitAtFirst? ':' body
  let (middle, last) ← splitAtFirst? ':' rest
  let minutes ← readInt64? middle
  let (days, hours) ← readHours? first
  let (seconds, ticks) ← readSeconds? last
  if 23 < hours || 59 < minutes || 59 < seconds then none
  else
    let total ← ofSeconds? (days * 86400)
    let total ← total.add? (← ofSeconds? (hours * 3600))
    let total ← total.add? (← ofSeconds? (minutes * 60))
    let total ← total.add? (← ofSeconds? seconds)
    let total ← total.add? ⟨ticks * 100⟩
    return if negative then total.neg else total

theorem ofText?_minus (rest : List Char) : ofText? ('-' :: rest) = readPieces? true rest := rfl

theorem ofText?_plain {text : List Char} (h : text.head? ≠ some '-') :
    ofText? text = readPieces? false text := by
  unfold ofText?
  split
  rename_i heq
  split at heq
  · exact absurd rfl h
  · obtain ⟨rfl, rfl⟩ := Prod.mk.inj heq
    rfl

/-- The pieces between the marks are integers with signs of their own. -/
theorem readPieces?_eq_some {negative : Bool} {body : List Char} {span : Span} :
    readPieces? negative body = some span ↔ ∃ (n : SpanNotation) (p : SpanParts),
      n.negative = negative ∧ n.body = body ∧ n.Pieces p ∧ p.Supported ∧
        span = if negative then ⟨-p.nanos⟩ else ⟨p.nanos⟩ := by
  unfold readPieces?
  simp only [Option.bind_eq_bind, Option.bind_eq_some_iff, Prod.exists,
    splitAtFirst?_eq_some, ofSeconds?, add?, check?_eq_some, Option.ite_none_left_eq_some,
    Bool.or_eq_true, decide_eq_true_eq, not_or, Int.not_lt, Option.pure_def, Option.some.injEq,
    existsAndEq, true_and, exists_and_left, and_assoc]
  constructor
  · rintro ⟨first, middle, last, rfl, hfirst, hmiddle, minutes, hminutes, days, hours, hhours,
      seconds, ticks, hseconds, h23, h59, h59', h1, h2, h3, h4, h5, h6, h7, h8, hspan⟩
    have hp : SpanParts.Supported ⟨days, hours, minutes, seconds, ticks⟩ :=
      ⟨h23, h59, h59', ⟨h1, h2, h4, h6⟩, ⟨h3, h5, h7, h8⟩⟩
    obtain ⟨f1, f2, f3, f4⟩ := hp.fitsInt64
    obtain ⟨d, h, rfl, hd, hh⟩ := (readHours?_iff f1 f2).mp hhours
    obtain ⟨s, f, rfl, hs, hf⟩ := (readSeconds?_iff f4).mp hseconds
    refine ⟨⟨negative, d, h, middle, s, f⟩, rfl, rfl, _,
      ⟨hd, hh, (readInt64?_iff f3).mp hminutes, hs, hf⟩, hp, ?_⟩
    rw [← hspan]
    rfl
  · rintro ⟨n, rfl, rfl, p, hn, hp, rfl⟩
    obtain ⟨f1, f2, f3, f4⟩ := hp.fitsInt64
    obtain ⟨h1, h2, h4, h6⟩ := hp.units
    obtain ⟨h3, h5, h7, h8⟩ := hp.sums
    exact ⟨_, _, _, rfl, colon_not_mem_withDays hn.days hn.hours,
      hn.minutes.not_mem (by decide) (by decide) (by decide), _, (readInt64?_iff f3).mpr hn.minutes,
      _, _, (readHours?_iff f1 f2).mpr ⟨_, _, rfl, hn.days, hn.hours⟩, _, _,
      (readSeconds?_iff f4).mpr ⟨_, _, rfl, hn.seconds, hn.fraction⟩, hp.hours, hp.minutes,
      hp.seconds, h1, h2, h3, h4, h5, h6, h7, h8, rfl⟩

/-- **What is read as a time span**: the pieces between the marks are integers with signs of their
own, bounded from above, and all that they add up to on the way is supported. -/
theorem ofText?_eq_some {text : List Char} {span : Span} :
    ofText? text = some span ↔ ∃ (n : SpanNotation) (p : SpanParts), n.write = text ∧ n.ReadsAs p ∧
      p.Supported ∧ span = if n.negative then ⟨-p.nanos⟩ else ⟨p.nanos⟩ := by
  by_cases hminus : text.head? = some '-'
  · obtain ⟨rest, rfl⟩ := List.head?_eq_some_iff.mp hminus
    rw [ofText?_minus, readPieces?_eq_some]
    constructor
    · rintro ⟨n, p, hneg, rfl, hn, hp, rfl⟩
      refine ⟨n, p, by rw [SpanNotation.write, if_pos hneg], ⟨?_, hn⟩, hp, by rw [hneg]⟩
      intro hplain
      rw [hneg] at hplain
      cases hplain
    · rintro ⟨n, p, hwrite, hn, hp, rfl⟩
      have hneg : n.negative = true := by
        refine Bool.not_eq_false _ ▸ fun hplain => hn.sign hplain ?_
        rw [SpanNotation.write, hplain] at hwrite
        rw [show n.body = _ from hwrite]
        rfl
      rw [SpanNotation.write, if_pos hneg] at hwrite
      exact ⟨n, p, hneg, (List.cons.inj hwrite).2, hn.pieces, hp, by rw [hneg]⟩
  · rw [ofText?_plain hminus, readPieces?_eq_some]
    constructor
    · rintro ⟨n, p, hneg, rfl, hn, hp, rfl⟩
      refine ⟨n, p, by simp [SpanNotation.write, hneg], ⟨fun _ => hminus, hn⟩, hp, by rw [hneg]⟩
    · rintro ⟨n, p, rfl, hn, hp, rfl⟩
      have hneg : n.negative = false := by
        refine Bool.eq_false_iff.mpr fun hneg => hminus ?_
        rw [SpanNotation.write, if_pos hneg]
        rfl
      refine ⟨n, p, hneg, by simp [SpanNotation.write, hneg], hn.pieces, hp, by rw [hneg]⟩

end Span

end DocIndex
