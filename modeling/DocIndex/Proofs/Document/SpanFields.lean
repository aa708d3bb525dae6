/-
The fields of a time span.

The span of a documented text is a whole number of ticks, so cutting it into seconds and the rest
loses nothing.  Each unit above the seconds is rounded toward zero from the same span, which gives
the written numbers back with the sign of the span, because no written unit reaches the next one.
-/
import DocIndex.Document.Strategy
import DocIndex.Proofs.Time.SpanNotation

namespace DocIndex

namespace SpanNotation

variable {n : SpanNotation}

/-! ### Numbers with the sign of a span -/

theorem withSign_mul (n : SpanNotation) (m k : Nat) : n.withSign m * k = n.withSign (m * k) := by
  unfold withSign
  split
  · rw [Int.neg_mul, Int.natCast_mul]
  · rw [Int.natCast_mul]

theorem withSign_tdiv (n : SpanNotation) (m k : Nat) :
    (n.withSign m).tdiv k = n.withSign (m / k) := by
  unfold withSign
  split
  · rw [Int.neg_tdiv, Int.ofNat_tdiv]
  · rw [Int.ofNat_tdiv]

theorem withSign_tmod (n : SpanNotation) (m k : Nat) :
    (n.withSign m).tmod k = n.withSign (m % k) := by
  unfold withSign
  split
  · rw [Int.neg_tmod, Int.ofNat_tmod]
  · rw [Int.ofNat_tmod]

theorem natAbs_withSign (n : SpanNotation) (m : Nat) : (n.withSign m).natAbs = m := by
  unfold withSign
  split <;> omega

/-! ### The parts of a documented span -/

theorem IsDocumented.fractionTicks_lt (hn : n.IsDocumented) : n.fractionTicks < 10000000 := by
  have hgiven := hn.fraction
  unfold fractionTicks
  cases heq : n.fraction with
  | none => exact Nat.zero_lt_succ _
  | some f =>
      obtain ⟨⟨-, hdigits⟩, hlength⟩ := hgiven f heq
      have hlt := Nat.mul_lt_mul_of_pos_right (numeralValue_lt hdigits)
        (Nat.pow_pos (n := 7 - f.length) (show 0 < 10 by decide))
      rw [← Nat.pow_add, Nat.add_sub_cancel' hlength] at hlt
      exact hlt

/-- The span that a text writes. -/
def toSpan (n : SpanNotation) : Span := ⟨n.ticks * 100⟩

theorem seconds_toSpan (n : SpanNotation) :
    n.toSpan.seconds = n.withSign (n.magnitude / 10000000) := by
  show (n.withSign n.magnitude * (100 : Nat)).tdiv (1000000000 : Nat) = _
  rw [withSign_mul, withSign_tdiv]
  congr 1
  omega

/-- No tick is lost between the seconds and the rest. -/
theorem ticks_toSpan (n : SpanNotation) : n.toSpan.ticks = n.ticks := by
  have hrest : n.toSpan.subsecondNanos.tdiv 100 = n.withSign (n.magnitude % 10000000) := by
    show ((n.withSign n.magnitude * (100 : Nat)).tmod (1000000000 : Nat)).tdiv (100 : Nat) = _
    rw [withSign_mul, withSign_tmod, withSign_tdiv]
    congr 1
    omega
  rw [Span.ticks, hrest, seconds_toSpan]
  unfold ticks withSign
  split <;> omega

/-- Units rounded toward zero are the written numbers with the sign of the span. -/
theorem IsDocumented.units (hn : n.IsDocumented) :
    n.toSpan.seconds.tdiv 86400 = n.withSign n.dayCount ∧
    n.toSpan.seconds.tdiv 3600 = n.withSign (n.dayCount * 24 + numeralValue n.hours) ∧
    n.toSpan.seconds.tdiv 60 = n.withSign
      ((n.dayCount * 24 + numeralValue n.hours) * 60 + numeralValue n.minutes) := by
  have hhours := hn.hours.2
  have hminutes := hn.minutes.2
  have hseconds := hn.seconds.2
  have hfraction := hn.fractionTicks_lt
  have hunit : ∀ k : Nat, n.toSpan.seconds.tdiv k = n.withSign (n.magnitude / 10000000 / k) := by
    intro k
    rw [seconds_toSpan, withSign_tdiv]
  have hday := hunit 86400
  have hhour := hunit 3600
  have hminute := hunit 60
  unfold magnitude at hday hhour hminute
  refine ⟨hday.trans (congrArg _ ?_), hhour.trans (congrArg _ ?_), hminute.trans (congrArg _ ?_)⟩ <;>
    omega

end SpanNotation

namespace Strategy

/-- A documented span is split into the numbers that are written. -/
theorem spanFields_toSpan {n : SpanNotation} (hn : n.IsDocumented) (path raw : String) :
    spanFields path raw n.toSpan =
      [.term path raw, .long (Field.derivedName path "ticks") n.ticks,
        .long (Field.derivedName path "days") (n.withSign n.dayCount),
        .long (Field.derivedName path "hours") (n.withSign (numeralValue n.hours)),
        .long (Field.derivedName path "minutes") (n.withSign (numeralValue n.minutes))] := by
  obtain ⟨hdays, hhours, hminutes⟩ := hn.units
  have hhour : n.withSign (n.dayCount * 24 + numeralValue n.hours) - n.withSign n.dayCount * 24 =
      n.withSign (numeralValue n.hours) := by
    unfold SpanNotation.withSign
    split <;> omega
  have hminute : n.withSign ((n.dayCount * 24 + numeralValue n.hours) * 60 +
        numeralValue n.minutes) - n.withSign (n.dayCount * 24 + numeralValue n.hours) * 60 =
      n.withSign (numeralValue n.minutes) := by
    unfold SpanNotation.withSign
    split <;> omega
  simp only [spanFields, hdays, hhours, hminutes, hhour, hminute, n.ticks_toSpan]

/-- A text that is read as a span is projected onto the fields of the span. -/
theorem project_text_timeSpan {text : List Char} {span : Span} (h : Span.ofText? text = some span)
    (place : Place) : timeSpan.project (.text (String.ofList text)) place =
      .ok ⟨place.path, .timeSpan, "expanded_timespan",
        spanFields place.path (String.ofList text) span⟩ := by
  have hfields : timeSpan.fields? (.text (String.ofList text)) place.path =
      some (.timeSpan, spanFields place.path (String.ofList text) span) := by
    simp [fields?, Json.text?, h]
  rw [project, hfields]
  rfl

end Strategy

end DocIndex
