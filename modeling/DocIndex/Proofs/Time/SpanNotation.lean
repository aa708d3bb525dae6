/-
The documented notation of time spans.

A text is cut into pieces in one way only.  So what is read from `[-][d.]hh:mm:ss[.fffffff]` are
the numbers that it writes, and since these have no signs, no sum on the way is more than the last
one, which alone has to be supported.  What is read beyond this notation has a sign inside or a
point at the end.
-/
import DocIndex.Proofs.Time.SpanPieces

namespace DocIndex

namespace SpanNotation

variable {n m : SpanNotation} {p q : SpanParts}

theorem withDays_inj {d e : Option (List Char)} {h k : List Char} {i j l o : Int}
    (hd : DaysRead d i) (hh : SignedDigits h j) (he : DaysRead e l) (hk : SignedDigits k o)
    (heq : withDays d h = withDays e k) : d = e ∧ h = k := by
  have hsplit : d.map (·, h) = e.map (·, k) := by
    rw [← Span.splitAtFirst?_withDays hd hh, heq, Span.splitAtFirst?_withDays he hk]
  cases d <;> cases e <;> cases hsplit
  case none.none => exact ⟨rfl, heq⟩
  case some.some => exact ⟨rfl, rfl⟩

theorem withFraction_inj {s t : List Char} {f g : Option (List Char)} {i j : Int}
    (hs : SignedDigits s i) (ht : SignedDigits t j) (heq : withFraction s f = withFraction t g) :
    s = t ∧ f = g := by
  have hsplit : f.map (s, ·) = g.map (t, ·) := by
    rw [← Span.splitAtFirst?_withFraction hs, heq, Span.splitAtFirst?_withFraction ht]
  cases f <;> cases g <;> cases hsplit
  case none.none => exact ⟨heq, rfl⟩
  case some.some => exact ⟨rfl, rfl⟩

theorem DaysRead.unique {days : Option (List Char)} {i j : Int} (hi : DaysRead days i)
    (hj : DaysRead days j) : i = j := by
  cases days with
  | none => exact Eq.trans hi (Eq.symm hj)
  | some text => exact SignedDigits.unique hi hj

theorem FractionReads.unique {fraction : Option (List Char)} {i j : Int}
    (hi : FractionReads fraction i) (hj : FractionReads fraction j) : i = j := by
  rcases fraction with _ | _ | _
  · exact Eq.trans hi (Eq.symm hj)
  · exact Eq.trans hi (Eq.symm hj)
  · exact SignedDigits.unique hi.2 hj.2

theorem Pieces.unique (hp : n.Pieces p) (hq : n.Pieces q) : p = q := by
  cases p
  cases q
  simp only [SpanParts.mk.injEq]
  exact ⟨hp.days.unique hq.days, hp.hours.unique hq.hours, hp.minutes.unique hq.minutes,
    hp.seconds.unique hq.seconds, hp.fraction.unique hq.fraction⟩

/-- A text that writes numbers begins with a minus exactly if the span has one. -/
theorem ReadsAs.head?_write (hn : n.ReadsAs p) :
    n.negative = true ↔ n.write.head? = some '-' := by
  unfold write
  cases hneg : n.negative with
  | true => simp
  | false => simpa using hn.sign hneg

/-- A text is read in one way only. -/
theorem ReadsAs.unique (hn : n.ReadsAs p) (hm : m.ReadsAs q) (h : n.write = m.write) :
    n = m ∧ p = q := by
  have hneg : n.negative = m.negative := by
    rw [Bool.eq_iff_iff, hn.head?_write, hm.head?_write, h]
  have hbody : n.body = m.body := by
    unfold write at h
    rw [hneg] at h
    split at h
    · exact (List.cons.inj h).2
    · exact h
  obtain ⟨hfirst, hrest⟩ := Span.eq_of_append_mark hbody
    (Span.colon_not_mem_withDays hn.pieces.days hn.pieces.hours)
    (Span.colon_not_mem_withDays hm.pieces.days hm.pieces.hours)
  obtain ⟨hminutes, hlast⟩ := Span.eq_of_append_mark hrest
    (hn.pieces.minutes.not_mem (by decide) (by decide) (by decide))
    (hm.pieces.minutes.not_mem (by decide) (by decide) (by decide))
  obtain ⟨hdays, hhours⟩ := withDays_inj hn.pieces.days hn.pieces.hours hm.pieces.days
    hm.pieces.hours hfirst
  obtain ⟨hseconds, hfraction⟩ := withFraction_inj hn.pieces.seconds hm.pieces.seconds hlast
  have heq : n = m := by
    cases n
    cases m
    simp only [SpanNotation.mk.injEq]
    exact ⟨hneg, hdays, hhours, hminutes, hseconds, hfraction⟩
  subst heq
  exact ⟨rfl, hn.pieces.unique hm.pieces⟩

/-! ### The documented form -/

/-- The form `[-][d.]hh:mm:ss[.fffffff]`, with digits between the marks. -/
structure IsDocumented (n : SpanNotation) : Prop where
  days : ∀ d ∈ n.days, IsDigits d
  hours : IsDigits n.hours ∧ numeralValue n.hours ≤ 23
  minutes : IsDigits n.minutes ∧ numeralValue n.minutes ≤ 59
  seconds : IsDigits n.seconds ∧ numeralValue n.seconds ≤ 59
  fraction : ∀ f ∈ n.fraction, IsDigits f ∧ f.length ≤ 7

/-- The written number of days. -/
def dayCount (n : SpanNotation) : Nat := (n.days.map numeralValue).getD 0

/-- The written fraction of a second in units of 100 nanoseconds. -/
def fractionTicks (n : SpanNotation) : Nat :=
  match n.fraction with
  | some f => numeralValue f * 10 ^ (7 - f.length)
  | none => 0

/-- What is written behind the sign, in units of 100 nanoseconds. -/
def magnitude (n : SpanNotation) : Nat :=
  (((n.dayCount * 24 + numeralValue n.hours) * 60 + numeralValue n.minutes) * 60 +
    numeralValue n.seconds) * 10000000 + n.fractionTicks

/-- A number with the sign of the span. -/
def withSign (n : SpanNotation) (m : Nat) : Int := if n.negative then -m else m

/-- The span that is written, in units of 100 nanoseconds. -/
def ticks (n : SpanNotation) : Int := n.withSign n.magnitude

/-- The written numbers. -/
def parts (n : SpanNotation) : SpanParts where
  days := n.dayCount
  hours := numeralValue n.hours
  minutes := numeralValue n.minutes
  seconds := numeralValue n.seconds
  ticks := n.fractionTicks

theorem nanos_parts (n : SpanNotation) : n.parts.nanos = n.magnitude * 100 := by
  simp only [SpanParts.nanos, SpanParts.toSeconds, SpanParts.toMinutes, SpanParts.toHours, parts,
    magnitude, Span.nanosPerSecond]
  omega

namespace IsDocumented

theorem daysRead (hn : n.IsDocumented) : DaysRead n.days n.dayCount := by
  have hdays := hn.days
  unfold dayCount
  cases heq : n.days with
  | none => rfl
  | some d => exact .plain (hdays d heq)

theorem fractionReads (hn : n.IsDocumented) : FractionReads n.fraction n.fractionTicks := by
  have hfraction := hn.fraction
  unfold fractionTicks
  rcases heq : n.fraction with _ | _ | ⟨c, f⟩
  · rfl
  · exact absurd rfl (hfraction [] heq).1.1
  · obtain ⟨⟨hne, hdigits⟩, hlength⟩ := hfraction (c :: f) heq
    have hpadded : IsDigits (Span.padFraction (c :: f)) := by
      refine ⟨by simp [Span.padFraction], fun d hd => ?_⟩
      rcases List.mem_append.mp hd with hd | hd
      · exact hdigits d hd
      · rw [List.eq_of_mem_replicate hd]
        decide
    show _ ∧ SignedDigits _ ((numeralValue (c :: f) * 10 ^ (7 - (c :: f).length) : Nat) : Int)
    rw [← numeralValue_append_zeros]
    exact ⟨hlength, .plain hpadded⟩

theorem pieces (hn : n.IsDocumented) : n.Pieces n.parts :=
  ⟨hn.daysRead, .plain hn.hours.1, .plain hn.minutes.1, .plain hn.seconds.1, hn.fractionReads⟩

/-- Nothing but digits and marks stands behind the sign. -/
theorem not_mem_body (hn : n.IsDocumented) {c : Char} (hdigit : c.isDigit = false)
    (hpoint : c ≠ '.') (hcolon : c ≠ ':') : c ∉ n.body := by
  have hno : ∀ {text : List Char}, IsDigits text → c ∉ text := fun h hc => by
    rw [h.2 c hc] at hdigit
    cases hdigit
  have hdays : c ∉ withDays n.days n.hours := by
    have hgiven := hn.days
    cases heq : n.days with
    | none => exact hno hn.hours.1
    | some d => simp [withDays, hno (hgiven d heq), hno hn.hours.1, hpoint]
  have hfraction : c ∉ withFraction n.seconds n.fraction := by
    have hgiven := hn.fraction
    cases heq : n.fraction with
    | none => exact hno hn.seconds.1
    | some f => simp [withFraction, hno (hgiven f heq).1, hno hn.seconds.1, hpoint]
  simp [body, hdays, hfraction, hno hn.minutes.1, hcolon]

theorem readsAs (hn : n.IsDocumented) : n.ReadsAs n.parts where
  sign := fun _ h =>
    hn.not_mem_body (by decide) (by decide) (by decide) (List.mem_of_mem_head? h)
  pieces := hn.pieces

/-- Numbers without signs are supported if their total is. -/
theorem supported_iff (hn : n.IsDocumented) :
    n.parts.Supported ↔ Span.InRange (n.magnitude * 100) := by
  rw [← n.nanos_parts]
  refine ⟨fun h => h.sums.2.2.2, fun h => ?_⟩
  have hrange := h
  rw [n.nanos_parts] at hrange
  simp only [Span.InRange, magnitude] at hrange
  refine ⟨Int.ofNat_le.mpr hn.hours.2, Int.ofNat_le.mpr hn.minutes.2,
    Int.ofNat_le.mpr hn.seconds.2, ?_, ?_, ?_, ?_, h⟩ <;>
    simp only [Span.InRange, SpanParts.toSeconds, SpanParts.toMinutes, SpanParts.toHours, parts,
      Span.nanosPerSecond] <;> omega

/-- A documented text is the span that it writes, as far as it is supported. -/
theorem ofText?_write (hn : n.IsDocumented) :
    Span.ofText? n.write = Span.check? (n.ticks * 100) := by
  have hrange : Span.InRange (n.ticks * 100) ↔ Span.InRange (n.magnitude * 100) := by
    unfold Span.InRange ticks withSign
    split <;> omega
  have hspan : (⟨n.ticks * 100⟩ : Span) =
      if n.negative then ⟨-n.parts.nanos⟩ else ⟨n.parts.nanos⟩ := by
    rw [n.nanos_parts, ticks, withSign]
    split
    · rw [Int.neg_mul]
    · rfl
  ext1 span
  rw [Span.ofText?_eq_some, Span.check?_eq_some, hrange, ← hn.supported_iff, hspan]
  constructor
  · rintro ⟨m, q, hwrite, hm, hq, rfl⟩
    obtain ⟨rfl, rfl⟩ := hm.unique hn.readsAs hwrite
    exact ⟨hq, rfl⟩
  · rintro ⟨hp, rfl⟩
    exact ⟨n, n.parts, rfl, hn.readsAs, hp, rfl⟩

/-- A documented text ends in digits. -/
theorem exists_digits (hn : n.IsDocumented) :
    ∃ front digits, n.write = front ++ digits ∧ IsDigits digits := by
  have hbody : ∃ front digits, n.body = front ++ digits ∧ IsDigits digits := by
    have hgiven := hn.fraction
    unfold body
    cases heq : n.fraction with
    | none =>
        refine ⟨withDays n.days n.hours ++ ':' :: (n.minutes ++ [':']), n.seconds, ?_,
          hn.seconds.1⟩
        simp [withFraction]
    | some f =>
        refine ⟨withDays n.days n.hours ++ ':' :: (n.minutes ++ ':' :: (n.seconds ++ ['.'])), f, ?_,
          (hgiven f heq).1⟩
        simp [withFraction]
  obtain ⟨front, digits, heq, hdigits⟩ := hbody
  unfold write
  split
  · exact ⟨'-' :: front, digits, congrArg _ heq, hdigits⟩
  · exact ⟨front, digits, heq, hdigits⟩

end IsDocumented

theorem FractionReads.isDigits {f : List Char} {i : Int} (h : FractionReads (some f) i)
    (hne : f ≠ []) (hplus : '+' ∉ f) (hminus : '-' ∉ f) : IsDigits f ∧ f.length ≤ 7 := by
  cases f with
  | nil => exact absurd rfl hne
  | cons c f =>
      have hzeros : ∀ {d : Char}, d ≠ '0' → d ∉ c :: f → d ∉ Span.padFraction (c :: f) := by
        intro d hzero hd hmem
        rcases List.mem_append.mp hmem with hmem | hmem
        · exact hd hmem
        · exact hzero (List.eq_of_mem_replicate hmem)
      have hdigits := h.2.isDigits (hzeros (by decide) hplus) (hzeros (by decide) hminus)
      exact ⟨⟨hne, fun d hd => hdigits.1.2 d (List.mem_append_left _ hd)⟩, h.1⟩

/-- Supported numbers without signs are documented ones, unless the fraction is empty. -/
theorem Pieces.isDocumented (hn : n.Pieces p) (hp : p.Supported) (hplus : '+' ∉ n.body)
    (hminus : '-' ∉ n.body) (hempty : n.fraction ≠ some []) : n.IsDocumented := by
  simp only [body, List.mem_append, List.mem_cons, not_or] at hplus hminus
  obtain ⟨hplusFirst, -, hplusMinutes, -, hplusLast⟩ := hplus
  obtain ⟨hminusFirst, -, hminusMinutes, -, hminusLast⟩ := hminus
  have hminutes := hn.minutes.isDigits hplusMinutes hminusMinutes
  have hfirst : (∀ d ∈ n.days, IsDigits d) ∧ IsDigits n.hours ∧ p.hours = numeralValue n.hours := by
    have hdays := hn.days
    unfold withDays at hplusFirst hminusFirst
    cases heq : n.days with
    | none =>
        rw [heq] at hplusFirst hminusFirst
        exact ⟨by simp, hn.hours.isDigits hplusFirst hminusFirst⟩
    | some d =>
        rw [heq] at hplusFirst hminusFirst hdays
        simp only [List.mem_append, List.mem_cons, not_or] at hplusFirst hminusFirst
        refine ⟨?_, hn.hours.isDigits hplusFirst.2.2 hminusFirst.2.2⟩
        rintro _ ⟨⟩
        exact (SignedDigits.isDigits hdays hplusFirst.1 hminusFirst.1).1
  have hlast : (IsDigits n.seconds ∧ p.seconds = numeralValue n.seconds) ∧
      ∀ f ∈ n.fraction, IsDigits f ∧ f.length ≤ 7 := by
    have hfraction := hn.fraction
    unfold withFraction at hplusLast hminusLast
    cases heq : n.fraction with
    | none =>
        rw [heq] at hplusLast hminusLast
        exact ⟨hn.seconds.isDigits hplusLast hminusLast, by simp⟩
    | some f =>
        rw [heq] at hplusLast hminusLast hfraction hempty
        simp only [List.mem_append, List.mem_cons, not_or] at hplusLast hminusLast
        refine ⟨hn.seconds.isDigits hplusLast.1 hminusLast.1, ?_⟩
        rintro _ ⟨⟩
        exact hfraction.isDigits (fun h => hempty (congrArg some h)) hplusLast.2.2 hminusLast.2.2
  have hbounds := hp.minutes
  have hhours := hp.hours
  have hseconds := hp.seconds
  exact ⟨hfirst.1, ⟨hfirst.2.1, by omega⟩, ⟨hminutes.1, by omega⟩, ⟨hlast.1.1, by omega⟩, hlast.2⟩

/-- The form has a sign only in front and digits at the end. -/
theorem IsDocumented.marks (hn : n.IsDocumented) :
    '+' ∉ n.write ∧ '-' ∉ n.write.tail ∧ n.write.getLast? ≠ some '.' := by
  have hplus : '+' ∉ n.body := hn.not_mem_body (by decide) (by decide) (by decide)
  have hminus : '-' ∉ n.body := hn.not_mem_body (by decide) (by decide) (by decide)
  refine ⟨?_, ?_, ?_⟩
  · unfold write
    split
    · simpa using hplus
    · exact hplus
  · unfold write
    split
    · exact hminus
    · exact fun hmem => hminus (List.mem_of_mem_tail hmem)
  · obtain ⟨front, digits, heq, hne, hdigits⟩ := hn.exists_digits
    intro hlast
    rw [heq, List.getLast?_append, List.getLast?_eq_some_getLast hne, Option.some_or] at hlast
    exact absurd (hdigits _ (List.getLast_mem hne)) (Option.some.inj hlast ▸ by decide)

/-- What is read has the documented form if a sign stands only in front and no point at the end. -/
theorem ReadsAs.isDocumented (hn : n.ReadsAs p) (hp : p.Supported) (hplus : '+' ∉ n.write)
    (hminus : '-' ∉ n.write.tail) (hpoint : n.write.getLast? ≠ some '.') : n.IsDocumented := by
  have hplusBody : '+' ∉ n.body := by
    unfold write at hplus
    split at hplus
    · exact fun hmem => hplus (List.mem_cons_of_mem _ hmem)
    · exact hplus
  have hminusBody : '-' ∉ n.body := by
    unfold write at hminus
    split at hminus
    · exact hminus
    · rename_i hneg
      have hhead := hn.sign (Bool.eq_false_iff.mpr hneg)
      cases hbody : n.body with
      | nil => simp
      | cons c rest =>
          rw [hbody] at hminus hhead
          have hrest : '-' ∉ rest := hminus
          simpa [hrest, eq_comm] using hhead
  refine hn.pieces.isDocumented hp hplusBody hminusBody fun hempty => hpoint ?_
  obtain ⟨front, hbody⟩ : ∃ front, n.body = front ++ ['.'] :=
    ⟨withDays n.days n.hours ++ ':' :: (n.minutes ++ ':' :: n.seconds), by
      simp [body, hempty, withFraction]⟩
  unfold write
  rw [hbody]
  split
  · rw [← List.cons_append, List.getLast?_concat]
  · rw [List.getLast?_concat]

end SpanNotation

namespace Span

/-- **Every documented text is read, and signs inside and a point at the end are let through.**
What is read are integers with signs of their own between the marks.  A text in the form
`[-][d.]hh:mm:ss[.fffffff]` is exactly the span that it writes, wherever that is supported; and
what is read has this form if and only if there is no plus in it, no minus but in front, and no
point at the end. -/
theorem ofText?_notation (text : List Char) :
    (∀ span, ofText? text = some span ↔ ∃ (n : SpanNotation) (p : SpanParts), n.write = text ∧
      n.ReadsAs p ∧ p.Supported ∧ span = if n.negative then ⟨-p.nanos⟩ else ⟨p.nanos⟩) ∧
    (∀ n : SpanNotation, n.IsDocumented → n.write = text →
      ofText? text = check? (n.ticks * 100)) ∧
    (∀ span, ofText? text = some span →
      ((∃ n : SpanNotation, n.IsDocumented ∧ n.write = text) ↔
        '+' ∉ text ∧ '-' ∉ text.tail ∧ text.getLast? ≠ some '.')) := by
  refine ⟨fun span => ofText?_eq_some, ?_, ?_⟩
  · rintro n hn rfl
    exact hn.ofText?_write
  · intro span hread
    obtain ⟨n, p, rfl, hn, hp, -⟩ := ofText?_eq_some.mp hread
    constructor
    · rintro ⟨m, hm, hwrite⟩
      exact hwrite ▸ hm.marks
    · rintro ⟨hplus, hminus, hpoint⟩
      exact ⟨n, hn.isDocumented hp hplus hminus hpoint, rfl⟩

/-- A day, two hours, three minutes and four and a half seconds, with a sign in front. -/
def dayAndMore : SpanNotation := ⟨true, some ['1'], ['0', '2'], ['0', '3'], ['0', '4'], some ['5']⟩

theorem dayAndMore_isDocumented : dayAndMore.IsDocumented := by
  refine ⟨?_, by decide, by decide, by decide, ?_⟩
  · rintro _ ⟨⟩
    decide
  · rintro _ ⟨⟩
    decide

/-- In this text there is nothing beyond the documented form. -/
theorem ofText?_dayAndMore :
    ofText? "-1.02:03:04.5".toList = check? (-937845000000 * 100) ∧
      ((∃ n : SpanNotation, n.IsDocumented ∧ n.write = "-1.02:03:04.5".toList) ↔
        '+' ∉ "-1.02:03:04.5".toList ∧ '-' ∉ "-1.02:03:04.5".toList.tail ∧
          "-1.02:03:04.5".toList.getLast? ≠ some '.') := by
  obtain ⟨-, hdocumented, hform⟩ := ofText?_notation "-1.02:03:04.5".toList
  have hread := hdocumented dayAndMore dayAndMore_isDocumented rfl
  exact ⟨hread, hform ⟨-93784500000000⟩ (hread.trans (by decide))⟩

/-- A minus in front of the minutes takes them off the hours, in a text that has no documented
form. -/
theorem ofText?_strayMinus : ofText? "01:-30:00".toList = some ⟨1800000000000⟩ ∧
    ¬∃ n : SpanNotation, n.IsDocumented ∧ n.write = "01:-30:00".toList := by
  refine ⟨by decide, ?_⟩
  rintro ⟨n, hn, hwrite⟩
  exact absurd (hwrite ▸ hn.marks.2.1) (by decide)

end Span

end DocIndex
