/-
Doubles that are integers.

A double whose value is an integer is the one nearest to that integer: its mantissa and the
mantissa of the rounded integer are the same number, only written with another power of two.  So
an integer loses nothing that a double can tell by being rounded first.  The converse holds as long
as integers have 53 bits at most, because these are not rounded at all; where the next integers no
longer have a double each, two of them may be rounded to the same one.
-/
import DocIndex.Proofs.Number.Rounding

namespace DocIndex.Double

/-! ### Parts of a number -/

theorem exponentUnit_eq : exponentUnit = 2 ^ 52 := by decide

theorem fractionField_eq (x : Double) : x.fractionField = x.magnitude % exponentUnit := by
  have hunits : signUnit = exponentUnit * 2048 := by decide
  rw [fractionField, magnitude, hunits, Nat.mod_mul_right_mod]

theorem exponentField_add_fractionField (x : Double) :
    x.exponentField * exponentUnit + x.fractionField = x.magnitude := by
  rw [fractionField_eq, exponentField, Nat.mul_comm]
  exact Nat.div_add_mod _ _

theorem fractionField_lt (x : Double) : x.fractionField < exponentUnit :=
  Nat.mod_lt _ (by decide)

/-- The quotient of a multiple is not rounded. -/
theorem roundToEven_mul (m : Nat) {den : Nat} (hden : 0 < den) : roundToEven (m * den) den = m := by
  have hrest : m * den % den = 0 := Nat.mul_mod_left m den
  simp only [roundToEven, hrest, Nat.mul_div_cancel m hden]
  rw [if_pos (by omega)]

/-! ### Numbers with the absolute value of an integer -/

/-- The absolute value of a number is the integer. -/
def HasWhole (x : Double) (n : Nat) : Prop := x.numerator = n * x.denominator

theorem twoTo_pos (e : Int) : 0 < twoTo e := Nat.two_pow_pos _

theorem denominator_pos (x : Double) : 0 < x.denominator := twoTo_pos _

theorem numerator_eq (x : Double) :
    x.numerator = x.mantissa * 2 ^ (max 1 x.exponentField - 1075) := by
  have hexponent : x.exponent.toNat = max 1 x.exponentField - 1075 := by
    rw [exponent]
    omega
  rw [numerator, twoTo, hexponent]
  rfl

theorem denominator_eq (x : Double) :
    x.denominator = 2 ^ (1075 - max 1 x.exponentField) := by
  have hexponent : (-x.exponent).toNat = 1075 - max 1 x.exponentField := by
    rw [exponent]
    omega
  rw [denominator, twoTo, hexponent]
  rfl

theorem mantissa_eq_zero {x : Double} : x.mantissa = 0 ↔ x.magnitude = 0 := by
  have hparts := x.exponentField_add_fractionField
  have hunit : 0 < exponentUnit := by decide
  unfold mantissa
  split
  · rename_i hfield
    rw [hfield] at hparts
    omega
  · rename_i hfield
    have := Nat.mul_le_mul_right exponentUnit (Nat.one_le_iff_ne_zero.mpr hfield)
    omega

/-- The mantissa of a number with an exponent has 53 bits. -/
theorem mantissa_of_exponentField {x : Double} (h : x.exponentField ≠ 0) :
    x.mantissa = exponentUnit + x.fractionField := if_neg h

/-- No mantissa has more than 53 bits. -/
theorem mantissa_lt (x : Double) : x.mantissa < 2 ^ 53 := by
  have hfraction := x.fractionField_lt
  have hunit := exponentUnit_eq
  unfold mantissa
  split <;> omega

/-- With a lesser exponent the mantissa would have to be more than it can be. -/
theorem HasWhole.le_exponentField {x : Double} {n : Nat} (h : x.HasWhole n) (hn : n ≠ 0) :
    1023 ≤ x.exponentField := by
  by_contra hless
  have hbelow := x.mantissa_lt
  have hpower : 2 ^ 53 ≤ 2 ^ (1075 - max 1 x.exponentField) :=
    Nat.pow_le_pow_right (by decide) (by omega)
  have hmultiple := Nat.mul_le_mul (Nat.one_le_iff_ne_zero.mpr hn) hpower
  rw [HasWhole, numerator_eq, denominator_eq, show max 1 x.exponentField - 1075 = 0 by omega,
    Nat.pow_zero, Nat.mul_one] at h
  omega

/-- The power of two that leads an integer with a given mantissa. -/
theorem log2_of_mantissa {m n k : Nat} (hlow : 2 ^ 52 ≤ m) (hhigh : m < 2 ^ 53) (hn : n ≠ 0)
    (h : m * 2 ^ (k - 52) = n * 2 ^ (52 - k)) : n.log2 = k := by
  refine (Nat.log2_eq_iff hn).mpr ⟨?_, ?_⟩
  · refine Nat.le_of_mul_le_mul_right ?_ (Nat.two_pow_pos (52 - k))
    rw [← h, ← Nat.pow_add, show k + (52 - k) = 52 + (k - 52) by omega, Nat.pow_add]
    exact Nat.mul_le_mul_right _ hlow
  · refine Nat.lt_of_mul_lt_mul_right (a := 2 ^ (52 - k)) ?_
    rw [← h, ← Nat.pow_add, show k + 1 + (52 - k) = 53 + (k - 52) by omega, Nat.pow_add]
    exact Nat.mul_lt_mul_of_pos_right hhigh (Nat.two_pow_pos _)

/-- A number that is an integer is the one nearest to it. -/
theorem HasWhole.magnitude_eq {x : Double} {n : Nat} (h : x.HasWhole n)
    (hfinite : x.isFinite = true) : x.magnitude = roundedMagnitude n := by
  have hfraction := x.fractionField_lt
  have hparts := x.exponentField_add_fractionField
  have hunit : exponentUnit = 2 ^ 52 := exponentUnit_eq
  by_cases hn : n = 0
  · rw [HasWhole, hn, Nat.zero_mul, numerator, Nat.mul_eq_zero,
      or_iff_left (twoTo_pos _).ne'] at h
    rw [mantissa_eq_zero.mp h, hn]
    rfl
  obtain ⟨k, hk⟩ := Nat.exists_eq_add_of_le (h.le_exponentField hn)
  rw [HasWhole, numerator_eq, denominator_eq, hk, show max 1 (1023 + k) - 1075 = k - 52 by omega,
    show 1075 - max 1 (1023 + k) = 52 - k by omega, mantissa_of_exponentField (by omega)] at h
  have hlog : n.log2 = k := log2_of_mantissa (by omega) (by omega) hn h
  have hbits : roundedBits n = x.magnitude := by
    have hnext : (1023 + k) * exponentUnit = (k + 1022) * exponentUnit + exponentUnit := by
      rw [show 1023 + k = k + 1022 + 1 by omega]
      exact Nat.succ_mul _ _
    rw [roundedBits, hlog, ← h, roundToEven_mul _ (Nat.two_pow_pos _), ← hparts, hk, hnext]
    omega
  have hbelow : x.magnitude < infiniteMagnitude := by simpa [isFinite] using hfinite
  rw [roundedMagnitude, if_neg hn, hbits]
  omega

/-- An integer of 53 bits is its own mantissa, moved to the place of the leading one. -/
theorem roundedBits_of_lt {n : Nat} (hn : n < 2 ^ 53) (hpos : n ≠ 0) :
    n.log2 ≤ 52 ∧ exponentUnit ≤ n * 2 ^ (52 - n.log2) ∧ n * 2 ^ (52 - n.log2) < 2 * exponentUnit ∧
      roundedBits n = (n.log2 + 1022) * exponentUnit + n * 2 ^ (52 - n.log2) := by
  have hlog : n.log2 ≤ 52 := Nat.le_of_lt_succ ((Nat.log2_lt hpos).mpr hn)
  have hone : roundToEven (n * 2 ^ (52 - n.log2)) (2 ^ (n.log2 - 52)) = n * 2 ^ (52 - n.log2) := by
    rw [show n.log2 - 52 = 0 by omega, Nat.pow_zero]
    simpa using roundToEven_mul (n * 2 ^ (52 - n.log2)) Nat.one_pos
  obtain ⟨hlow, -⟩ := mantissa_bounds hpos
  rw [hone] at hlow
  refine ⟨hlog, hlow, ?_, by rw [roundedBits, hone]⟩
  calc n * 2 ^ (52 - n.log2)
      < 2 ^ (n.log2 + 1) * 2 ^ (52 - n.log2) :=
        Nat.mul_lt_mul_of_pos_right Nat.lt_log2_self (Nat.two_pow_pos _)
    _ = 2 * exponentUnit := by
        rw [← Nat.pow_add, show n.log2 + 1 + (52 - n.log2) = 53 by omega]
        decide

/-- A number that is nearest to an integer of 53 bits is that integer. -/
theorem hasWhole_of_magnitude {x : Double} {n : Nat} (hn : n < 2 ^ 53)
    (h : x.magnitude = roundedMagnitude n) : x.HasWhole n := by
  have hparts := x.exponentField_add_fractionField
  rw [HasWhole, numerator_eq, denominator_eq]
  by_cases hzero : n = 0
  · rw [hzero] at h ⊢
    rw [mantissa_eq_zero.mpr h, Nat.zero_mul, Nat.zero_mul]
  obtain ⟨hlog, hlow, hhigh, hbits⟩ := roundedBits_of_lt hn hzero
  have hmagnitude : x.magnitude = (n.log2 + 1022) * exponentUnit + n * 2 ^ (52 - n.log2) := by
    rw [h, roundedMagnitude, if_neg hzero, hbits, Nat.min_eq_left]
    simp only [infiniteMagnitude, exponentUnit] at hhigh ⊢
    omega
  have hfield : x.exponentField = n.log2 + 1023 := by
    rw [exponentField, hmagnitude]
    simp only [exponentUnit] at hlow hhigh ⊢
    omega
  have hmantissa : x.mantissa = n * 2 ^ (52 - n.log2) := by
    have hnext : (n.log2 + 1023) * exponentUnit = (n.log2 + 1022) * exponentUnit + exponentUnit :=
      Nat.succ_mul _ _
    rw [hfield, hmagnitude, hnext] at hparts
    rw [mantissa_of_exponentField (by omega)]
    omega
  have hup : max 1 x.exponentField - 1075 = 0 := by omega
  have hdown : 1075 - max 1 x.exponentField = 52 - n.log2 := by omega
  rw [hmantissa, hup, hdown, Nat.pow_zero, Nat.mul_one]

/-! ### The integer that a number is -/

theorem toInt?_eq_some {x : Double} {n : Int} : x.toInt? = some n ↔
    x.isFinite = true ∧ x.HasWhole n.natAbs ∧
      (if x.negative then -(n.natAbs : Int) else n.natAbs) = n := by
  have hwhole : ∀ m, x.HasWhole m ↔ x.numerator % x.denominator = 0 ∧
      x.numerator / x.denominator = m := by
    intro m
    rw [HasWhole]
    constructor
    · intro h
      rw [h]
      exact ⟨Nat.mul_mod_left _ _, Nat.mul_div_cancel _ x.denominator_pos⟩
    · rintro ⟨hrest, rfl⟩
      exact (Nat.div_mul_cancel (Nat.dvd_of_mod_eq_zero hrest)).symm
  rw [hwhole]
  unfold toInt?
  simp only [Bool.and_eq_true, beq_iff_eq]
  generalize x.numerator / x.denominator = quotient
  constructor
  · intro h
    split at h
    · rename_i hif
      have hn := Option.some.inj h
      have habs : quotient = n.natAbs := by
        split at hn <;> omega
      exact ⟨hif.1, ⟨hif.2, habs⟩, habs ▸ hn⟩
    · cases h
  · rintro ⟨hfinite, ⟨hrest, hquotient⟩, hn⟩
    rw [if_pos ⟨hfinite, hrest⟩, hquotient, hn]

/-- The sign and the two parts of a number say which integer it is. -/
theorem toInt?_iff {x : Double} {n : Int} : x.toInt? = some n ↔ x.isFinite = true ∧
    (if x.negative then -(x.numerator : Int) else x.numerator) = n * x.denominator := by
  rw [toInt?_eq_some, HasWhole]
  refine and_congr_right fun _ => ?_
  have hpos : 0 < (x.denominator : Int) := Int.natCast_pos.mpr x.denominator_pos
  constructor
  · rintro ⟨hwhole, hsign⟩
    rw [← hsign, hwhole, Int.natCast_mul]
    split
    · rw [Int.neg_mul]
    · rfl
  · intro h
    have hwhole : x.numerator = n.natAbs * x.denominator := by
      have habs := congrArg Int.natAbs h
      rw [Int.natAbs_mul, Int.natAbs_natCast] at habs
      rw [← habs]
      split <;> omega
    refine ⟨hwhole, ?_⟩
    cases hneg : x.negative <;> rw [hneg] at h
    · have hn : ¬n < 0 := fun hn => by
        have hless := Int.mul_neg_of_neg_of_pos hn hpos
        rw [if_neg Bool.false_ne_true] at h
        omega
      rw [if_neg Bool.false_ne_true]
      omega
    · have hn : ¬0 < n := fun hn => by
        have hmore := Int.mul_pos hn hpos
        rw [if_pos rfl] at h
        omega
      rw [if_pos rfl]
      omega

/-- A number with a large exponent is an integer with as many digits. -/
theorem toInt?_of_le_exponentField {x : Double} (hfinite : x.isFinite = true)
    (hfield : 1075 ≤ x.exponentField) : 2 ^ (x.exponentField - 1023) ≤ x.numerator ∧
      x.toInt? = some (if x.negative then -(x.numerator : Int) else x.numerator) := by
  have hone : x.denominator = 1 := by
    rw [denominator_eq, show 1075 - max 1 x.exponentField = 0 by omega, Nat.pow_zero]
  refine ⟨?_, toInt?_iff.mpr ⟨hfinite, by rw [hone, Int.natCast_one, Int.mul_one]⟩⟩
  rw [numerator_eq, mantissa_of_exponentField (by omega), exponentUnit_eq]
  have hsplit : x.exponentField - 1023 = 52 + (max 1 x.exponentField - 1075) := by omega
  rw [hsplit, Nat.pow_add]
  exact Nat.mul_le_mul_right _ (Nat.le_add_right _ _)

/-! ### The nearest number -/

/-- An integer of 53 bits has a finite number, and only zero has the number zero. -/
theorem roundedMagnitude_of_lt {n : Nat} (hn : n < 2 ^ 53) :
    roundedMagnitude n < infiniteMagnitude ∧ (roundedMagnitude n = 0 → n = 0) := by
  unfold roundedMagnitude
  by_cases hzero : n = 0
  · rw [if_pos hzero]
    exact ⟨by decide, fun _ => hzero⟩
  · obtain ⟨hlog, hlow, hhigh, hbits⟩ := roundedBits_of_lt hn hzero
    rw [if_neg hzero, hbits]
    simp only [infiniteMagnitude, exponentUnit] at hlow hhigh ⊢
    omega

/-- Numbers other than a NaN are the same if their keys are. -/
theorem same_iff {x y : Double} (hx : x.isNaN = false) (hy : y.isNaN = false) :
    x.same y = true ↔ x.orderKey = y.orderKey := by
  simp [same, order?, hx, hy]

theorem isNaN_of_isFinite {x : Double} (h : x.isFinite = true) : x.isNaN = false := by
  simp only [isFinite, isNaN, decide_eq_true_eq, decide_eq_false_iff_not] at h ⊢
  omega

theorem isInfinite_of_isFinite {x : Double} (h : x.isFinite = true) :
    x.isInfinite = false := by
  simp only [isFinite, isInfinite, decide_eq_true_eq, beq_eq_false_iff_ne] at h ⊢
  omega

theorem orderKey_ofInt (n : Int) :
    (ofInt n).orderKey = if n < 0 then -(roundedMagnitude n.natAbs : Int)
      else roundedMagnitude n.natAbs := by
  rw [ofInt_eq, orderKey_ofMagnitude (roundedMagnitude_le _)]
  simp

/-- A number that is an integer is the same as the one nearest to the integer. -/
theorem same_ofInt_of_toInt? {x : Double} {n : Int} (h : x.toInt? = some n) :
    x.same (ofInt n) = true := by
  obtain ⟨hfinite, hwhole, hsign⟩ := toInt?_eq_some.mp h
  rw [same_iff (isNaN_of_isFinite hfinite) (isNaN_ofInt n), orderKey_ofInt, orderKey,
    hwhole.magnitude_eq hfinite]
  -- Of zero alone the sign is not told by the integer.
  by_cases hzero : n = 0
  · subst hzero
    simp [roundedMagnitude]
  · have hnegative : x.negative = true ↔ n < 0 := by
      cases hneg : x.negative with
      | true =>
          rw [hneg, if_pos rfl] at hsign
          exact iff_of_true rfl (by omega)
      | false =>
          rw [hneg, if_neg Bool.false_ne_true] at hsign
          exact iff_of_false Bool.false_ne_true (by omega)
    simp only [hnegative]

/-- A number that is the same as the one nearest to an integer of 53 bits is the integer. -/
theorem toInt?_of_same_ofInt {x : Double} {n : Int} (hn : n.natAbs < 2 ^ 53)
    (h : x.same (ofInt n) = true) : x.toInt? = some n := by
  obtain ⟨hlimit, hzero⟩ := roundedMagnitude_of_lt hn
  have hnan : x.isNaN = false := by
    by_contra hnan
    simp [same, order?, hnan] at h
  rw [same_iff hnan (isNaN_ofInt n), orderKey_ofInt, orderKey] at h
  have hmagnitude : x.magnitude = roundedMagnitude n.natAbs := by
    split at h <;> split at h <;> omega
  refine toInt?_eq_some.mpr ⟨?_, hasWhole_of_magnitude hn hmagnitude, ?_⟩
  · rw [isFinite, hmagnitude]
    exact decide_eq_true hlimit
  · rw [hmagnitude] at h
    cases hneg : x.negative <;> simp only [hneg, if_true, Bool.false_eq_true, if_false] at h ⊢ <;>
      split at h <;> omega

/-- An integer of 53 bits is not confused with another one by rounding. -/
theorem eq_of_roundedMagnitude_eq {a b : Nat} (hb : b < 2 ^ 53)
    (h : roundedMagnitude a = roundedMagnitude b) : a = b := by
  rcases Nat.lt_or_ge a (2 ^ 53) with ha | ha
  · -- The number nearest to both of them has one value only.
    have hmagnitude := magnitude_ofMagnitude (roundedMagnitude_le b) false
    have hboth := (hasWhole_of_magnitude ha (hmagnitude.trans h.symm)).symm.trans
      (hasWhole_of_magnitude hb hmagnitude)
    exact Nat.eq_of_mul_eq_mul_right (denominator_pos _) hboth
  · have hstep : roundedMagnitude (2 ^ 53 - 1) < roundedMagnitude (2 ^ 53) := by decide
    have hupper := roundedMagnitude_mono ha
    have hlower := roundedMagnitude_mono (show b ≤ 2 ^ 53 - 1 by omega)
    omega

theorem eq_of_same_ofInt {m n : Int} (hn : n.natAbs < 2 ^ 53)
    (h : (ofInt m).same (ofInt n) = true) : m = n := by
  have hzero := (roundedMagnitude_of_lt hn).2
  rw [same_iff (isNaN_ofInt m) (isNaN_ofInt n), orderKey_ofInt, orderKey_ofInt] at h
  have habs : m.natAbs = n.natAbs := by
    refine eq_of_roundedMagnitude_eq hn ?_
    split at h <;> split at h <;> omega
  rw [habs] at h
  split at h <;> split at h <;> omega

end DocIndex.Double
