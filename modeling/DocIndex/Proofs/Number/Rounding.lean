/-
Integers rounded to doubles.

The double nearest to an integer grows with it.  Within one power of two this is so because
rounding a quotient is monotone, and a mantissa that is rounded up to the next power of two is
still no more than the least mantissa there.  So an integer that is rounded keeps its place
among the others, although it may come to stand on the same spot as its neighbours.
-/
import Mathlib.Algebra.Group.Nat.Defs
import Mathlib.Data.Nat.Log
import DocIndex.Number.Double

namespace DocIndex.Double

/-! ### Rounding quotients -/

theorem le_roundToEven (num den : Nat) : num / den ≤ roundToEven num den := by
  unfold roundToEven
  simp only
  split
  · exact Nat.le_refl _
  · split <;> omega

theorem roundToEven_le (num den : Nat) : roundToEven num den ≤ num / den + 1 := by
  unfold roundToEven
  simp only
  split
  · omega
  · split <;> omega

theorem roundToEven_mono {a b : Nat} (h : a ≤ b) (den : Nat) :
    roundToEven a den ≤ roundToEven b den := by
  have hquotient : a / den ≤ b / den := Nat.div_le_div_right h
  rcases Nat.lt_or_eq_of_le hquotient with hlt | heq
  · have hup := roundToEven_le a den
    have hdown := le_roundToEven b den
    omega
  · -- With equal quotients it is the remainders that decide, and they grow as well.
    have hrest : a % den ≤ b % den := by
      have ha := Nat.div_add_mod a den
      have hb := Nat.div_add_mod b den
      rw [heq] at ha
      omega
    unfold roundToEven
    simp only [heq]
    split
    · split
      · exact Nat.le_refl _
      · split <;> omega
    · split
      · rw [if_neg (by omega), if_pos (by omega)]
      · split
        · omega
        · split <;> omega

/-! ### The bits of a rounded integer -/

/-- The magnitude of the double nearest to a positive integer, if there were no infinity. -/
def roundedBits (n : Nat) : Nat :=
  (n.log2 + 1022) * exponentUnit + roundToEven (n * 2 ^ (52 - n.log2)) (2 ^ (n.log2 - 52))

theorem unitExponent_one {n : Nat} (hn : n ≠ 0) : unitExponent n 1 = (n.log2 : Int) - 52 := by
  have hlow : 2 ^ n.log2 ≤ n := Nat.log2_self_le hn
  have hguess : max ((n.log2 : Int) - Nat.log2 1 - 53) (-1074) = (n.log2 : Int) - 53 := by
    have hone : Nat.log2 1 = 0 := by decide
    omega
  have hfits : 2 * exponentUnit * 1 * twoTo ((n.log2 : Int) - 53)
      ≤ n * twoTo (-((n.log2 : Int) - 53)) := by
    have hunit : 2 * exponentUnit * 1 = 2 ^ 53 := by decide
    show 2 * exponentUnit * 1 * 2 ^ ((n.log2 : Int) - 53).toNat
      ≤ n * 2 ^ (-((n.log2 : Int) - 53)).toNat
    rw [hunit, ← Nat.pow_add]
    calc 2 ^ (53 + ((n.log2 : Int) - 53).toNat)
        = 2 ^ (n.log2 + (-((n.log2 : Int) - 53)).toNat) := by congr 1; omega
      _ = 2 ^ n.log2 * 2 ^ (-((n.log2 : Int) - 53)).toNat := Nat.pow_add _ _ _
      _ ≤ n * 2 ^ (-((n.log2 : Int) - 53)).toNat := Nat.mul_le_mul_right _ hlow
  unfold unitExponent
  simp only [hguess, if_pos hfits]
  omega

theorem ofRatio_one {n : Nat} (hn : n ≠ 0) (negative : Bool) :
    ofRatio negative n 1 = ofMagnitude negative (min (roundedBits n) infiniteMagnitude) := by
  have hdown : (-((n.log2 : Int) - 52)).toNat = 52 - n.log2 := by omega
  have hup : ((n.log2 : Int) - 52).toNat = n.log2 - 52 := by omega
  have hexponent : ((n.log2 : Int) - 52 + 1074).toNat = n.log2 + 1022 := by omega
  simp only [ofRatio, if_neg hn, unitExponent_one hn, twoTo, hdown, hup, hexponent, Nat.one_mul,
    Nat.pow_eq]
  rfl

/-- The mantissa of a rounded integer has 53 bits, or is the power of two after these. -/
theorem mantissa_bounds {n : Nat} (hn : n ≠ 0) :
    exponentUnit ≤ roundToEven (n * 2 ^ (52 - n.log2)) (2 ^ (n.log2 - 52)) ∧
      roundToEven (n * 2 ^ (52 - n.log2)) (2 ^ (n.log2 - 52)) ≤ 2 * exponentUnit := by
  have hlow : 2 ^ n.log2 ≤ n := Nat.log2_self_le hn
  have hhigh : n < 2 ^ (n.log2 + 1) := Nat.lt_log2_self
  have hpos : 0 < 2 ^ (n.log2 - 52) := Nat.two_pow_pos _
  have hsplit : 52 + (n.log2 - 52) = n.log2 + (52 - n.log2) := by omega
  have hquotient : 2 ^ 52 ≤ n * 2 ^ (52 - n.log2) / 2 ^ (n.log2 - 52) := by
    rw [Nat.le_div_iff_mul_le hpos, ← Nat.pow_add, hsplit, Nat.pow_add]
    exact Nat.mul_le_mul_right _ hlow
  have hbelow : n * 2 ^ (52 - n.log2) / 2 ^ (n.log2 - 52) < 2 ^ 53 := by
    rw [Nat.div_lt_iff_lt_mul hpos, ← Nat.pow_add,
      show 53 + (n.log2 - 52) = n.log2 + 1 + (52 - n.log2) by omega, Nat.pow_add]
    exact Nat.mul_lt_mul_of_pos_right hhigh (Nat.two_pow_pos _)
  have hunit : exponentUnit = 2 ^ 52 := by decide
  constructor
  · exact hunit ▸ hquotient.trans (le_roundToEven _ _)
  · have := roundToEven_le (n * 2 ^ (52 - n.log2)) (2 ^ (n.log2 - 52))
    omega

theorem roundedBits_mono {a b : Nat} (ha : a ≠ 0) (h : a ≤ b) : roundedBits a ≤ roundedBits b := by
  have hb : b ≠ 0 := by omega
  have hlog : a.log2 ≤ b.log2 := by
    rw [Nat.log2_eq_log_two, Nat.log2_eq_log_two]
    exact Nat.log_mono_right h
  rcases Nat.lt_or_eq_of_le hlog with hlt | heq
  · -- The mantissa of the lesser one reaches the next power of two at most.
    obtain ⟨-, htop⟩ := mantissa_bounds ha
    obtain ⟨hbottom, -⟩ := mantissa_bounds hb
    have hstep : (a.log2 + 1 + 1022) * exponentUnit ≤ (b.log2 + 1022) * exponentUnit :=
      Nat.mul_le_mul_right _ (by omega)
    have hnext : (a.log2 + 1 + 1022) * exponentUnit =
        (a.log2 + 1022) * exponentUnit + exponentUnit := by
      rw [Nat.add_right_comm, Nat.succ_mul]
    unfold roundedBits
    omega
  · have hrounded := roundToEven_mono (Nat.mul_le_mul_right (2 ^ (52 - b.log2)) h)
      (2 ^ (b.log2 - 52))
    unfold roundedBits
    rw [heq]
    exact Nat.add_le_add_left hrounded _

/-! ### The order of rounded integers -/

theorem magnitude_ofMagnitude {m : Nat} (h : m ≤ infiniteMagnitude) (negative : Bool) :
    (ofMagnitude negative m).magnitude = m := by
  have hlimit : infiniteMagnitude < 2 ^ 63 := by decide
  have hsign : signUnit = 2 ^ 63 := by decide
  cases negative <;>
    simp only [magnitude, ofMagnitude, UInt64.toNat_ofNat', hsign, if_true, Bool.false_eq_true,
      if_false] <;>
    omega

theorem negative_ofMagnitude {m : Nat} (h : m ≤ infiniteMagnitude) (negative : Bool) :
    (ofMagnitude negative m).negative = negative := by
  have hlimit : infiniteMagnitude < 2 ^ 63 := by decide
  have hsign : signUnit = 2 ^ 63 := by decide
  cases negative <;>
    simp only [Double.negative, ofMagnitude, UInt64.toNat_ofNat', hsign, if_true,
      Bool.false_eq_true, if_false, decide_eq_true_eq, decide_eq_false_iff_not] <;>
    omega

theorem orderKey_ofMagnitude {m : Nat} (h : m ≤ infiniteMagnitude) (negative : Bool) :
    (ofMagnitude negative m).orderKey = if negative then -(m : Int) else m := by
  rw [orderKey, magnitude_ofMagnitude h, negative_ofMagnitude h]

/-- The magnitude of the double nearest to an integer. -/
def roundedMagnitude (n : Nat) : Nat := if n = 0 then 0 else min (roundedBits n) infiniteMagnitude

theorem roundedMagnitude_le (n : Nat) : roundedMagnitude n ≤ infiniteMagnitude := by
  unfold roundedMagnitude
  split
  · exact Nat.zero_le _
  · exact Nat.min_le_right _ _

theorem roundedMagnitude_mono {a b : Nat} (h : a ≤ b) :
    roundedMagnitude a ≤ roundedMagnitude b := by
  unfold roundedMagnitude
  by_cases ha : a = 0
  · rw [if_pos ha]
    exact Nat.zero_le _
  · have hbits := roundedBits_mono ha h
    rw [if_neg ha, if_neg (by omega)]
    omega

theorem ofInt_eq (n : Int) : ofInt n = ofMagnitude (n < 0) (roundedMagnitude n.natAbs) := by
  unfold ofInt roundedMagnitude
  by_cases hn : n.natAbs = 0
  · rw [if_pos hn, hn]
    rfl
  · rw [if_neg hn, ofRatio_one hn]

theorem isNaN_ofInt (n : Int) : (ofInt n).isNaN = false := by
  rw [isNaN, ofInt_eq, magnitude_ofMagnitude (roundedMagnitude_le _)]
  exact decide_eq_false (Nat.not_lt.mpr (roundedMagnitude_le _))

/-- **The double nearest to an integer grows with it.** -/
theorem orderKey_ofInt_mono {a b : Int} (h : a ≤ b) : (ofInt a).orderKey ≤ (ofInt b).orderKey := by
  rw [ofInt_eq, ofInt_eq, orderKey_ofMagnitude (roundedMagnitude_le _),
    orderKey_ofMagnitude (roundedMagnitude_le _)]
  by_cases ha : a < 0
  · by_cases hb : b < 0
    · have hmono := roundedMagnitude_mono (show b.natAbs ≤ a.natAbs by omega)
      simp only [ha, hb, decide_true, if_true]
      omega
    · simp only [ha, hb, decide_true, decide_false, if_true, Bool.false_eq_true, if_false]
      omega
  · have hb : ¬b < 0 := by omega
    have hmono := roundedMagnitude_mono (show a.natAbs ≤ b.natAbs by omega)
    simp only [ha, hb, decide_false, Bool.false_eq_true, if_false]
    omega

end DocIndex.Double
