/-
The shortest decimal of a number.

Around a number lies the interval of what reads back as it, half a unit of its mantissa to each
side.  The decimals next to a number on a grid either reach into that interval, or the whole
interval lies between two points of the grid.  So a grid that the number itself is on always has
a decimal that reads back, and so does any grid that is finer than the interval is long, which
the one with seventeen digits is.

Hence the shortest decimal of a number is an integer just if the number is.  One direction is the
grid of the integers, on which an integer is; the other one is that no two points of a quarter of
that grid are so near to each other as half a unit.
-/
import Mathlib.Algebra.Order.Field.Power
import Mathlib.Tactic.FieldSimp
import Mathlib.Tactic.Linarith
import Mathlib.Tactic.LinearCombination
import Mathlib.Tactic.Ring
import DocIndex.Proofs.Number.Whole
import DocIndex.Number.Decimal

namespace DocIndex

/-! ### Values -/

namespace Double

/-- The absolute value of a finite number. -/
def size (x : Double) : ℚ := x.mantissa * (2 : ℚ) ^ x.exponent

/-- Half a unit of the last place of the mantissa. -/
def halfUnit (x : Double) : ℚ := 2 * (2 : ℚ) ^ (x.exponent - 2)

/-- Powers of two with the sign of the exponent split off. -/
theorem twoTo_cast (e : Int) : (twoTo e : ℚ) = (2 : ℚ) ^ e * twoTo (-e) := by
  rcases le_total 0 e with h | h
  · obtain ⟨n, rfl⟩ := Int.eq_ofNat_of_zero_le h
    simp [twoTo]
  · obtain ⟨n, hn⟩ := Int.eq_ofNat_of_zero_le (Int.neg_nonneg_of_nonpos h)
    obtain rfl : e = -n := by omega
    simp [twoTo]

theorem size_eq (x : Double) : (x.numerator : ℚ) = x.size * x.denominator := by
  rw [numerator, denominator, size, Nat.cast_mul, twoTo_cast, mul_assoc]

/-- The absolute value is an integer if the fraction is. -/
theorem hasWhole_iff {x : Double} {n : Nat} : x.HasWhole n ↔ x.size = n := by
  have hpos : (x.denominator : ℚ) ≠ 0 := by exact_mod_cast x.denominator_pos.ne'
  rw [HasWhole, ← mul_left_inj' hpos, ← size_eq]
  exact_mod_cast Iff.rfl

theorem size_eq_quarters (x : Double) : x.size = 4 * x.mantissa * (2 : ℚ) ^ (x.exponent - 2) := by
  have hsplit : (2 : ℚ) ^ x.exponent = 4 * (2 : ℚ) ^ (x.exponent - 2) := by
    rw [zpow_sub₀ two_ne_zero]
    norm_num
    ring
  rw [size, hsplit]
  ring

end Double

namespace Decimal

/-- The value of a decimal. -/
def size (d : Decimal) : ℚ := d.digits * (10 : ℚ) ^ d.exponent

/-- Powers of ten with the sign of the exponent split off. -/
theorem tenTo_cast (e : Int) : (tenTo e : ℚ) = (10 : ℚ) ^ e * tenTo (-e) := by
  rcases le_total 0 e with h | h
  · obtain ⟨n, rfl⟩ := Int.eq_ofNat_of_zero_le h
    simp [tenTo]
  · obtain ⟨n, hn⟩ := Int.eq_ofNat_of_zero_le (Int.neg_nonneg_of_nonpos h)
    obtain rfl : e = -n := by omega
    simp [tenTo]

theorem tenTo_pos (e : Int) : 0 < tenTo e := Nat.pow_pos (by decide)

/-- The sides of a comparison of a decimal with a binary number, made integers alike. -/
theorem sides_cast (c v : Nat) (e unit : Int) :
    ((c * tenTo e * Double.twoTo (-unit) : Nat) : ℚ)
        = c * (10 : ℚ) ^ e * (tenTo (-e) * Double.twoTo (-unit)) ∧
      ((v * Double.twoTo unit * tenTo (-e) : Nat) : ℚ)
        = v * (2 : ℚ) ^ unit * (tenTo (-e) * Double.twoTo (-unit)) := by
  rw [Nat.cast_mul, Nat.cast_mul, Nat.cast_mul, Nat.cast_mul, tenTo_cast e, Double.twoTo_cast unit]
  constructor <;> ring

theorem scale_pos (e unit : Int) : (0 : ℚ) < tenTo (-e) * Double.twoTo (-unit) :=
  mul_pos (by exact_mod_cast tenTo_pos _) (by exact_mod_cast Double.twoTo_pos _)

theorem grid_le_point {c v : Nat} {e unit : Int} :
    c * tenTo e * Double.twoTo (-unit) ≤ v * Double.twoTo unit * tenTo (-e) ↔
      (c : ℚ) * (10 : ℚ) ^ e ≤ v * (2 : ℚ) ^ unit := by
  obtain ⟨hgrid, hpoint⟩ := sides_cast c v e unit
  rw [← Nat.cast_le (α := ℚ), hgrid, hpoint, mul_le_mul_iff_left₀ (scale_pos e unit)]

theorem point_le_grid {c v : Nat} {e unit : Int} :
    v * Double.twoTo unit * tenTo (-e) ≤ c * tenTo e * Double.twoTo (-unit) ↔
      (v : ℚ) * (2 : ℚ) ^ unit ≤ c * (10 : ℚ) ^ e := by
  obtain ⟨hgrid, hpoint⟩ := sides_cast c v e unit
  rw [← Nat.cast_le (α := ℚ), hgrid, hpoint, mul_le_mul_iff_left₀ (scale_pos e unit)]

/-- The point of a grid that stands below another point. -/
theorem floor_grid (v : Nat) (e unit : Int) :
    let c := v * Double.twoTo unit * tenTo (-e) / (1 * tenTo e * Double.twoTo (-unit))
    (c : ℚ) * (10 : ℚ) ^ e ≤ v * (2 : ℚ) ^ unit ∧
      (v : ℚ) * (2 : ℚ) ^ unit < (c + 1) * (10 : ℚ) ^ e := by
  intro c
  have hstep : 0 < 1 * tenTo e * Double.twoTo (-unit) :=
    Nat.mul_pos (Nat.mul_pos Nat.one_pos (tenTo_pos _)) (Double.twoTo_pos _)
  have hgrid : ∀ k, k * (1 * tenTo e * Double.twoTo (-unit))
      = k * tenTo e * Double.twoTo (-unit) := by
    intro k
    rw [Nat.one_mul, Nat.mul_assoc]
  constructor
  · refine grid_le_point.mp ?_
    rw [← hgrid]
    exact Nat.div_mul_le_self _ _
  · rw [← Nat.cast_succ]
    refine not_le.mp fun h => ?_
    have hle := grid_le_point.mpr h
    rw [← hgrid] at hle
    exact absurd ((Nat.le_div_iff_mul_le hstep).mpr hle) (Nat.not_succ_le_self _)

/-! ### What reads back -/

/-- Where the interval of what reads back as a number begins. -/
def lowEnd (x : Double) : ℚ :=
  (if x.mantissa = Double.exponentUnit && 1 < x.exponentField then 4 * x.mantissa - 1
    else 4 * x.mantissa - 2 : Nat) * (2 : ℚ) ^ (x.exponent - 2)

/-- Where it ends. -/
def highEnd (x : Double) : ℚ := (4 * x.mantissa + 2 : Nat) * (2 : ℚ) ^ (x.exponent - 2)

/-- A decimal reads back as the number; the ends do if the mantissa is even. -/
def ReadsBack (x : Double) (value : ℚ) : Prop :=
  if x.mantissa % 2 = 0 then lowEnd x ≤ value ∧ value ≤ highEnd x
  else lowEnd x < value ∧ value < highEnd x

variable {x : Double}

theorem readsBack_of_lt {value : ℚ} (hlow : lowEnd x < value) (hhigh : value < highEnd x) :
    ReadsBack x value := by
  unfold ReadsBack
  split
  · exact ⟨hlow.le, hhigh.le⟩
  · exact ⟨hlow, hhigh⟩

theorem ReadsBack.le {value : ℚ} (h : ReadsBack x value) :
    lowEnd x ≤ value ∧ value ≤ highEnd x := by
  unfold ReadsBack at h
  split at h
  · exact h
  · exact ⟨h.1.le, h.2.le⟩

theorem size_pos (hpos : 0 < x.mantissa) : 0 < x.size :=
  mul_pos (by exact_mod_cast hpos) (zpow_pos two_pos _)

/-- The interval reaches half a unit above the number, and at most as much below it. -/
theorem ends_of_pos (hpos : 0 < x.mantissa) :
    x.size - x.halfUnit ≤ lowEnd x ∧ lowEnd x < x.size ∧ highEnd x = x.size + x.halfUnit := by
  have hunit : (0 : ℚ) < (2 : ℚ) ^ (x.exponent - 2) := zpow_pos two_pos _
  have hquarters : ∀ k : Nat, k ≤ 4 * x.mantissa →
      ((4 * x.mantissa - k : Nat) : ℚ) * (2 : ℚ) ^ (x.exponent - 2)
        = x.size - k * (2 : ℚ) ^ (x.exponent - 2) := by
    intro k hk
    rw [Nat.cast_sub hk, x.size_eq_quarters]
    push_cast
    ring
  have hhigh : highEnd x = x.size + x.halfUnit := by
    rw [highEnd, Double.halfUnit, x.size_eq_quarters]
    push_cast
    ring
  unfold lowEnd
  split
  · rw [hquarters 1 (by omega), Double.halfUnit]
    push_cast
    exact ⟨by linarith, by linarith, hhigh⟩
  · rw [hquarters 2 (by omega), Double.halfUnit]
    push_cast
    exact ⟨by linarith, by linarith, hhigh⟩

/-- The two points of a grid that a number lies between, and what is chosen of them. -/
theorem exists_neighbours (x : Double) (e : Int) :
    ∃ c : Nat, c * (10 : ℚ) ^ e ≤ x.size ∧ x.size < (c + 1) * (10 : ℚ) ^ e ∧
      (∀ d, readingBack? x e = some d → d.exponent = e ∧ ReadsBack x d.size) ∧
      (readingBack? x e = none →
        ¬ReadsBack x (c * (10 : ℚ) ^ e) ∧ ¬ReadsBack x ((c + 1) * (10 : ℚ) ^ e)) := by
  obtain ⟨result, hresult⟩ : ∃ result, readingBack? x e = result := ⟨_, rfl⟩
  rw [hresult]
  unfold readingBack? at hresult
  extract_lets m unit grid point value upper lower inside below above toBelow toAbove nearer
    at hresult
  have hsize : ((4 * m : Nat) : ℚ) * (2 : ℚ) ^ unit = x.size := by
    rw [x.size_eq_quarters]
    push_cast
    rfl
  have hinside : ∀ c : Nat, inside c = true ↔ ReadsBack x (c * (10 : ℚ) ^ e) := by
    intro c
    simp only [inside, ReadsBack]
    split
    · rw [Bool.and_eq_true, decide_eq_true_iff, decide_eq_true_iff]
      exact and_congr point_le_grid grid_le_point
    · rw [Bool.and_eq_true, decide_eq_true_iff, decide_eq_true_iff]
      exact and_congr (not_le.symm.trans ((not_congr grid_le_point).trans not_le))
        (not_le.symm.trans ((not_congr point_le_grid).trans not_le))
  have hsucc : ((below + 1 : Nat) : ℚ) = below + 1 := Nat.cast_succ below
  obtain ⟨hbelow, habove⟩ := floor_grid (4 * m) e unit
  rw [hsize] at hbelow habove
  refine ⟨below, hbelow, habove, ?_, ?_⟩
  · rintro d rfl
    split at hresult
    · rename_i hbelow habove
      cases hresult
      refine ⟨rfl, ?_⟩
      split
      · exact (hinside _).mp hbelow
      · exact (hinside _).mp habove
    · rename_i hbelow _
      cases hresult
      exact ⟨rfl, (hinside _).mp hbelow⟩
    · rename_i _ habove
      cases hresult
      exact ⟨rfl, (hinside _).mp habove⟩
    · cases hresult
  · rintro rfl
    rw [← hsucc, ← hinside, ← hinside]
    split at hresult
    · cases hresult
    · cases hresult
    · cases hresult
    · rename_i hbelow habove
      exact ⟨ne_true_of_eq_false hbelow, ne_true_of_eq_false habove⟩

/-- If nothing on a grid reads back then the whole interval lies between two of its points. -/
theorem gap_of_readingBack?_eq_none (hpos : 0 < x.mantissa) {e : Int}
    (h : readingBack? x e = none) :
    ∃ c : Nat, c * (10 : ℚ) ^ e ≤ lowEnd x ∧ highEnd x ≤ (c + 1) * (10 : ℚ) ^ e := by
  obtain ⟨hlow, hless, hhigh⟩ := ends_of_pos hpos
  have hunit : 0 < x.halfUnit := mul_pos two_pos (zpow_pos two_pos _)
  obtain ⟨c, hbelow, habove, -, hnone⟩ := exists_neighbours x e
  obtain ⟨houtBelow, houtAbove⟩ := hnone h
  refine ⟨c, ?_, ?_⟩
  · by_contra hinside
    exact houtBelow (readsBack_of_lt (not_le.mp hinside) (by linarith))
  · by_contra hinside
    exact houtAbove (readsBack_of_lt (by linarith) (not_le.mp hinside))

/-- A number reads back from a grid that it is on. -/
theorem readingBack?_ne_none_of_on_grid (hpos : 0 < x.mantissa) {e : Int} {n : Nat}
    (h : x.size = n * (10 : ℚ) ^ e) : readingBack? x e ≠ none := by
  intro hnone
  obtain ⟨c, hbelow, habove⟩ := gap_of_readingBack?_eq_none hpos hnone
  obtain ⟨-, hless, hhigh⟩ := ends_of_pos hpos
  have hunit : 0 < x.halfUnit := mul_pos two_pos (zpow_pos two_pos _)
  have hstep : (0 : ℚ) < (10 : ℚ) ^ e := zpow_pos (by norm_num) _
  -- The number would lie strictly between two neighbours of the grid.
  have hlow : (c : ℚ) < n := lt_of_mul_lt_mul_right (by linarith) hstep.le
  have hhigh : (n : ℚ) < c + 1 := lt_of_mul_lt_mul_right (by linarith) hstep.le
  have hcn : c < n := by exact_mod_cast hlow
  have hnc : n < c + 1 := by exact_mod_cast hhigh
  omega

/-- A decimal with seventeen digits always reads back. -/
theorem readingBack?_ne_none_of_fine (hpos : 0 < x.mantissa) {e : Int}
    (h : (10 : ℚ) ^ (e + 16) ≤ x.size) : readingBack? x e ≠ none := by
  intro hnone
  obtain ⟨c, hbelow, habove⟩ := gap_of_readingBack?_eq_none hpos hnone
  have hunit : (0 : ℚ) < (2 : ℚ) ^ (x.exponent - 2) := zpow_pos two_pos _
  have hlength : highEnd x - lowEnd x ≤ (10 : ℚ) ^ e := by linarith
  have hfine : (10 : ℚ) ^ e * 10 ^ 16 ≤ 4 * x.mantissa * (2 : ℚ) ^ (x.exponent - 2) := by
    rw [← x.size_eq_quarters]
    refine le_trans (le_of_eq ?_) h
    rw [zpow_add₀ (by norm_num)]
    rfl
  unfold lowEnd highEnd at hlength
  split at hlength
  · rename_i hboundary
    simp only [Bool.and_eq_true, decide_eq_true_eq] at hboundary
    have hunits : x.mantissa = 4503599627370496 := hboundary.1
    rw [hunits] at hlength hfine
    norm_num at hlength hfine
    linarith
  · have hmantissa : (x.mantissa : ℚ) ≤ 2 ^ 53 := by exact_mod_cast x.mantissa_lt.le
    have hlimit := mul_le_mul_of_nonneg_right hmantissa hunit.le
    rw [Nat.cast_sub (by omega)] at hlength
    push_cast at hlength
    linarith

/-! ### The leading digit -/

theorem pow_digitCount {n : Nat} (hpos : 0 < n) :
    10 ^ (digitCount n - 1) ≤ n ∧ n < 10 ^ digitCount n ∧ 0 < digitCount n := by
  have hcount : 0 < digitCount n := List.length_pos_iff.mpr Nat.toDigits_ne_nil
  refine ⟨?_, (Nat.length_toDigits_le_iff (by decide) hcount).mp le_rfl, hcount⟩
  rcases Nat.eq_zero_or_pos (digitCount n - 1) with hzero | hmore
  · rw [hzero]
    exact hpos
  · refine not_lt.mp fun h => ?_
    have := (Nat.length_toDigits_le_iff (by decide) hmore).mpr h
    rw [← digitCount] at this
    omega

/-- The smallest numbers are above `10 ^ -330`. -/
theorem denominator_le (x : Double) : x.denominator ≤ tenTo 330 := by
  rw [Double.denominator_eq]
  calc 2 ^ (1075 - max 1 x.exponentField) ≤ 2 ^ 1074 := Nat.pow_le_pow_right (by decide) (by omega)
    _ ≤ tenTo 330 := by decide +kernel

theorem leadingExponent_spec (hpos : 0 < x.mantissa) :
    let leading := leadingExponent x.numerator x.denominator
    (10 : ℚ) ^ leading ≤ x.size ∧ x.size < (10 : ℚ) ^ (leading + 1) := by
  intro leading
  have hden : 0 < x.denominator := x.denominator_pos
  have hnum : 0 < x.numerator := Nat.mul_pos hpos (Double.twoTo_pos _)
  have hquotient : 0 < x.numerator * tenTo 330 / x.denominator :=
    Nat.div_pos ((denominator_le x).trans (Nat.le_mul_of_pos_left _ hnum)) hden
  obtain ⟨hlow, hhigh, hcount⟩ := pow_digitCount hquotient
  generalize hdigits : digitCount (x.numerator * tenTo 330 / x.denominator) = count at *
  have hleading : leading = (count : Int) - 1 - 330 := by
    rw [← hdigits]
    rfl
  rw [Nat.le_div_iff_mul_le hden] at hlow
  rw [Nat.div_lt_iff_lt_mul hden] at hhigh
  have hscaled : ((x.numerator * tenTo 330 : Nat) : ℚ)
      = x.size * 10 ^ (330 : Int) * x.denominator := by
    rw [Nat.cast_mul, x.size_eq, tenTo_cast 330, show tenTo (-330) = 1 from rfl]
    ring
  have hdenominator : (0 : ℚ) < x.denominator := by exact_mod_cast hden
  have hscale : (0 : ℚ) < 10 ^ (330 : Int) := zpow_pos (by norm_num) _
  have hshift : ∀ {k : Nat} {e : Int}, (k : Int) = e + 330 →
      (10 : ℚ) ^ k = 10 ^ e * 10 ^ (330 : Int) := by
    intro k e hk
    rw [← zpow_add₀ (by norm_num), ← hk, zpow_natCast]
  constructor
  · have hcast := (Nat.cast_le (α := ℚ)).mpr hlow
    rw [hscaled, Nat.cast_mul, Nat.cast_pow, mul_le_mul_iff_left₀ hdenominator, Nat.cast_ofNat,
      hshift (by omega : ((count - 1 : Nat) : Int) = leading + 330)] at hcast
    exact le_of_mul_le_mul_right hcast hscale
  · have hcast := (Nat.cast_lt (α := ℚ)).mpr hhigh
    rw [hscaled, Nat.cast_mul, Nat.cast_pow, mul_lt_mul_iff_left₀ hdenominator, Nat.cast_ofNat,
      hshift (by omega : (count : Int) = leading + 1 + 330)] at hcast
    exact lt_of_mul_lt_mul_right hcast hscale.le

/-! ### Trailing zeros -/

theorem dropZeros_spec (fuel : Nat) (d : Decimal) :
    (dropZeros fuel d).size = d.size ∧ d.exponent ≤ (dropZeros fuel d).exponent := by
  induction fuel generalizing d with
  | zero => exact ⟨rfl, le_rfl⟩
  | succ fuel ih =>
      rw [dropZeros]
      split
      · rename_i hzero
        simp only [Bool.and_eq_true, decide_eq_true_eq] at hzero
        obtain ⟨hsize, hexponent⟩ := ih ⟨d.digits / 10, d.exponent + 1⟩
        refine ⟨hsize.trans ?_, le_trans (Int.le_add_one le_rfl) hexponent⟩
        have hdigits : (d.digits : ℚ) = (d.digits / 10 : Nat) * 10 := by
          exact_mod_cast (Nat.div_mul_cancel (Nat.dvd_of_mod_eq_zero hzero.1)).symm
        rw [size, size, hdigits, zpow_add_one₀ (by norm_num)]
        ring
      · exact ⟨rfl, le_rfl⟩

/-! ### The shortest decimal -/

/-- The first of some numbers with a result comes after those without. -/
theorem findSome?_range {β : Type} {f : Nat → Option β} {limit : Nat} {b : β}
    (h : (List.range limit).findSome? f = some b) :
    ∃ n < limit, f n = some b ∧ ∀ k < n, f k = none := by
  obtain ⟨before, n, rest, hrange, hfound, hnone⟩ := List.findSome?_eq_some_iff.mp h
  have hplace : before.length < limit := by
    have := congrArg List.length hrange
    simp at this
    omega
  have hn : (List.range limit)[before.length]? = some n := by
    rw [hrange, List.getElem?_append_right le_rfl, Nat.sub_self, List.getElem?_cons_zero]
  obtain rfl : before.length = n := by simpa [hplace] using hn
  refine ⟨before.length, hplace, hfound, fun k hk => hnone k ?_⟩
  have hk' : (List.range limit)[k]? = before[k]? := by
    rw [hrange, List.getElem?_append_left hk]
  rw [List.getElem?_range (by omega)] at hk'
  exact List.mem_of_getElem? hk'.symm

/--
The shortest decimal comes from the first grid on which something reads back, and there is one.
-/
theorem exists_shortest (hpos : 0 < x.mantissa) :
    let leading := leadingExponent x.numerator x.denominator
    ∃ (n : Nat) (d : Decimal), shortest x = dropZeros 17 d ∧ n ≤ 16 ∧ d.exponent = leading - n ∧
      ReadsBack x d.size ∧ ∀ k < n, readingBack? x (leading - k) = none := by
  intro leading
  have hsome : (List.range 17).findSome? (fun n : Nat => readingBack? x (leading - n)) ≠ none := by
    intro hnone
    refine readingBack?_ne_none_of_fine hpos ?_ (List.findSome?_eq_none_iff.mp hnone 16 (by decide))
    rw [show leading - (16 : Nat) + 16 = leading by omega]
    exact (leadingExponent_spec hpos).1
  obtain ⟨d, hd⟩ := Option.ne_none_iff_exists'.mp hsome
  obtain ⟨n, hn, hfound, hbefore⟩ := findSome?_range hd
  obtain ⟨-, -, -, hresult, -⟩ := exists_neighbours x (leading - n)
  obtain ⟨hexponent, hreads⟩ := hresult d hfound
  refine ⟨n, d, ?_, by omega, hexponent, hreads, hbefore⟩
  rw [shortest]
  exact congrArg (fun found => dropZeros 17 (found.getD ⟨0, 0⟩)) hd

/-- The shortest decimal reads back. -/
theorem readsBack_shortest (hpos : 0 < x.mantissa) : ReadsBack x (shortest x).size := by
  obtain ⟨n, d, hshortest, -, -, hreads, -⟩ := exists_shortest hpos
  rw [hshortest, (dropZeros_spec 17 d).1]
  exact hreads

/-- An integer is on the grid of the integers, so that its decimal does not become finer. -/
theorem exponent_shortest_nonneg (hpos : 0 < x.mantissa) {n : Nat} (hwhole : x.HasWhole n) :
    0 ≤ (shortest x).exponent := by
  obtain ⟨k, d, hshortest, hk, hexponent, -, hbefore⟩ := exists_shortest hpos
  rw [Double.hasWhole_iff] at hwhole
  have hn : n ≠ 0 := by
    rintro rfl
    exact (size_pos hpos).ne' (by rw [hwhole, Nat.cast_zero])
  have hleading : 0 ≤ leadingExponent x.numerator x.denominator := by
    have hone : (1 : ℚ) ≤ n := by exact_mod_cast Nat.one_le_iff_ne_zero.mpr hn
    have hless := lt_of_le_of_lt hone (hwhole ▸ (leadingExponent_spec hpos).2)
    have := (one_lt_zpow_iff_right₀ (by norm_num)).mp hless
    omega
  rw [hshortest]
  refine le_trans ?_ (dropZeros_spec 17 d).2
  by_contra hfiner
  -- The grid of the integers came before, and the number is on it.
  have hnone := hbefore (leadingExponent x.numerator x.denominator).toNat (by omega)
  rw [Int.toNat_of_nonneg hleading, Int.sub_self] at hnone
  exact readingBack?_ne_none_of_on_grid hpos (by rw [hwhole, zpow_zero, mul_one]) hnone

/-- An integer that reads back as a number with an exponent of at most zero is the number. -/
theorem eq_of_readsBack (hpos : 0 < x.mantissa) (hexponent : x.exponent ≤ 0) {n : Nat}
    (h : ReadsBack x n) : x.size = n := by
  obtain ⟨hlow, -, hhigh⟩ := ends_of_pos hpos
  obtain ⟨hfrom, hto⟩ := h.le
  obtain ⟨k, hk⟩ := Int.eq_ofNat_of_zero_le (Int.neg_nonneg_of_nonpos hexponent)
  have hscale : (0 : ℚ) < 2 ^ k := pow_pos two_pos k
  have hcancel : (2 : ℚ) ^ x.exponent * 2 ^ k = 1 := by
    rw [← zpow_natCast, ← zpow_add₀ two_ne_zero, show x.exponent + (k : Int) = 0 by omega,
      zpow_zero]
  have hsize : x.size * 2 ^ k = x.mantissa := by rw [Double.size, mul_assoc, hcancel, mul_one]
  have hhalf : x.halfUnit * 2 ^ k = 1 / 2 := by
    rw [Double.halfUnit, zpow_sub₀ two_ne_zero]
    norm_num
    linear_combination hcancel / 2
  -- In units of the mantissa the integer is less than one apart from the number.
  have habove := mul_le_mul_of_nonneg_right (hlow.trans hfrom) hscale.le
  have hbelow := mul_le_mul_of_nonneg_right (hto.trans hhigh.le) hscale.le
  rw [sub_mul, hsize, hhalf] at habove
  rw [add_mul, hsize, hhalf] at hbelow
  have habove' : 2 * x.mantissa ≤ 2 * (n * 2 ^ k) + 1 := by
    have : 2 * (x.mantissa : ℚ) ≤ 2 * (n * 2 ^ k) + 1 := by linarith
    exact_mod_cast this
  have hbelow' : 2 * (n * 2 ^ k) ≤ 2 * x.mantissa + 1 := by
    have : 2 * ((n : ℚ) * 2 ^ k) ≤ 2 * x.mantissa + 1 := by linarith
    exact_mod_cast this
  have hunits : x.mantissa = n * 2 ^ k := by omega
  refine mul_right_cancel₀ hscale.ne' ?_
  rw [hsize, hunits]
  push_cast
  rfl

/-- The integer that a decimal without places after the point is. -/
theorem size_of_exponent_nonneg {d : Decimal} (h : 0 ≤ d.exponent) :
    d.size = (d.digits * 10 ^ d.exponent.toNat : Nat) := by
  obtain ⟨k, hk⟩ := Int.eq_ofNat_of_zero_le h
  rw [size, hk, Int.toNat_natCast, zpow_natCast]
  push_cast
  rfl

/-- **The shortest decimal of a number is an integer just if the number is.** -/
theorem exponent_shortest_nonneg_iff (hpos : 0 < x.mantissa) :
    0 ≤ (shortest x).exponent ↔ ∃ n, x.HasWhole n := by
  refine ⟨fun h => ?_, fun ⟨n, hwhole⟩ => exponent_shortest_nonneg hpos hwhole⟩
  rcases le_total x.exponent 0 with hexponent | hexponent
  · have hreads := readsBack_shortest hpos
    rw [size_of_exponent_nonneg h] at hreads
    exact ⟨_, Double.hasWhole_iff.mpr (eq_of_readsBack hpos hexponent hreads)⟩
  · obtain ⟨k, hk⟩ := Int.eq_ofNat_of_zero_le hexponent
    refine ⟨x.mantissa * 2 ^ k, Double.hasWhole_iff.mpr ?_⟩
    rw [Double.size, hk, zpow_natCast]
    push_cast
    rfl

/-- The shortest decimal of an integer with no more than 53 bits is that integer. -/
theorem shortest_of_whole (hpos : 0 < x.mantissa) {n : Nat} (hn : n < 2 ^ 53)
    (hwhole : x.HasWhole n) :
    0 ≤ (shortest x).exponent ∧ (shortest x).digits * 10 ^ (shortest x).exponent.toNat = n := by
  have hnonneg := exponent_shortest_nonneg hpos hwhole
  have hreads := readsBack_shortest hpos
  rw [size_of_exponent_nonneg hnonneg] at hreads
  refine ⟨hnonneg, ?_⟩
  have hexponent : x.exponent ≤ 0 := by
    by_contra hlarge
    have hfield : 1075 < x.exponentField := by
      rw [Double.exponent] at hlarge
      omega
    have hmantissa := Double.mantissa_of_exponentField (x := x) (by omega)
    have hunit := Double.exponentUnit_eq
    obtain ⟨k, hk⟩ := Nat.exists_eq_add_of_lt hfield
    rw [Double.HasWhole, Double.numerator_eq, Double.denominator_eq,
      show max 1 x.exponentField - 1075 = k + 1 by omega,
      show 1075 - max 1 x.exponentField = 0 by omega, Nat.pow_zero, Nat.mul_one] at hwhole
    have hpower : 2 ≤ 2 ^ (k + 1) := Nat.le_self_pow (Nat.succ_ne_zero k) 2
    have := Nat.mul_le_mul_left x.mantissa hpower
    omega
  have hsize := eq_of_readsBack hpos hexponent hreads
  rw [Double.hasWhole_iff.mp hwhole] at hsize
  exact_mod_cast hsize.symm

end Decimal

end DocIndex
