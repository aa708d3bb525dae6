/-
What the checksum notices.

A step of the register is linear, so the difference of two registers is what the difference of
the bytes makes of zero (`run_xor`).  A difference never disappears by itself: the polynomial has
its highest bit set, so a bit that is shifted out with a reduction leaves a trace at the top of the
register.  This gives more than that a difference stays: as long as the register is small, no
reduction can have taken place, and the shift is just a division by two (`toNat_of_shiftBit_lt`).

A register that is zero after four bytes or fewer has therefore been, at the start, the number whose
bytes are those very bytes (`toNat_of_run_eq_zero`).  If the difference starts at zero, the bytes
cannot have differed; and what follows a change of at most four bytes cannot undo it.
-/
import DocIndex.Codec.Crc32
import DocIndex.Proofs.Codec.Packing

namespace DocIndex.Codec.Crc32

/-! ### One bit -/

/-- The lowest bit as a number. -/
theorem toNat_and_one (register : UInt32) : (register &&& 1).toNat = register.toNat % 2 := by
  rw [UInt32.toNat_and]
  exact Nat.and_one_is_mod _

theorem and_one_eq (register : UInt32) : register &&& 1 = 0 ∨ register &&& 1 = 1 := by
  rcases Nat.mod_two_eq_zero_or_one register.toNat with heven | hodd
  · exact .inl (UInt32.toNat_inj.mp ((toNat_and_one register).trans heven))
  · exact .inr (UInt32.toNat_inj.mp ((toNat_and_one register).trans hodd))

theorem xor_and_one (a b : UInt32) : (a ^^^ b) &&& 1 = (a &&& 1) ^^^ (b &&& 1) := by
  apply UInt32.toNat_inj.mp
  simp only [UInt32.toNat_and, UInt32.toNat_xor, Nat.and_xor_distrib_right]

/-- Shifting is linear: if both registers are reduced, the reductions cancel each other. -/
theorem shiftBit_xor (a b : UInt32) : shiftBit (a ^^^ b) = shiftBit a ^^^ shiftBit b := by
  have hcancel : a >>> 1 ^^^ polynomial ^^^ (b >>> 1 ^^^ polynomial) = a >>> 1 ^^^ b >>> 1 := by
    have hswap : a >>> 1 ^^^ polynomial ^^^ (b >>> 1 ^^^ polynomial)
        = a >>> 1 ^^^ b >>> 1 ^^^ (polynomial ^^^ polynomial) := by ac_rfl
    rw [hswap, UInt32.xor_self, UInt32.xor_zero]
  simp only [shiftBit, xor_and_one, UInt32.shiftRight_xor]
  rcases and_one_eq a with ha | ha <;> rcases and_one_eq b with hb | hb
  · simp [ha, hb]
  · simp [ha, hb, UInt32.xor_assoc]
  · simp only [ha, hb]
    show a >>> 1 ^^^ b >>> 1 ^^^ polynomial = a >>> 1 ^^^ polynomial ^^^ b >>> 1
    ac_rfl
  · simp only [ha, hb]
    exact hcancel.symm

/--
A register below half of its range was shifted without a reduction, which would have set the
highest bit.  So the one before was twice as much.
-/
theorem toNat_of_shiftBit_lt {register : UInt32} (h : (shiftBit register).toNat < 2 ^ 31) :
    register.toNat = 2 * (shiftBit register).toNat := by
  have hhalf : (register >>> 1).toNat = register.toNat / 2 := by
    simp [Nat.shiftRight_eq_div_pow]
  have hmod := toNat_and_one register
  have hlow : register.toNat < 2 ^ 32 := register.toNat_lt
  rcases and_one_eq register with heven | hodd
  · rw [heven] at hmod
    have hshift : shiftBit register = register >>> 1 := by
      simp [shiftBit, heven]
    rw [hshift, hhalf]
    have : register.toNat % 2 = 0 := hmod.symm
    omega
  · have hshift : shiftBit register = register >>> 1 ^^^ polynomial := by
      simp [shiftBit, hodd]
    rw [hshift, UInt32.toNat_xor, hhalf] at h
    have hclear : (register.toNat / 2).testBit 31 = false :=
      Nat.testBit_lt_two_pow (by omega)
    have hset : polynomial.toNat.testBit 31 = true := by decide
    have hbit : (register.toNat / 2 ^^^ polynomial.toNat).testBit 31 = false :=
      Nat.testBit_lt_two_pow h
    rw [Nat.testBit_xor, hclear, hset] at hbit
    cases hbit

/-! ### Several bits -/

theorem shiftBits_xor (n : Nat) (a b : UInt32) :
    shiftBits n (a ^^^ b) = shiftBits n a ^^^ shiftBits n b := by
  induction n generalizing a b with
  | zero => rfl
  | succ n ih => rw [shiftBits, shiftBits, shiftBits, shiftBit_xor, ih]

/-- The same for several shifts, of which each leaves one bit less free at the top. -/
theorem toNat_of_shiftBits_lt {n : Nat} {register : UInt32} (hn : n ≤ 32)
    (h : (shiftBits n register).toNat < 2 ^ (32 - n)) :
    register.toNat = 2 ^ n * (shiftBits n register).toNat := by
  induction n generalizing register with
  | zero => simp [shiftBits]
  | succ n ih =>
    rw [shiftBits] at h ⊢
    have hsplit : 2 ^ (32 - n) = 2 * 2 ^ (32 - (n + 1)) := by
      rw [← Nat.pow_succ']
      congr 1
      omega
    have hbelow := ih (by omega) (Nat.lt_of_lt_of_le h (by omega))
    have hsmall : (shiftBit register).toNat < 2 ^ 31 := by
      calc (shiftBit register).toNat
          = 2 ^ n * (shiftBits n (shiftBit register)).toNat := hbelow
        _ < 2 ^ n * 2 ^ (32 - (n + 1)) := Nat.mul_lt_mul_of_pos_left h (Nat.two_pow_pos n)
        _ = 2 ^ 31 := by
          rw [← Nat.pow_add]
          congr 1
          omega
    rw [toNat_of_shiftBit_lt hsmall, hbelow, Nat.pow_succ', Nat.mul_assoc]

theorem eq_zero_of_shiftBits_eq_zero {n : Nat} {register : UInt32} (hn : n < 32)
    (h : shiftBits n register = 0) : register = 0 := by
  have hnone : (shiftBits n register).toNat = 0 := by
    rw [h]
    rfl
  have htotal := toNat_of_shiftBits_lt (Nat.le_of_lt hn) (hnone ▸ Nat.two_pow_pos _)
  rw [hnone, Nat.mul_zero] at htotal
  exact UInt32.toNat_inj.mp htotal

/-! ### Bytes -/

theorem step_xor (a b : UInt32) (x y : UInt8) :
    step (a ^^^ b) (x ^^^ y) = step a x ^^^ step b y := by
  have hswap : a ^^^ b ^^^ (x ^^^ y).toUInt32 = a ^^^ x.toUInt32 ^^^ (b ^^^ y.toUInt32) := by
    rw [UInt8.toUInt32_xor]
    ac_rfl
  rw [step, hswap, shiftBits_xor]
  rfl

/-- The difference of two registers is what the differences of the bytes make of it. -/
theorem run_xor {a b : UInt32} {xs ys : Bytes} (hlength : xs.length = ys.length) :
    run (a ^^^ b) (List.zipWith (· ^^^ ·) xs ys) = run a xs ^^^ run b ys := by
  induction xs generalizing a b ys with
  | nil =>
    cases ys with
    | nil => rfl
    | cons y ys => cases hlength
  | cons x xs ih =>
    cases ys with
    | nil => cases hlength
    | cons y ys =>
      show run (step (a ^^^ b) (x ^^^ y)) _ = run (step a x) xs ^^^ run (step b y) ys
      rw [step_xor]
      exact ih (Nat.succ.inj hlength)

/-- Registers that differ still differ after the same bytes. -/
theorem run_injective {a b : UInt32} {bytes : Bytes} (h : run a bytes = run b bytes) : a = b := by
  induction bytes generalizing a b with
  | nil => exact h
  | cons byte bytes ih =>
    have hstep : step a byte = step b byte := ih h
    have hdifference : shiftBits 8 (a ^^^ b) = 0 := by
      have hxor := step_xor a b byte byte
      rw [UInt8.xor_self, hstep, UInt32.xor_self] at hxor
      rw [← hxor, step]
      simp
    exact UInt32.xor_eq_zero_iff.mp (eq_zero_of_shiftBits_eq_zero (by decide) hdifference)

/-- A difference in the bytes above the lowest one, read as a sum. -/
theorem eq_add_of_xor_eq_mul {register byte high : Nat} (hbyte : byte < 2 ^ 8)
    (h : register ^^^ byte = 2 ^ 8 * high) : register = byte + 256 * high := by
  have hregister : register = 2 ^ 8 * high ^^^ byte := by
    rw [← h, Nat.xor_assoc, Nat.xor_self, Nat.xor_zero]
  have hmod : register % 2 ^ 8 = byte := by
    rw [hregister, Nat.xor_mod_two_pow, Nat.mul_mod_right, Nat.mod_eq_of_lt hbyte, Nat.zero_xor]
  have hdiv : register / 2 ^ 8 = high := by
    rw [hregister, Nat.xor_div_two_pow, Nat.mul_div_cancel_left _ (by decide),
      Nat.div_eq_of_lt hbyte, Nat.xor_zero]
  omega

/--
A register that at most four bytes take to zero is the number of those bytes.  By induction on
the bytes: behind the first byte the register is the number of the others, which leaves a byte
free at the top, so that the eight shifts of the first step were multiplications.
-/
theorem toNat_of_run_eq_zero {register : UInt32} {bytes : Bytes} (hlength : bytes.length ≤ 4)
    (h : run register bytes = 0) : register.toNat = Bytes.ofLittleEndian bytes := by
  induction bytes generalizing register with
  | nil =>
    have hzero : register = 0 := h
    rw [hzero]
    rfl
  | cons byte bytes ih =>
    rw [List.length_cons] at hlength
    have hrest : (step register byte).toNat = Bytes.ofLittleEndian bytes := ih (by omega) h
    have hfree : (step register byte).toNat < 2 ^ (32 - 8) := by
      calc (step register byte).toNat = Bytes.ofLittleEndian bytes := hrest
        _ < 256 ^ bytes.length := Bytes.ofLittleEndian_lt bytes
        _ ≤ 256 ^ 3 := Nat.pow_le_pow_right (by decide) (by omega)
        _ = 2 ^ (32 - 8) := by decide
    have hshifted : (register ^^^ byte.toUInt32).toNat = 2 ^ 8 * (step register byte).toNat :=
      toNat_of_shiftBits_lt (by decide) hfree
    rw [UInt32.toNat_xor, UInt8.toNat_toUInt32] at hshifted
    rw [Bytes.ofLittleEndian, ← hrest]
    exact eq_add_of_xor_eq_mul byte.toNat_lt hshifted

/-! ### Bursts -/

/-- If no byte of the difference counts, there is none. -/
theorem eq_of_difference_eq_zero {xs ys : Bytes} (hlength : xs.length = ys.length)
    (h : Bytes.ofLittleEndian (List.zipWith (· ^^^ ·) xs ys) = 0) : xs = ys := by
  induction xs generalizing ys with
  | nil => exact (List.length_eq_zero_iff.mp hlength.symm).symm
  | cons x xs ih =>
    cases ys with
    | nil => cases hlength
    | cons y ys =>
      rw [List.zipWith_cons_cons, Bytes.ofLittleEndian] at h
      have hfirst : x ^^^ y = 0 := UInt8.toNat_inj.mp (show (x ^^^ y).toNat = 0 by omega)
      have hrest : xs = ys := ih (Nat.succ.inj hlength) (by omega)
      rw [UInt8.xor_eq_zero_iff.mp hfirst, hrest]

/--
**The checksum notices every change within four consecutive bytes**, wherever they stand and
whatever is around them.
-/
theorem checksum_ne_of_burst {before window changed after : Bytes}
    (hlength : changed.length = window.length) (hshort : window.length ≤ 4)
    (hne : changed ≠ window) :
    checksum (before ++ changed ++ after) ≠ checksum (before ++ window ++ after) := by
  intro hsame
  have hrun : run 0xFFFFFFFF (before ++ changed ++ after)
      = run 0xFFFFFFFF (before ++ window ++ after) := (UInt32.xor_left_inj _).mp hsame
  simp only [run, List.foldl_append] at hrun
  have hwindows : run (run 0xFFFFFFFF before) changed = run (run 0xFFFFFFFF before) window :=
    run_injective hrun
  have hdifference : run 0 (List.zipWith (· ^^^ ·) changed window) = 0 := by
    have hxor := run_xor (a := run 0xFFFFFFFF before) (b := run 0xFFFFFFFF before) hlength
    rwa [hwindows, UInt32.xor_self, UInt32.xor_self] at hxor
  have hcount : (List.zipWith (· ^^^ ·) changed window).length ≤ 4 := by
    rw [List.length_zipWith]
    omega
  exact hne (eq_of_difference_eq_zero hlength (toNat_of_run_eq_zero hcount hdifference).symm)

end DocIndex.Codec.Crc32
