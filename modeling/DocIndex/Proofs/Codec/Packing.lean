/-
What is packed comes back.

A number of a fixed width comes back from its bytes modulo what the width can hold, so whatever
frames data by a length needs that the length fits.  A text always comes back: its bytes are UTF-8.

A frame states the size of its data in four bytes, and LZ4 decodes into a buffer of that size,
so the data must be shorter than `2 ^ 32` bytes.  Whether a codec gives back what it wrote is
asked of each codec by itself; for LZ4 it is proved here, from the one run of literals that
its encoder writes.
-/
import Mathlib.Algebra.Group.Nat.Defs
import DocIndex.Codec.Compressed
import DocIndex.Data.Bytes

namespace DocIndex.Bytes

@[simp] theorem length_littleEndian (width n : Nat) : (littleEndian width n).length = width := by
  induction width generalizing n with
  | zero => rfl
  | succ width ih => rw [littleEndian, List.length_cons, ih]

/-- A number comes back modulo what its width can hold. -/
theorem ofLittleEndian_littleEndian (width n : Nat) :
    ofLittleEndian (littleEndian width n) = n % 256 ^ width := by
  induction width generalizing n with
  | zero => rw [littleEndian, ofLittleEndian, Nat.pow_zero, Nat.mod_one]
  | succ width ih =>
      rw [littleEndian, ofLittleEndian, ih, Nat.pow_succ', Nat.mod_mul, UInt8.toNat_ofNat']

theorem ofLittleEndian_of_lt {width n : Nat} (h : n < 256 ^ width) :
    ofLittleEndian (littleEndian width n) = n := by
  rw [ofLittleEndian_littleEndian, Nat.mod_eq_of_lt h]

/-- So many bytes hold no greater number. -/
theorem ofLittleEndian_lt (bytes : Bytes) : ofLittleEndian bytes < 256 ^ bytes.length := by
  induction bytes with
  | nil => decide
  | cons b bytes ih =>
      have hb : b.toNat < 256 := b.toNat_lt
      rw [ofLittleEndian, List.length_cons, Nat.pow_succ']
      omega

/-- What stands in front comes off by its length. -/
theorem splitAt?_append {first : Bytes} {count : Nat} (h : first.length = count) (rest : Bytes) :
    splitAt? (first ++ rest) count = some (first, rest) := by
  subst h
  simp [splitAt?]

/-- The bytes of a text are read as the text. -/
@[simp] theorem toText?_ofText (text : String) : toText? (ofText text) = some text := by
  have hbytes : (⟨(ofText text).toArray⟩ : ByteArray) = text.toByteArray := by
    simp [ofText]
  rw [toText?, hbytes, String.fromUTF8?, dif_pos text.isValidUTF8]
  rfl

end DocIndex.Bytes

namespace DocIndex

namespace Codec.Lz4

/-- A length that is written after its half byte comes back on top of what was counted. -/
theorem readLength?_writeLength (rest : Bytes) : ∀ {fuel n : Nat}, n < fuel → ∀ sum : Nat,
    readLength? sum (writeLength fuel n ++ rest) = some (sum + n, rest)
  | 0, n, h, _ => absurd h (Nat.not_lt_zero n)
  | fuel + 1, n, h, sum => by
      by_cases hsmall : n < 255
      · have hbyte : (UInt8.ofNat n).toNat = n := by
          rw [UInt8.toNat_ofNat', Nat.mod_eq_of_lt (by omega)]
        have hne : (UInt8.ofNat n == 255) = false := by
          rw [beq_eq_false_iff_ne]
          intro heq
          have h255 := congrArg UInt8.toNat heq
          rw [hbyte] at h255
          exact absurd h255 (Nat.ne_of_lt hsmall)
        simp [writeLength, hsmall, readLength?, hne, hbyte]
      · have hrest := readLength?_writeLength rest (by omega : n - 255 < fuel) (sum + 255)
        have hsum : sum + 255 + (n - 255) = sum + n := by omega
        simp only [writeLength, if_neg hsmall, List.cons_append, readLength?]
        rw [if_pos (by rfl), hrest, hsum]

/-- A block that ends with its literals gives them. -/
theorem decodeFrom?_literals {token : UInt8} {fuel room : Nat} {head data : Bytes}
    (hlength : lengthFrom? (token.toNat / 16) (head ++ data) = some (data.length, data))
    (hroom : data.length ≤ room) :
    decodeFrom? (fuel + 1) (token :: (head ++ data)) [] room = some data := by
  have hsplit : Bytes.splitAt? data data.length = some (data, []) := by
    simpa using Bytes.splitAt?_append (rfl : data.length = data.length) []
  simp [decodeFrom?, hlength, hsplit, Nat.not_lt.mpr hroom]

/-- **LZ4 gives back what it wrote.** -/
theorem decode?_encode (data : Bytes) : decode? (encode data) data.length = some data := by
  by_cases hshort : data.length < 15
  · have htoken : (UInt8.ofNat (data.length * 16)).toNat / 16 = data.length := by
      rw [UInt8.toNat_ofNat', Nat.mod_eq_of_lt (by omega), Nat.mul_div_cancel _ (by decide)]
    have hlength : lengthFrom? ((UInt8.ofNat (data.length * 16)).toNat / 16) ([] ++ data)
        = some (data.length, data) := by
      rw [htoken, lengthFrom?, if_neg (by omega), List.nil_append]
    rw [encode, if_pos hshort]
    exact decodeFrom?_literals hlength (Nat.le_refl _)
  · have hlength : lengthFrom? ((0xF0 : UInt8).toNat / 16)
        (writeLength data.length (data.length - 15) ++ data) = some (data.length, data) := by
      have hread := readLength?_writeLength data
        (by omega : data.length - 15 < data.length) 15
      have hsum : 15 + (data.length - 15) = data.length := by omega
      have hfull : (0xF0 : UInt8).toNat / 16 = 15 := by rfl
      rw [hfull, lengthFrom?, if_pos rfl, hread, hsum]
    rw [encode, if_neg hshort]
    exact decodeFrom?_literals hlength (Nat.le_refl _)

end Codec.Lz4

/-- A codec that gives back data that it wrote, told its size. -/
def Compression.Restores (compression : Compression) (data : Bytes) : Prop :=
  compression.decode? (compression.encode data) data.length = some data

theorem Compression.restores_lz4 (data : Bytes) : Compression.lz4.Restores data :=
  Codec.Lz4.decode?_encode data

theorem Compression.ofTag?_tag (compression : Compression) :
    Compression.ofTag? compression.tag = some compression := by
  cases compression <;> rfl

/-- Data that was packed is unpacked. -/
theorem unpack_pack {data : Bytes} {compression : Compression} (h : data.length < 256 ^ 4)
    (hcodec : compression.Restores data) : unpack (pack data compression) = .ok data := by
  have htag : (UInt8.ofNat compression.tag).toNat = compression.tag := by
    cases compression <;> rfl
  have hsize := Bytes.ofLittleEndian_of_lt h
  simp only [Bytes.littleEndian] at hsize
  have hframe : CompressedBlock.ofBytes (pack data compression)
      = .ok (CompressedBlock.compress data compression) := by
    simp only [pack, CompressedBlock.toBytes, CompressedBlock.compress, Bytes.littleEndian,
      List.cons_append, List.nil_append, CompressedBlock.ofBytes, htag, compression.ofTag?_tag,
      hsize]
  have hdata : (CompressedBlock.compress data compression).decompress = .ok data := by
    have hrestored : compression.decode? (compression.encode data) data.length = some data := hcodec
    simp only [CompressedBlock.decompress, CompressedBlock.compress, hrestored]
  rw [unpack, hframe]
  exact hdata

end DocIndex
