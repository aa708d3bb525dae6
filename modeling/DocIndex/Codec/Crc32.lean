/-
The cyclic redundancy check of 32 bits, with bits taken lowest first.

The register is divided by the polynomial one bit at a time.  Each step is linear, so how two
inputs differ in the register depends only on how they differ themselves.
-/
import DocIndex.Data.Bytes

namespace DocIndex.Codec.Crc32

/-- The polynomial of IEEE 802.3, lowest bit first. -/
def polynomial : UInt32 := 0xEDB88320

/-- Shifts one bit out of the register. -/
def shiftBit (register : UInt32) : UInt32 :=
  if register &&& 1 = 1 then (register >>> 1) ^^^ polynomial else register >>> 1

/-- Shifts so many bits out of the register. -/
def shiftBits : Nat → UInt32 → UInt32
  | 0, register => register
  | n + 1, register => shiftBits n (shiftBit register)

/-- The register after one more byte. -/
def step (register : UInt32) (byte : UInt8) : UInt32 := shiftBits 8 (register ^^^ byte.toUInt32)

/-- The register after more bytes. -/
def run (register : UInt32) (bytes : Bytes) : UInt32 := bytes.foldl step register

/-- The checksum of bytes. -/
def checksum (bytes : Bytes) : UInt32 := run 0xFFFFFFFF bytes ^^^ 0xFFFFFFFF

end DocIndex.Codec.Crc32
