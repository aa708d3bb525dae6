/-
LZ4 blocks.

A block is a sequence of literal runs, each but the last followed by a match: a distance back
into what was decoded and a length.  `decode?` reads any block whose output fits a given
size.  `encode` writes a block of literals alone, which every decoder gives back.
-/
import DocIndex.Data.Bytes

namespace DocIndex.Codec.Lz4

/-- The length of the shortest match. -/
def minMatch : Nat := 4

/-- Writes what is left of a length whose half byte is full. -/
def writeLength (fuel n : Nat) : Bytes :=
  match fuel with
  | 0 => []
  | fuel + 1 => if n < 255 then [UInt8.ofNat n] else 255 :: writeLength fuel (n - 255)

/-- A block that holds the data as literals. -/
def encode (data : Bytes) : Bytes :=
  let n := data.length
  if n < 15 then UInt8.ofNat (n * 16) :: data
  else 0xF0 :: writeLength n (n - 15) ++ data

/-- Reads a length that goes on after its half byte: bytes are added until one is not 255. -/
def readLength? (sum : Nat) : Bytes → Option (Nat × Bytes)
  | [] => none
  | b :: rest => if b == 255 then readLength? (sum + 255) rest else some (sum + b.toNat, rest)

/-- Reads a length from its half byte and what follows. -/
def lengthFrom? (half : Nat) (input : Bytes) : Option (Nat × Bytes) :=
  if half = 15 then readLength? 15 input else some (half, input)

/--
Appends a match to the output, which is held last byte first.  A match may run into what it
writes itself; at distance zero there is nothing to repeat but zeros.
-/
def copyMatch (distance : Nat) : Nat → Bytes → Bytes
  | 0, output => output
  | length + 1, output =>
    let b := if distance = 0 then 0 else output.getD (distance - 1) 0
    copyMatch distance length (b :: output)

/--
Decodes the rest of a block.  `output` holds what was decoded, last byte first, and `room` is
how many more bytes fit; every sequence takes a byte of input, which bounds the fuel.
-/
def decodeFrom? (fuel : Nat) (input output : Bytes) (room : Nat) : Option Bytes :=
  match fuel, input with
  | 0, _ => none
  | _, [] => none
  | fuel + 1, token :: rest => do
    let (literals, rest) ← lengthFrom? (token.toNat / 16) rest
    let (run, rest) ← Bytes.splitAt? rest literals
    if room < literals then none
    else
      let output := run.reverse ++ output
      let room := room - literals
      match rest with
      | [] => return output.reverse
      | low :: high :: rest =>
        let distance := low.toNat + 256 * high.toNat
        let (length, rest) ← lengthFrom? (token.toNat % 16) rest
        let length := length + minMatch
        if room < length || output.length < distance then none
        else decodeFrom? fuel rest (copyMatch distance length output) (room - length)
      | [_] => none

/-- The data of a block, if it is well formed and has at most `size` bytes. -/
def decode? (block : Bytes) (size : Nat) : Option Bytes := decodeFrom? block.length block [] size

end DocIndex.Codec.Lz4
