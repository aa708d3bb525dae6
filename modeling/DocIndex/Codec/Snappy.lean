/-
Snappy blocks.

A block begins with the length of its data, written with seven bits in a byte, and goes on
with literals and copies of what was decoded before.  `encode` writes a single literal.
-/
import DocIndex.Data.Bytes

namespace DocIndex.Codec.Snappy

/-- Writes a number with seven bits in a byte, least significant first. -/
def writeVarint (fuel n : Nat) : Bytes :=
  match fuel with
  | 0 => []
  | fuel + 1 =>
    if n < 128 then [UInt8.ofNat n] else UInt8.ofNat (n % 128 + 128) :: writeVarint fuel (n / 128)

/-- A block that holds the data as one literal. -/
def encode (data : Bytes) : Bytes :=
  let n := data.length
  let header := writeVarint 10 n
  if n = 0 then header
  else if n ≤ 60 then header ++ UInt8.ofNat ((n - 1) * 4) :: data
  else header ++ 0xFC :: Bytes.littleEndian 4 (n - 1) ++ data

/-- Reads a number of at most ten bytes; `weight` is what the next seven bits count. -/
def readVarint? (fuel weight : Nat) : Bytes → Option (Nat × Bytes)
  | [] => none
  | b :: rest =>
    match fuel with
    | 0 => none
    | fuel + 1 =>
      if b < 128 then some (b.toNat * weight, rest)
      else (readVarint? fuel (weight * 128) rest).map fun (n, rest) =>
        ((b.toNat - 128) * weight + n, rest)

/-- Appends a copy to the output, which is held last byte first. -/
def copyBack (distance : Nat) : Nat → Bytes → Bytes
  | 0, output => output
  | length + 1, output => copyBack distance length (output.getD (distance - 1) 0 :: output)

/-- What an element of a block is. -/
inductive Element where
  | literal (length : Nat)
  | copy (distance length : Nat)

/-- Reads the head of an element; long literals need four bytes to follow their tag. -/
def readElement? (tag : Nat) (rest : Bytes) : Option (Element × Bytes) :=
  let upper := tag / 4
  match tag % 4 with
  | 0 =>
    if upper < 60 then some (.literal (upper + 1), rest)
    else if rest.length < 4 then none
    else
      let width := upper - 59
      some (.literal (Bytes.ofLittleEndian (rest.take width) + 1), rest.drop width)
  | 1 => do
    let (low, rest) ← Bytes.splitAt? rest 1
    return (.copy (upper / 8 * 256 + Bytes.ofLittleEndian low) (upper % 8 + 4), rest)
  | 2 => do
    let (distance, rest) ← Bytes.splitAt? rest 2
    return (.copy (Bytes.ofLittleEndian distance) (upper + 1), rest)
  | _ => do
    let (distance, rest) ← Bytes.splitAt? rest 4
    return (.copy (Bytes.ofLittleEndian distance) (upper + 1), rest)

/-- Decodes the elements of a block; `output` holds what was decoded, last byte first. -/
def decodeFrom? (fuel : Nat) (input output : Bytes) (room : Nat) : Option Bytes :=
  match fuel, input with
  | _, [] => if room = 0 then some output.reverse else none
  | 0, _ => none
  | fuel + 1, tag :: rest => do
    match ← readElement? tag.toNat rest with
    | (.literal length, rest) =>
      let (run, rest) ← Bytes.splitAt? rest length
      if room < length then none
      else decodeFrom? fuel rest (run.reverse ++ output) (room - length)
    | (.copy distance length, rest) =>
      if distance = 0 || output.length < distance || room < length then none
      else decodeFrom? fuel rest (copyBack distance length output) (room - length)

/-- The data of a block, if it is well formed and has the length that it begins with. -/
def decode? (block : Bytes) : Option Bytes := do
  let (length, rest) ← readVarint? 10 1 block
  if length < 0x100000000 then decodeFrom? rest.length rest [] length else none

end DocIndex.Codec.Snappy
