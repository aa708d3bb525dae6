/-
Compressed blocks as the index stores them: a byte for the codec, the size of the data in
four bytes, and the data as the codec writes it.
-/
import DocIndex.Codec.Lz4
import DocIndex.Codec.Snappy
import DocIndex.Codec.Zstd
import DocIndex.Error

namespace DocIndex

/-- How data is compressed. -/
inductive Compression where
  | none
  | lz4
  | zstd
  | snappy
deriving DecidableEq, Repr

namespace Compression

def all : List Compression := [none, lz4, zstd, snappy]

def name : Compression → String
  | none => "None"
  | lz4 => "LZ4"
  | zstd => "Zstd"
  | snappy => "Snappy"

/-- The number that stands for the codec. -/
def tag : Compression → Nat
  | none => 0
  | lz4 => 1
  | zstd => 2
  | snappy => 3

/-- The codec of a number. -/
def ofTag? (n : Nat) : Option Compression := all.find? fun c => c.tag = n

/-- The data as the codec writes it. -/
def encode (c : Compression) (data : Bytes) : Bytes :=
  match c with
  | none => data
  | lz4 => Codec.Lz4.encode data
  | zstd => Codec.Zstd.encode data
  | snappy => Codec.Snappy.encode data

/-- The data that the codec wrote, where its size is known for LZ4 only. -/
def decode? (c : Compression) (bytes : Bytes) (size : Nat) : Option Bytes :=
  match c with
  | none => some bytes
  | lz4 => Codec.Lz4.decode? bytes size
  | zstd => Codec.Zstd.decode? bytes
  | snappy => Codec.Snappy.decode? bytes

end Compression

/-- A compressed block. -/
structure CompressedBlock where
  compression : Compression
  /-- The size of the data before compression. -/
  size : Nat
  data : Bytes
deriving DecidableEq

namespace CompressedBlock

/-- Compresses data. -/
def compress (data : Bytes) (compression : Compression) : CompressedBlock :=
  ⟨compression, data.length, compression.encode data⟩

/-- Restores the data. -/
def decompress (block : CompressedBlock) : Except Error Bytes :=
  match block.compression.decode? block.data block.size with
  | some data => .ok data
  | none => .error (.damaged .codec)

/-- The block as bytes. -/
def toBytes (block : CompressedBlock) : Bytes :=
  UInt8.ofNat block.compression.tag :: Bytes.littleEndian 4 block.size ++ block.data

/-- Reads the frame of a block. -/
def ofBytes (bytes : Bytes) : Except Error CompressedBlock :=
  match bytes with
  | tag :: a :: b :: c :: d :: data =>
    match Compression.ofTag? tag.toNat with
    | some compression => .ok ⟨compression, Bytes.ofLittleEndian [a, b, c, d], data⟩
    | none => .error (.damaged (.unknownTag tag.toNat))
  | _ => .error (.damaged .blockTooShort)

end CompressedBlock

/-- Data compressed and framed. -/
def pack (data : Bytes) (compression : Compression) : Bytes :=
  (CompressedBlock.compress data compression).toBytes

/-- The data of a framed block. -/
def unpack (bytes : Bytes) : Except Error Bytes := do
  (← CompressedBlock.ofBytes bytes).decompress

end DocIndex
