/-
Zstandard frames.

`decode?` reads any number of frames one after the other, skippable ones among them, with
plain, repeated and compressed blocks, and checks the sizes and the checksum that a frame
states.  `encode` writes a frame of plain blocks, which every decoder gives back.
-/
import DocIndex.Codec.XxHash
import DocIndex.Codec.Zstd.Block

namespace DocIndex.Codec.Zstd

/-- The bytes that every frame begins with. -/
def magic : Bytes := [0x28, 0xB5, 0x2F, 0xFD]

/-- The most data in a block. -/
def maxBlock : Nat := 131072

/-- The data as plain blocks, at most as many as the fuel, the last one marked. -/
def plainBlocks (fuel : Nat) (data : Bytes) : Bytes :=
  match fuel with
  | 0 => []
  | fuel + 1 =>
    let last := data.length ≤ maxBlock
    let block := data.take maxBlock
    Bytes.littleEndian 3 (block.length * 8 + if last then 1 else 0) ++ block ++
      if last then [] else plainBlocks fuel (data.drop maxBlock)

/-- A frame that holds the data as it is: a single segment with a size of four bytes. -/
def encode (data : Bytes) : Bytes :=
  magic ++ 0xA0 :: Bytes.littleEndian 4 data.length ++
    plainBlocks (data.length / maxBlock + 1) data

/-- What the header of a frame states. -/
structure FrameHeader where
  windowSize : Nat
  contentSize : Option Nat
  hasChecksum : Bool

/-- The largest window that is accepted. -/
def maxWindow : Nat := 0x8000000

/-- Reads the header of a frame after its magic bytes; dictionaries are not supported. -/
def readHeader? (bytes : Bytes) : Option (FrameHeader × Bytes) := do
  match bytes with
  | [] => none
  | descriptor :: rest =>
    let d := descriptor.toNat
    let single := d / 32 % 2 = 1
    if d / 8 % 2 = 1 then none
    else
      let (window, rest) ← Bytes.splitAt? rest (if single then 0 else 1)
      let w := Bytes.ofLittleEndian window
      let base := 1 <<< (10 + w / 8)
      let dictionaryWidth := [0, 1, 2, 4].getD (d % 4) 0
      let (dictionary, rest) ← Bytes.splitAt? rest dictionaryWidth
      let sizeWidth := [if single then 1 else 0, 2, 4, 8].getD (d / 64) 0
      let (size, rest) ← Bytes.splitAt? rest sizeWidth
      let stated := Bytes.ofLittleEndian size + if sizeWidth = 2 then 256 else 0
      let windowSize := if single then stated else base + base / 8 * (w % 8)
      if Bytes.ofLittleEndian dictionary ≠ 0 || maxWindow < windowSize then none
      else
        return (⟨windowSize, if sizeWidth = 0 then none else some stated, d / 4 % 2 = 1⟩, rest)

/-- Decodes blocks up to the last one; a block takes three bytes at least, which bounds the fuel. -/
def decodeBlocks? (fuel limit : Nat) (context : Context) (bytes : Bytes) :
    Option (Context × Bytes) :=
  match fuel with
  | 0 => none
  | fuel + 1 => do
    let (head, rest) ← Bytes.splitAt? bytes 3
    let head := Bytes.ofLittleEndian head
    let size := head / 8
    if limit < size then none
    else
      let (context, rest) ← match head / 2 % 4 with
        | 0 => do
          let (block, rest) ← Bytes.splitAt? rest size
          pure ({ context with output := context.output ++ block.toArray }, rest)
        | 1 =>
          match rest with
          | b :: rest =>
            some ({ context with output := context.output ++ Array.replicate size b }, rest)
          | [] => none
        | 2 => do
          let (block, rest) ← Bytes.splitAt? rest size
          pure (← decodeBlock? context block, rest)
        | _ => none
      if head % 2 = 1 then return (context, rest) else decodeBlocks? fuel limit context rest

/-- Decodes one frame after its magic bytes. -/
def decodeFrame? (bytes : Bytes) : Option (Bytes × Bytes) := do
  let (header, rest) ← readHeader? bytes
  let limit := min maxBlock header.windowSize
  let (context, rest) ← decodeBlocks? rest.length limit .start rest
  let data := context.output.toList
  if header.contentSize.any (· ≠ data.length) then none
  else if header.hasChecksum then
    let (checksum, rest) ← Bytes.splitAt? rest 4
    if Bytes.ofLittleEndian checksum = (XxHash.hash data).toNat % 0x100000000 then return (data, rest)
    else none
  else return (data, rest)

/-- Whether four bytes begin a frame that is to be skipped. -/
def isSkippable (start : Bytes) : Bool := Bytes.ofLittleEndian start / 16 == 0x184D2A5

/-- Decodes frames to the end of the input, at least one. -/
def decodeFrames? (fuel : Nat) (bytes : Bytes) : Option Bytes :=
  match fuel with
  | 0 => none
  | fuel + 1 => do
    let (start, rest) ← Bytes.splitAt? bytes 4
    let (data, rest) ←
      if isSkippable start then do
        let (size, rest) ← Bytes.splitAt? rest 4
        let (_, rest) ← Bytes.splitAt? rest (Bytes.ofLittleEndian size)
        pure ([], rest)
      else if start = magic then decodeFrame? rest
      else none
    if rest.isEmpty then return data
    else return data ++ (← decodeFrames? fuel rest)

/-- The data of one frame or several. -/
def decode? (bytes : Bytes) : Option Bytes := decodeFrames? bytes.length bytes

end DocIndex.Codec.Zstd
