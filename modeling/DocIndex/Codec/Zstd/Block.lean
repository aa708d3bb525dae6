/-
Compressed blocks of Zstandard.

A block has literals, which may be coded, and sequences, each of which copies some literals
and then repeats a piece of what was decoded before.  The codes and the last three distances
go on from block to block, so decoding a block changes a `Context`.
-/
import DocIndex.Codec.Zstd.Entropy

namespace DocIndex.Codec.Zstd

/-- What the blocks of a frame share. -/
structure Context where
  /-- What was decoded so far. -/
  output : Array UInt8
  literalTable : Option PrefixTable
  lengthTable : Option StateTable
  distanceTable : Option StateTable
  matchTable : Option StateTable
  /-- The distances of the last three matches, the latest first. -/
  recent : Nat × Nat × Nat

/-- The context of the first block. -/
def Context.start : Context := ⟨#[], none, none, none, none, (1, 4, 8)⟩

/-! ### Literals -/

/-- Where the literals of a block come from. -/
structure LiteralHeader where
  /-- 0 for plain literals, 1 for one repeated byte, 2 and 3 for a new and a known prefix code. -/
  kind : Nat
  streams : Nat
  size : Nat
  packedSize : Nat
  headerSize : Nat

/-- Reads the header of the literals. -/
def literalHeader? (bytes : Bytes) : Option LiteralHeader := do
  let first ← bytes.head?
  let kind := first.toNat % 4
  let format := first.toNat / 4 % 4
  if kind ≤ 1 then
    let (headerSize, shift) :=
      if format = 1 then (2, 16) else if format = 3 then (3, 16) else (1, 8)
    let (head, _) ← Bytes.splitAt? bytes headerSize
    let size := Bytes.ofLittleEndian head / shift
    return ⟨kind, 1, size, if kind = 0 then size else 1, headerSize⟩
  else
    let (headerSize, width) :=
      if format ≤ 1 then (3, 10) else if format = 2 then (4, 14) else (5, 18)
    let (head, _) ← Bytes.splitAt? bytes headerSize
    let value := Bytes.ofLittleEndian head / 16
    return ⟨kind, if format = 0 then 1 else 4, value % (1 <<< width), value >>> width, headerSize⟩

/-- Decodes literals out of one stream or four. -/
def decodeStreams? (t : PrefixTable) (streams size : Nat) (bytes : Bytes) : Option Bytes := do
  if streams = 1 then t.decode? size (← backwardBits? bytes)
  else
    let (jumps, rest) ← Bytes.splitAt? bytes 6
    let (one, rest) ← Bytes.splitAt? rest (Bytes.ofLittleEndian (jumps.take 2))
    let (two, rest) ← Bytes.splitAt? rest (Bytes.ofLittleEndian ((jumps.drop 2).take 2))
    let (three, four) ← Bytes.splitAt? rest (Bytes.ofLittleEndian (jumps.drop 4))
    let part := (size + 3) / 4
    if size < 3 * part then none
    else
      let a ← t.decode? part (← backwardBits? one)
      let b ← t.decode? part (← backwardBits? two)
      let c ← t.decode? part (← backwardBits? three)
      let d ← t.decode? (size - 3 * part) (← backwardBits? four)
      return a ++ b ++ c ++ d

/-- Reads the literals of a block; the prefix code in use and the bytes after them are left. -/
def readLiterals? (known : Option PrefixTable) (bytes : Bytes) :
    Option (Bytes × Option PrefixTable × Bytes) := do
  let head ← literalHeader? bytes
  let (packed, rest) ← Bytes.splitAt? (bytes.drop head.headerSize) head.packedSize
  if head.kind = 0 then return (packed, known, rest)
  else if head.kind = 1 then
    return (List.replicate head.size (packed.headD 0), known, rest)
  else if head.kind = 2 then
    let (table, streams) ← readPrefixTable? packed
    return (← decodeStreams? table head.streams head.size streams, some table, rest)
  else
    let table ← known
    return (← decodeStreams? table head.streams head.size packed, known, rest)

/-! ### Sequences -/

/-- For each code of a literal length its least value and its number of extra bits. -/
def lengthCodes : List (Nat × Nat) :=
  (List.range 16).map (·, 0) ++
    [(16, 1), (18, 1), (20, 1), (22, 1), (24, 2), (28, 2), (32, 3), (40, 3), (48, 4), (64, 6),
     (128, 7), (256, 8), (512, 9), (1024, 10), (2048, 11), (4096, 12), (8192, 13), (16384, 14),
     (32768, 15), (65536, 16)]

/-- For each code of a match length its least value and its number of extra bits. -/
def matchCodes : List (Nat × Nat) :=
  (List.range 32).map (fun n => (n + 3, 0)) ++
    [(35, 1), (37, 1), (39, 1), (41, 1), (43, 2), (47, 2), (51, 3), (59, 3), (67, 4), (83, 4),
     (99, 5), (131, 7), (259, 8), (515, 9), (1027, 10), (2051, 11), (4099, 12), (8195, 13),
     (16387, 14), (32771, 15), (65539, 16)]

/-- The codes that are used when a block brings none. -/
def defaultLengthTable : StateTable :=
  .ofCounts 6 ([4, 3] ++ List.replicate 11 2 ++ [1, 1, 1] ++ List.replicate 9 2 ++
    [3, 2, 1, 1, 1, 1, 1, -1, -1, -1, -1])

def defaultMatchTable : StateTable :=
  .ofCounts 6 ([1, 4, 3] ++ List.replicate 6 2 ++ List.replicate 37 1 ++ List.replicate 7 (-1))

def defaultDistanceTable : StateTable :=
  .ofCounts 5 (List.replicate 6 1 ++ [2, 2, 2] ++ List.replicate 15 1 ++ List.replicate 5 (-1))

/-- Reads a code table in one of four modes: the default, one symbol, a description, or the last. -/
def readMode? (mode maxLog maxSymbols : Nat) (default : StateTable) (known : Option StateTable)
    (bytes : Bytes) : Option (StateTable × Bytes) :=
  match mode, bytes with
  | 0, _ => some (default, bytes)
  | 1, [] => none
  | 1, symbol :: rest =>
    if maxSymbols ≤ symbol.toNat then none else some (.constant symbol.toNat, rest)
  | 2, _ => readStateTable? maxLog maxSymbols bytes
  | _, _ => known.map fun t => (t, bytes)

/-- The number of sequences. -/
def readCount? : Bytes → Option (Nat × Bytes)
  | [] => none
  | a :: rest =>
    if a < 128 then some (a.toNat, rest)
    else if a < 255 then
      match rest with
      | b :: rest => some ((a.toNat - 128) * 256 + b.toNat, rest)
      | [] => none
    else
      match rest with
      | b :: c :: rest => some (b.toNat + c.toNat * 256 + 0x7F00, rest)
      | _ => none

/-- The codes of the three parts of a sequence. -/
structure SequenceTables where
  length : StateTable
  distance : StateTable
  copies : StateTable

/-- The states of the three codes. -/
structure SequenceStates where
  length : Nat
  distance : Nat
  copies : Nat

/-- Appends so many bytes that stand a distance back; what is appended can be repeated itself. -/
def repeatFrom (distance : Nat) : Nat → Array UInt8 → Array UInt8
  | 0, output => output
  | n + 1, output => repeatFrom distance n (output.push (output.getD (output.size - distance) 0))

/-- The distance that a written value means, and the last three distances after it. -/
def resolveDistance? (value length : Nat) (recent : Nat × Nat × Nat) :
    Option (Nat × Nat × Nat × Nat) :=
  let (a, b, c) := recent
  if 3 < value then some (value - 3, value - 3, a, b)
  else
    -- Without literals before it a match does not repeat the latest distance.
    match if length = 0 then value + 1 else value with
    | 1 => some (a, a, b, c)
    | 2 => some (b, b, a, c)
    | 3 => some (c, c, a, b)
    | _ => if a ≤ 1 then none else some (a - 1, a - 1, a, b)

/-- Carries out the rest of the sequences; gives the output, the literals left and the distances. -/
def runSequences? (tables : SequenceTables) (fuel : Nat) (states : SequenceStates)
    (literals : Bytes) (output : Array UInt8) (recent : Nat × Nat × Nat) (bits : Bits) :
    Option (Array UInt8 × Bytes × (Nat × Nat × Nat)) :=
  match fuel with
  | 0 => if bits.isEmpty then some (output, literals, recent) else none
  | fuel + 1 => do
    let l := tables.length.state states.length
    let d := tables.distance.state states.distance
    let m := tables.copies.state states.copies
    let (lengthBase, lengthBits) ← lengthCodes[l.symbol]?
    let (matchBase, matchBits) ← matchCodes[m.symbol]?
    let (extra, bits) ← readBits? d.symbol bits
    let value := (1 <<< d.symbol) + extra
    let (extra, bits) ← readBits? matchBits bits
    let copies := matchBase + extra
    let (extra, bits) ← readBits? lengthBits bits
    let length := lengthBase + extra
    let (states, bits) ←
      if fuel = 0 then some (states, bits)
      else do
        let (nextLength, bits) ← readBits? l.bits bits
        let (nextMatch, bits) ← readBits? m.bits bits
        let (nextDistance, bits) ← readBits? d.bits bits
        pure ((⟨l.base + nextLength, d.base + nextDistance, m.base + nextMatch⟩ : SequenceStates),
          bits)
    let (distance, recent) ← resolveDistance? value length recent
    let (run, literals) ← Bytes.splitAt? literals length
    let output := output ++ run.toArray
    if output.size < distance then none
    else runSequences? tables fuel states literals (repeatFrom distance copies output) recent bits

/-- Decodes a compressed block. -/
def decodeBlock? (context : Context) (bytes : Bytes) : Option Context := do
  let (literals, literalTable, rest) ← readLiterals? context.literalTable bytes
  let context := { context with literalTable }
  let (count, rest) ← readCount? rest
  if count = 0 then
    if rest.isEmpty then return { context with output := context.output ++ literals.toArray }
    else none
  else
    match rest with
    | [] => none
    | modes :: rest =>
      let mode := fun shift => modes.toNat / shift % 4
      if modes.toNat % 4 ≠ 0 then none
      else
        let (length, rest) ← readMode? (mode 64) 9 36 defaultLengthTable context.lengthTable rest
        let (distance, rest) ←
          readMode? (mode 16) 8 32 defaultDistanceTable context.distanceTable rest
        let (copies, rest) ← readMode? (mode 4) 9 53 defaultMatchTable context.matchTable rest
        let bits ← backwardBits? rest
        let (firstLength, bits) ← readBits? length.log bits
        let (firstDistance, bits) ← readBits? distance.log bits
        let (firstMatch, bits) ← readBits? copies.log bits
        let (output, literals, recent) ← runSequences? ⟨length, distance, copies⟩ count
          ⟨firstLength, firstDistance, firstMatch⟩ literals context.output context.recent bits
        return { context with
          output := output ++ literals.toArray
          lengthTable := some length
          distanceTable := some distance
          matchTable := some copies
          recent }

end DocIndex.Codec.Zstd
