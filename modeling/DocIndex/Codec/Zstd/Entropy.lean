/-
Bit streams and the two entropy codes of Zstandard.

A stream that was written backwards becomes the list of its bits in the order in which they
are read, so that reading is taking from the front.  A finite state code is a table of
states, each with a symbol and the way to the next state; a prefix code is a table over the
next few bits.  Both tables are laid out from what their descriptions give: counts of states
for each symbol, or a weight for each symbol.
-/
import DocIndex.Data.Bytes

namespace DocIndex.Codec.Zstd

/-- Bits in the order in which they are read. -/
abbrev Bits := List Bool

/-- The number that bits write, most significant first. -/
def bitsValue (bits : Bits) : Nat := bits.foldl (fun n b => 2 * n + b.toNat) 0

/-- Reads so many bits as a number, most significant first. -/
def readBits? (count : Nat) (bits : Bits) : Option (Nat × Bits) :=
  let found := bits.take count
  if found.length < count then none else some (bitsValue found, bits.drop count)

/-- The bits of a byte, least significant first. -/
def bitsUp (b : UInt8) : Bits := (List.range 8).map fun i => b.toNat.testBit i

/-- The bits of a stream that was written backwards, without the mark at its end. -/
def backwardBits? (bytes : Bytes) : Option Bits :=
  match (bytes.reverse.flatMap fun b => (bitsUp b).reverse).span (!·) with
  | (zeros, _ :: bits) => if zeros.length < 8 then some bits else none
  | (_, []) => none

/-! ### Finite state codes -/

/-- A state: its symbol, and the next state as a number of bits added to a base. -/
structure State where
  symbol : Nat
  bits : Nat
  base : Nat
deriving Inhabited

/-- A finite state code with `2 ^ log` states. -/
structure StateTable where
  log : Nat
  states : Array State

namespace StateTable

/-- The code that gives one symbol without using bits. -/
def constant (symbol : Nat) : StateTable := ⟨0, #[⟨symbol, 0, 0⟩]⟩

/-- The symbols of the states: rare ones at the top, the others spread over the rest. -/
def spread (log : Nat) (counts : List Int) : Array Nat :=
  let size := 1 <<< log
  let rare := (counts.zipIdx.filter fun (n, _) => n = -1).map Prod.snd
  let high := size - rare.length
  let step := size / 2 + size / 8 + 3
  let places := ((List.range size).map fun i => i * step % size).filter (· < high)
  let symbols := counts.zipIdx.flatMap fun (n, symbol) => List.replicate n.toNat symbol
  let table := (rare.zipIdx).foldl (fun (t : Array Nat) (symbol, i) =>
    t.setIfInBounds (size - 1 - i) symbol) (Array.replicate size 0)
  (places.zip symbols).foldl (fun t (place, symbol) => t.setIfInBounds place symbol) table

/-- The code in which each symbol has so many states; minus one stands for a rare symbol. -/
def ofCounts (log : Nat) (counts : List Int) : StateTable :=
  let size := 1 <<< log
  let start := (counts.map fun n => n.natAbs).toArray
  let (states, _) := (spread log counts).foldl
    (fun (states, next) symbol =>
      let n := next.getD symbol 1
      let bits := log - Nat.log2 n
      (states.push ⟨symbol, bits, (n <<< bits) - size⟩, next.setIfInBounds symbol (n + 1)))
    ((#[] : Array State), start)
  ⟨log, states⟩

/-- The state with a number. -/
def state (t : StateTable) (n : Nat) : State := t.states.getD n default

end StateTable

/-- Reads so many bits as a number, least significant first. -/
def readUp? (count : Nat) (bits : Bits) : Option (Nat × Bits) :=
  let found := bits.take count
  if found.length < count then none else some (bitsValue found.reverse, bits.drop count)

/-- Reads how many more symbols have no states, in groups of at most three. -/
def readZeros? : Nat → Bits → Option (Nat × Bits)
  | 0, _ => none
  | fuel + 1, bits => do
    let (n, bits) ← readUp? 2 bits
    if n = 3 then
      let (more, bits) ← readZeros? fuel bits
      return (3 + more, bits)
    else return (n, bits)

/-- Reads the counts of states until `remaining` of them are given out. -/
def readCounts? (fuel remaining : Nat) (bits : Bits) : Option (List Int × Bits) :=
  match fuel, remaining with
  | _, 0 => some ([], bits)
  | 0, _ => none
  | fuel + 1, remaining => do
    let width := Nat.log2 (remaining + 1) + 1
    let (wide, _) ← readUp? width (bits ++ List.replicate width false)
    let half := 1 <<< (width - 1)
    let threshold := (1 <<< width) - 1 - (remaining + 1)
    let short := wide % half < threshold
    let value := if short then wide % half else if half ≤ wide then wide - threshold else wide
    let used := if short then width - 1 else width
    if bits.length < used then none
    else
      let bits := bits.drop used
      let count : Int := (value : Int) - 1
      if remaining < count.natAbs then none
      else if count = 0 then
        let (zeros, bits) ← readZeros? bits.length bits
        let (counts, bits) ← readCounts? fuel remaining bits
        return (0 :: List.replicate zeros 0 ++ counts, bits)
      else
        let (counts, bits) ← readCounts? fuel (remaining - count.natAbs) bits
        return (count :: counts, bits)

/-- Reads the description of a finite state code; the bytes after it are left. -/
def readStateTable? (maxLog maxSymbols : Nat) (bytes : Bytes) : Option (StateTable × Bytes) := do
  let (low, bits) ← readUp? 4 (bytes.flatMap bitsUp)
  let log := low + 5
  if maxLog < log then none
  else
    let (counts, bits) ← readCounts? (2 * maxSymbols + 2) (1 <<< log) bits
    if maxSymbols < counts.length then none
    else return (.ofCounts log counts, bytes.drop (bytes.length - bits.length / 8))

/-! ### Prefix codes -/

/-- A prefix code over `log` bits: for each their value the symbol and its number of bits. -/
structure PrefixTable where
  log : Nat
  entries : Array (Nat × Nat)

namespace PrefixTable

/-- The code in which symbols of greater weight have shorter words; the last weight is implied. -/
def ofWeights? (weights : List Nat) : Option PrefixTable :=
  let sum := weights.foldl (fun sum w => if w = 0 then sum else sum + (1 <<< (w - 1))) 0
  if sum = 0 || weights.any (12 < ·) then none
  else
    let log := Nat.log2 sum + 1
    let left := (1 <<< log) - sum
    let last := Nat.log2 left + 1
    if 1 <<< (last - 1) ≠ left || 12 < log then none
    else
      let all := (weights ++ [last]).zipIdx
      let entries := (List.range log).flatMap fun i =>
        (all.filter fun (w, _) => w = i + 1).flatMap fun (w, symbol) =>
          List.replicate (1 <<< (w - 1)) (symbol, log + 1 - w)
      some ⟨log, entries.toArray⟩

/-- Decodes so many symbols, which have to use up the bits. -/
def decode? (t : PrefixTable) : Nat → Bits → Option Bytes
  | 0, bits => if bits.isEmpty then some [] else none
  | count + 1, bits =>
    let ahead := bits.take t.log
    let value := bitsValue (ahead ++ List.replicate (t.log - ahead.length) false)
    let (symbol, length) := t.entries.getD value (0, 0)
    if length = 0 || bits.length < length then none
    else (decode? t count (bits.drop length)).map fun rest => UInt8.ofNat symbol :: rest

end PrefixTable

/-- Decodes symbols from two states that take turns until the bits run out. -/
def decodeWeights (t : StateTable) (fuel mine other : Nat) (bits : Bits) : List Nat :=
  match fuel with
  | 0 => []
  | fuel + 1 =>
    let state := t.state mine
    match readBits? state.bits bits with
    | some (n, bits) => state.symbol :: decodeWeights t fuel other (state.base + n) bits
    | none => [state.symbol, (t.state other).symbol]

/-- Reads the description of a prefix code; the bytes after it are left. -/
def readPrefixTable? (bytes : Bytes) : Option (PrefixTable × Bytes) := do
  match bytes with
  | [] => none
  | head :: rest =>
    if 128 ≤ head then
      let count := head.toNat - 127
      let (packed, rest) ← Bytes.splitAt? rest ((count + 1) / 2)
      let weights := (packed.flatMap fun b => [b.toNat / 16, b.toNat % 16]).take count
      return (← PrefixTable.ofWeights? weights, rest)
    else
      let (packed, rest) ← Bytes.splitAt? rest head.toNat
      let (table, stream) ← readStateTable? 6 256 packed
      let bits ← backwardBits? stream
      let (first, bits) ← readBits? table.log bits
      let (second, bits) ← readBits? table.log bits
      let weights := decodeWeights table 255 first second bits
      if 255 < weights.length then none else return (← PrefixTable.ofWeights? weights, rest)

end DocIndex.Codec.Zstd
