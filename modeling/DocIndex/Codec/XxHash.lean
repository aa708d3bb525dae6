/-
The 64-bit xxHash of a byte string, with seed zero.

Stripes of 32 bytes feed four accumulators, which are then merged; what is left goes in by
eight bytes, by four, and by one.  All arithmetic is modulo `2 ^ 64`.
-/
import DocIndex.Data.Bytes

namespace DocIndex.Codec.XxHash

def prime1 : UInt64 := 0x9E3779B185EBCA87
def prime2 : UInt64 := 0xC2B2AE3D27D4EB4F
def prime3 : UInt64 := 0x165667B19E3779F9
def prime4 : UInt64 := 0x85EBCA77C2B2AE63
def prime5 : UInt64 := 0x27D4EB2F165667C5

/-- Rotates a word to the left. -/
def rotate (x : UInt64) (count : UInt64) : UInt64 := (x <<< count) ||| (x >>> (64 - count))

/-- One lane of an accumulator. -/
def round (acc lane : UInt64) : UInt64 := rotate (acc + lane * prime2) 31 * prime1

/-- The word that eight bytes or fewer write. -/
def word (bytes : Bytes) : UInt64 := UInt64.ofNat (Bytes.ofLittleEndian bytes)

/-- The four accumulators. -/
structure Lanes where
  a : UInt64
  b : UInt64
  c : UInt64
  d : UInt64

namespace Lanes

def start : Lanes := ⟨prime1 + prime2, prime2, 0, 0 - prime1⟩

/-- Takes in a stripe of 32 bytes. -/
def step (l : Lanes) (stripe : Bytes) : Lanes :=
  ⟨round l.a (word (stripe.take 8)), round l.b (word ((stripe.drop 8).take 8)),
   round l.c (word ((stripe.drop 16).take 8)), round l.d (word ((stripe.drop 24).take 8))⟩

/-- Takes in as many stripes as the fuel says; gives the bytes after them. -/
def steps : Nat → Lanes → Bytes → Lanes × Bytes
  | 0, l, bytes => (l, bytes)
  | n + 1, l, bytes => steps n (l.step (bytes.take 32)) (bytes.drop 32)

def mergeLane (acc lane : UInt64) : UInt64 := (acc ^^^ round 0 lane) * prime1 + prime4

def merged (l : Lanes) : UInt64 :=
  let sum := rotate l.a 1 + rotate l.b 7 + rotate l.c 12 + rotate l.d 18
  mergeLane (mergeLane (mergeLane (mergeLane sum l.a) l.b) l.c) l.d

end Lanes

/-- Takes in what is left after the stripes. -/
def finish (fuel : Nat) (h : UInt64) (bytes : Bytes) : UInt64 :=
  match fuel, bytes with
  | 0, _ => h
  | _, [] => h
  | fuel + 1, b :: rest =>
    if 8 ≤ bytes.length then
      finish fuel (rotate (h ^^^ round 0 (word (bytes.take 8))) 27 * prime1 + prime4) (bytes.drop 8)
    else if 4 ≤ bytes.length then
      let mixed := rotate (h ^^^ (word (bytes.take 4) * prime1)) 23 * prime2 + prime3
      finish fuel mixed (bytes.drop 4)
    else finish fuel (rotate (h ^^^ (word [b] * prime5)) 11 * prime1) rest

/-- The hash of a byte string. -/
def hash (bytes : Bytes) : UInt64 :=
  let n := bytes.length
  let (lanes, rest) := Lanes.start.steps (n / 32) bytes
  let h := (if n < 32 then prime5 else lanes.merged) + UInt64.ofNat n
  let h := finish rest.length h rest
  let h := (h ^^^ (h >>> 33)) * prime2
  let h := (h ^^^ (h >>> 29)) * prime3
  h ^^^ (h >>> 32)

end DocIndex.Codec.XxHash
