/-
Records: values written one after the other without separators.

Numbers have a fixed width, least significant byte first.  A text, a string of bytes and a
list begin with their length in eight bytes, and a choice begins with the number of the
alternative in four.  Reading takes a value off the front and fails if the bytes end early or
have an impossible form.
-/
import DocIndex.Data.Bytes
import DocIndex.Number.Double

namespace DocIndex.Storage.Record

/-- A reader of a value at the front of bytes. -/
abbrev Reader (α : Type) := Bytes → Option (α × Bytes)

/-- Reads a number of so many bytes. -/
def readNat (width : Nat) : Reader Nat := fun bytes =>
  (bytes.splitAt? width).map fun (number, rest) => (Bytes.ofLittleEndian number, rest)

/-- The length of something. -/
def writeLength (n : Nat) : Bytes := Bytes.littleEndian 8 n

def readLength : Reader Nat := readNat 8

/-- The number of an alternative. -/
def writeChoice (n : Nat) : Bytes := Bytes.littleEndian 4 n

def readChoice : Reader Nat := readNat 4

def writeBytes (bytes : Bytes) : Bytes := writeLength bytes.length ++ bytes

def readBytes : Reader Bytes := fun bytes =>
  match readLength bytes with
  | some (length, rest) => rest.splitAt? length
  | none => none

def writeText (text : String) : Bytes := writeBytes (Bytes.ofText text)

def readText : Reader String := fun bytes =>
  match readBytes bytes with
  | some (content, rest) => (Bytes.toText? content).map fun text => (text, rest)
  | none => none

def writeBool (b : Bool) : Bytes := [if b then 1 else 0]

def readBool : Reader Bool := fun bytes =>
  match bytes with
  | 0 :: rest => some (false, rest)
  | 1 :: rest => some (true, rest)
  | _ => none

/-- A signed integer as its remainder modulo `2 ^ 64`. -/
def writeInt (n : Int) : Bytes := Bytes.littleEndian 8 (n % 0x10000000000000000).toNat

def readInt : Reader Int := fun bytes =>
  (readNat 8 bytes).map fun (n, rest) => (if n < 0x8000000000000000 then (n : Int) else n - 0x10000000000000000, rest)

def writeDouble (x : Double) : Bytes := Bytes.littleEndian 8 x.bits.toNat

def readDouble : Reader Double := fun bytes =>
  (readNat 8 bytes).map fun (n, rest) => (⟨UInt64.ofNat n⟩, rest)

/-- The items of a list one after the other. -/
def writeItems {α : Type} (write : α → Bytes) (items : List α) : Bytes := items.flatMap write

/-- Reads so many items. -/
def readItems {α : Type} (read : Reader α) : Nat → Reader (List α)
  | 0, bytes => some ([], bytes)
  | count + 1, bytes =>
    match read bytes with
    | some (item, rest) =>
      (readItems read count rest).map fun (items, rest) => (item :: items, rest)
    | none => none

def writeList {α : Type} (write : α → Bytes) (items : List α) : Bytes :=
  writeLength items.length ++ writeItems write items

def readList {α : Type} (read : Reader α) : Reader (List α) := fun bytes =>
  match readLength bytes with
  | some (count, rest) => readItems read count rest
  | none => none

end DocIndex.Storage.Record
