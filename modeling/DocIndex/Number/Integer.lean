/-
Reading and range of the fixed-width integers.

Integers are kept as `Int` and `Nat`; `fitsInt64` and the readers say which of them a 64-bit
word can hold.  A numeral is one or more ASCII digits, with leading zeros allowed.
-/

namespace DocIndex

/-- The largest signed 64-bit integer. -/
def int64Max : Int := 9223372036854775807

/-- The least signed 64-bit integer. -/
def int64Min : Int := -9223372036854775808

/-- The largest unsigned 64-bit integer. -/
def uint64Max : Nat := 18446744073709551615

/-- Whether an integer fits a signed 64-bit word. -/
def fitsInt64 (n : Int) : Bool := int64Min ≤ n && n ≤ int64Max

/-- The nearest signed 64-bit integer. -/
def clampInt64 (n : Int) : Int := max int64Min (min int64Max n)

/-- The value of an ASCII digit. -/
def digitValue (c : Char) : Nat := c.toNat - '0'.toNat

/-- The number that a string of digits writes. -/
def numeralValue (digits : List Char) : Nat :=
  digits.foldl (fun n c => 10 * n + digitValue c) 0

/-- Reads a nonempty string of digits. -/
def readNumeral? (text : List Char) : Option Nat :=
  if !text.isEmpty && text.all Char.isDigit then some (numeralValue text) else none

/-- Reads digits with an optional plus sign, within the unsigned 64-bit range. -/
def readUInt64? (text : List Char) : Option Nat :=
  let digits := match text with
    | '+' :: rest => rest
    | _ => text
  (readNumeral? digits).filter (· ≤ uint64Max)

/-- Reads digits with an optional sign, within the signed 64-bit range. -/
def readInt64? (text : List Char) : Option Int :=
  let value? : Option Int := match text with
    | '-' :: rest => (readNumeral? rest).map fun n => -(n : Int)
    | '+' :: rest => (readNumeral? rest).map fun n => (n : Int)
    | _ => (readNumeral? text).map fun n => (n : Int)
  value?.filter fitsInt64

end DocIndex
