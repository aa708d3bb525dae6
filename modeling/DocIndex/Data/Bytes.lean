/-
Byte strings, their little endian numbers, the text they hold and their hexadecimal digits.

`littleEndian width n` writes `n` modulo `256 ^ width`, and `ofLittleEndian` reads any byte
string as a number, so reading back what was written gives the number for every width it
fits into.
-/

namespace DocIndex

/-- A string of bytes: the content of a file or of a stored field. -/
abbrev Bytes := List UInt8

namespace Bytes

/-- The bytes of `n`, least significant first, `width` of them. -/
def littleEndian : Nat → Nat → Bytes
  | 0, _ => []
  | width + 1, n => UInt8.ofNat n :: littleEndian width (n / 256)

/-- The number whose bytes, least significant first, are given. -/
def ofLittleEndian : Bytes → Nat
  | [] => 0
  | b :: rest => b.toNat + 256 * ofLittleEndian rest

/-- The UTF-8 form of a text. -/
def ofText (text : String) : Bytes := text.toUTF8.data.toList

/-- The text that is written by well-formed UTF-8. -/
def toText? (bytes : Bytes) : Option String := String.fromUTF8? ⟨bytes.toArray⟩

/-- The first `count` bytes and the rest, if there are so many. -/
def splitAt? (bytes : Bytes) (count : Nat) : Option (Bytes × Bytes) :=
  if count ≤ bytes.length then some (bytes.take count, bytes.drop count) else none

end Bytes

/-! ### Hexadecimal digits -/

namespace Hex

/-- The lower case digit of a number below sixteen. -/
def digit (n : Nat) : Char := if n < 10 then Char.ofNat (48 + n) else Char.ofNat (87 + n)

/-- The value of a lower case digit. -/
def value? (c : Char) : Option Nat :=
  if c.isDigit then some (c.toNat - 48)
  else if 'a' ≤ c && c ≤ 'f' then some (c.toNat - 87)
  else none

/-- Two digits for every byte. -/
def encode (bytes : Bytes) : String :=
  String.ofList (bytes.flatMap fun b => [digit (b.toNat / 16), digit (b.toNat % 16)])

/-- The bytes that pairs of digits write. -/
def decodeDigits? : List Char → Option Bytes
  | [] => some []
  | [_] => none
  | a :: b :: rest => do
    let byte := UInt8.ofNat ((← value? a) * 16 + (← value? b))
    return byte :: (← decodeDigits? rest)

def decode? (text : String) : Option Bytes := decodeDigits? text.toList

/-- The digits of a word, most significant first. -/
def ofWord (word : UInt64) : String := encode (Bytes.littleEndian 8 word.toNat).reverse

end Hex

end DocIndex
