/-
Identifiers for what comes without a name of its own.

An identifier is a number in at least 32 hexadecimal digits, grouped by hyphens.  Numbers
are handed out in order, and different numbers have different identifiers.
-/
import DocIndex.Data.Bytes

namespace DocIndex

/-- The number of the next identifier that was not handed out yet. -/
abbrev IdentifierSupply := Nat

namespace Identifier

/-- The digits of a number, with zeros in front. -/
def digits (n : Nat) : List Char :=
  let written := Nat.toDigits 16 n
  List.replicate (32 - written.length) '0' ++ written

/-- Digits with a hyphen after each group of a given size, and the rest at the end. -/
def grouped : List Nat → List Char → List Char
  | [], rest => rest
  | size :: sizes, rest => rest.take size ++ '-' :: grouped sizes (rest.drop size)

/-- The identifier of a number. -/
def ofNat (n : Nat) : String := String.ofList (grouped [8, 4, 4, 4] (digits n))

/-- Whether a character has the form of the character of an identifier at a place. -/
def fits (place : Nat) (c : Char) : Bool :=
  if [8, 13, 18, 23].contains place then c == '-' else (Hex.value? c).isSome

/-- How many characters the identifiers of numbers below `16 ^ 32` have. -/
def length : Nat := 36

/-- Whether characters begin with the form of an identifier. -/
def leads (text : List Char) : Bool :=
  let front := text.take length
  front.length == length && front.zipIdx.all fun (c, place) => fits place c

end Identifier

end DocIndex
