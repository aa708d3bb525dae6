/-
Reading the front of a text.

A reader gives the value it finds at the front and the text after it, or `none`.
-/
import DocIndex.Number.Integer

namespace DocIndex.Text

/-- Reads one fixed character. -/
def readMark? (mark : Char) : List Char → Option (List Char)
  | [] => none
  | c :: rest => if c == mark then some rest else none

/-- Reads as many digits as there are up to `most`, if there are at least `least`. -/
def readDigits? (least most : Nat) (text : List Char) : Option (Nat × List Char) :=
  let digits := (text.take most).takeWhile Char.isDigit
  if digits.length < least then none else some (numeralValue digits, text.drop digits.length)

end DocIndex.Text
