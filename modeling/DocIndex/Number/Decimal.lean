/-
Decimal text of binary numbers.

`Decimal.shortest` chooses, among the decimals that read back as the given number, one with
the fewest digits, and of those the nearest.  For each number of digits the grid of decimals
with that many digits has two points next to the number, and no other point of the grid can
read back if neither of them does.  How digits and exponent are laid out is a `Layout`.

In the other direction `Double.ofDecimal` rounds a decimal once, and `Double.ofText?` reads
the usual notation.
-/
import DocIndex.Number.Double
import DocIndex.Number.Integer

namespace DocIndex

/-- The number `digits * 10 ^ exponent`. -/
structure Decimal where
  digits : Nat
  exponent : Int

namespace Decimal

/-- `10 ^ e` for a nonnegative `e`, and 1 for the others. -/
def tenTo (e : Int) : Nat := Nat.pow 10 e.toNat

/-- How many decimal digits a number has. -/
def digitCount (n : Nat) : Nat := (Nat.toDigits 10 n).length

/-- Moves up to `fuel` trailing zeros of the digits into the exponent. -/
def dropZeros : Nat → Decimal → Decimal
  | 0, d => d
  | fuel + 1, d =>
    if d.digits % 10 = 0 && d.digits ≠ 0 then dropZeros fuel ⟨d.digits / 10, d.exponent + 1⟩ else d

/-- The exponent of the leading digit of `num / den`, for quotients above `10 ^ -330`. -/
def leadingExponent (num den : Nat) : Int :=
  (digitCount (num * tenTo 330 / den) : Int) - 1 - 330

/--
The decimals next to a finite positive number `x` on the grid of multiples of `10 ^ e` that
read back as `x`, the nearer one first.
-/
def readingBack? (x : Double) (e : Int) : Option Decimal :=
  let m := x.mantissa
  let unit := x.exponent - 2
  -- Sides of a comparison with `c * 10 ^ e` and with `v * 2 ^ unit`, made integers alike.
  let grid := fun c : Nat => c * tenTo e * Double.twoTo (-unit)
  let point := fun v : Nat => v * Double.twoTo unit * tenTo (-e)
  let value := point (4 * m)
  let upper := point (4 * m + 2)
  let lower := point (if m = Double.exponentUnit && 1 < x.exponentField then 4 * m - 1 else 4 * m - 2)
  let inside := fun c : Nat =>
    if m % 2 = 0 then lower ≤ grid c && grid c ≤ upper else lower < grid c && grid c < upper
  let below := value / grid 1
  let above := below + 1
  let belowNearer : Bool :=
    let toBelow := value - grid below
    let toAbove := grid above - value
    toBelow < toAbove || (toBelow == toAbove && below % 2 == 0)
  match inside below, inside above with
  | true, true => some ⟨if belowNearer then below else above, e⟩
  | true, false => some ⟨below, e⟩
  | false, true => some ⟨above, e⟩
  | false, false => none

/-- The shortest decimal that reads back as a finite positive number. -/
def shortest (x : Double) : Decimal :=
  let leading := leadingExponent x.numerator x.denominator
  let found := (List.range 17).findSome? fun n : Nat => readingBack? x (leading - n)
  dropZeros 17 (found.getD ⟨0, 0⟩)

/-- How a decimal is written out. -/
structure Layout where
  /-- Whether a number whose point stands after so many of its digits is written in full. -/
  positional : Int → Bool
  /-- What follows a number without fraction that is written in full. -/
  wholeSuffix : String

/-- Writes a positive decimal; an exponent always has a sign. -/
def write (layout : Layout) (d : Decimal) : String :=
  let digits := Nat.toDigits 10 d.digits
  let point : Int := digits.length + d.exponent
  let zeros := fun n : Int => List.replicate n.toNat '0'
  if layout.positional point then
    if 0 ≤ d.exponent then String.ofList (digits ++ zeros d.exponent) ++ layout.wholeSuffix
    else if 0 < point then
      String.ofList (digits.take point.toNat ++ '.' :: digits.drop point.toNat)
    else String.ofList ('0' :: '.' :: zeros (-point) ++ digits)
  else
    let fraction := if digits.length ≤ 1 then [] else '.' :: digits.drop 1
    let sign := if 1 ≤ point then "+" else ""
    String.ofList (digits.take 1 ++ fraction) ++ "e" ++ sign ++ toString (point - 1)

end Decimal

namespace Double

/-- Writes a finite number. -/
def write (layout : Decimal.Layout) (x : Double) : String :=
  (if x.negative then "-" else "") ++
    if x.magnitude = 0 then "0" ++ layout.wholeSuffix else (Decimal.shortest x).write layout

/--
The number nearest to `digits * 10 ^ exponent`.  Decimals far outside the range are decided
without computing the power.
-/
def ofDecimal (negative : Bool) (digits : Nat) (exponent : Int) : Double :=
  if digits = 0 then ofMagnitude negative 0
  else
    let leading := exponent + Decimal.digitCount digits
    if 400 < leading then infinity negative
    else if leading < -400 then ofMagnitude negative 0
    else ofRatio negative (digits * Decimal.tenTo exponent) (Decimal.tenTo (-exponent))

/-- Reads the exponent part of a numeral: nothing, or `e`, an optional sign and digits. -/
def readExponent? (text : List Char) : Option Int :=
  match text with
  | [] => some 0
  | mark :: rest =>
    if mark == 'e' || mark == 'E' then
      match rest with
      | '-' :: digits => (readNumeral? digits).map fun n => -(n : Int)
      | '+' :: digits => (readNumeral? digits).map fun n => (n : Int)
      | digits => (readNumeral? digits).map fun n => (n : Int)
    else none

/--
Reads a number: an optional sign, then `inf`, `infinity` or `nan` in any case, or digits with
at most one point among them and an optional exponent.
-/
def ofText? (text : List Char) : Option Double :=
  let (negative, body) := match text with
    | '-' :: rest => (true, rest)
    | '+' :: rest => (false, rest)
    | _ => (false, text)
  let word := String.ofList (body.map Char.toLower)
  if word == "inf" || word == "infinity" then some (infinity negative)
  else if word == "nan" then some (ofMagnitude negative nan.magnitude)
  else
    let whole := body.takeWhile Char.isDigit
    let afterWhole := body.dropWhile Char.isDigit
    let (fraction, rest) := match afterWhole with
      | '.' :: more => (more.takeWhile Char.isDigit, more.dropWhile Char.isDigit)
      | _ => ([], afterWhole)
    if whole.isEmpty && fraction.isEmpty then none
    else (readExponent? rest).map fun e =>
      ofDecimal negative (numeralValue (whole ++ fraction)) (e - fraction.length)

end Double

end DocIndex
