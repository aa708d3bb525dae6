/-
Binary floating point numbers of 64 bits.

A number is its bit pattern, so equality of values of the type tells `0.0` from `-0.0` and
one NaN from another; `order?` is the comparison of the numbers meant.  A finite number is
`mantissa * 2 ^ exponent`, and everything is computed from that in exact arithmetic and
rounded once, to the nearest representable number with ties to the even mantissa, by
`ofRatio`.
-/

namespace DocIndex

/-- A binary64 number, given by its bit pattern. -/
structure Double where
  bits : UInt64
deriving DecidableEq

namespace Double

/-- The bit pattern with only the sign bit, `2 ^ 63`. -/
def signUnit : Nat := 0x8000000000000000

/-- The bit pattern with only the lowest bit of the exponent field, `2 ^ 52`. -/
def exponentUnit : Nat := 0x10000000000000

/-- Whether the sign bit is set. -/
def negative (x : Double) : Bool := signUnit ≤ x.bits.toNat

/-- The bits below the sign, which order the numbers of one sign by magnitude. -/
def magnitude (x : Double) : Nat := x.bits.toNat % signUnit

/-- The biased exponent: 0 for zero and the subnormal numbers, 2047 for infinity and NaN. -/
def exponentField (x : Double) : Nat := x.magnitude / exponentUnit

/-- The bits after the leading one of the mantissa. -/
def fractionField (x : Double) : Nat := x.bits.toNat % exponentUnit

/-- The magnitude of infinity; a larger one is a NaN. -/
def infiniteMagnitude : Nat := 2047 * exponentUnit

/-- The number with the given sign and magnitude bits. -/
def ofMagnitude (negative : Bool) (magnitude : Nat) : Double :=
  ⟨UInt64.ofNat (magnitude + if negative then signUnit else 0)⟩

def isNaN (x : Double) : Bool := infiniteMagnitude < x.magnitude

def isInfinite (x : Double) : Bool := x.magnitude == infiniteMagnitude

def isFinite (x : Double) : Bool := x.magnitude < infiniteMagnitude

def zero : Double := ofMagnitude false 0

def infinity (negative : Bool) : Double := ofMagnitude negative infiniteMagnitude

def nan : Double := ofMagnitude false (infiniteMagnitude + exponentUnit / 2)

/-- The same number with the opposite sign. -/
def neg (x : Double) : Double := ofMagnitude (!x.negative) x.magnitude

/-- The integer that a finite number's absolute value is a power of two times. -/
def mantissa (x : Double) : Nat :=
  if x.exponentField = 0 then x.fractionField else exponentUnit + x.fractionField

/-- The exponent of that power of two. -/
def exponent (x : Double) : Int := (max 1 x.exponentField : Nat) - 1075

/-- `2 ^ e` for a nonnegative `e`, and 1 for the others. -/
def twoTo (e : Int) : Nat := Nat.pow 2 e.toNat

/-- The numerator of a finite number's absolute value over `denominator`. -/
def numerator (x : Double) : Nat := x.mantissa * twoTo x.exponent

/-- A power of two over which a finite number's absolute value is an integer. -/
def denominator (x : Double) : Nat := twoTo (-x.exponent)

/-- The integer nearest to `num / den`, the even one of two. -/
def roundToEven (num den : Nat) : Nat :=
  let quotient := num / den
  let twice := 2 * (num % den)
  if twice < den then quotient
  else if den < twice then quotient + 1
  else quotient + quotient % 2

/--
The exponent of the unit in the last place of `num / den`: with it the quotient has 53 bits
before the point, or fewer if the exponent is already the least one.
-/
def unitExponent (num den : Nat) : Int :=
  let guess : Int := max ((Nat.log2 num : Int) - Nat.log2 den - 53) (-1074)
  if 2 * exponentUnit * den * twoTo guess ≤ num * twoTo (-guess) then guess + 1 else guess

/--
The number nearest to `num / den` with the given sign.  A mantissa that rounds up to the next
power of two carries into the exponent field by itself.
-/
def ofRatio (negative : Bool) (num den : Nat) : Double :=
  if num = 0 then ofMagnitude negative 0
  else
    let unit := unitExponent num den
    let mantissa := roundToEven (num * twoTo (-unit)) (den * twoTo unit)
    let magnitude := (unit + 1074).toNat * exponentUnit + mantissa
    ofMagnitude negative (min magnitude infiniteMagnitude)

/-- The number nearest to an integer. -/
def ofInt (n : Int) : Double := ofRatio (n < 0) n.natAbs 1

/-- Multiplication, rounded to nearest. -/
def mul (x y : Double) : Double :=
  let negative := x.negative != y.negative
  if x.isNaN || y.isNaN then nan
  else if x.isInfinite || y.isInfinite then
    if x.magnitude == 0 || y.magnitude == 0 then nan else infinity negative
  else ofRatio negative (x.numerator * y.numerator) (x.denominator * y.denominator)

/-- Division, rounded to nearest. -/
def div (x y : Double) : Double :=
  let negative := x.negative != y.negative
  if x.isNaN || y.isNaN then nan
  else if x.isInfinite then if y.isInfinite then nan else infinity negative
  else if y.isInfinite then ofMagnitude negative 0
  else if y.magnitude == 0 then if x.magnitude == 0 then nan else infinity negative
  else ofRatio negative (x.numerator * y.denominator) (x.denominator * y.numerator)

/-- An integer that orders all numbers but NaN, with one value for both zeros. -/
def orderKey (x : Double) : Int :=
  if x.negative then -(x.magnitude : Int) else x.magnitude

/-- The order of two numbers; a NaN is comparable with nothing. -/
def order? (x y : Double) : Option Ordering :=
  if x.isNaN || y.isNaN then none else some (compare x.orderKey y.orderKey)

/-- Numeric equality: the zeros are equal, and a NaN equals nothing. -/
def same (x y : Double) : Bool := x.order? y == some .eq

/-- The integer that a number is, if it is one. -/
def toInt? (x : Double) : Option Int :=
  if x.isFinite && x.numerator % x.denominator == 0 then
    let quotient : Int := ((x.numerator / x.denominator : Nat) : Int)
    some (if x.negative then -quotient else quotient)
  else none

end Double

end DocIndex
