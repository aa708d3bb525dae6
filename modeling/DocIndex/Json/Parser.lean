/-
Reading JSON text.

`Json.parse?` accepts one value with blanks around it and gives `none` for everything else:
which of its rules a malformed text breaks is not told apart.  A number without fraction and
exponent that fits a 64-bit word is an integer, and any other number, `-0` among them, is a
double.  Doubles are computed the fast way: the digits that fit a 64-bit word are rounded
and then multiplied or divided by a power of ten, so the last bit may be off.  Nesting is
limited to `maxDepth`.
-/
import DocIndex.Json.Value
import DocIndex.Number.Decimal

namespace DocIndex.Json

/-- How many arrays and objects may be open at once. -/
def maxDepth : Nat := 127

/-- The text after the blanks that JSON allows between tokens. -/
def skipBlanks (text : List Char) : List Char :=
  text.dropWhile fun c => c == ' ' || c == '\n' || c == '\t' || c == '\r'

/-- The text after a fixed beginning. -/
def after? (start : List Char) (text : List Char) : Option (List Char) :=
  if start.isPrefixOf text then some (text.drop start.length) else none

/-- The value of a hexadecimal digit of either case. -/
def hexValue? (c : Char) : Option Nat :=
  if c.isDigit then some (c.toNat - 48)
  else if 'a' ≤ c && c ≤ 'f' then some (c.toNat - 87)
  else if 'A' ≤ c && c ≤ 'F' then some (c.toNat - 55)
  else none

/-- Reads four hexadecimal digits. -/
def readUnit? : List Char → Option (Nat × List Char)
  | a :: b :: c :: d :: rest => do
    let a ← hexValue? a
    let b ← hexValue? b
    let c ← hexValue? c
    let d ← hexValue? d
    return (((a * 16 + b) * 16 + c) * 16 + d, rest)
  | _ => none

/-- Reads what follows `\u`: one code unit, or a surrogate pair whose second half is escaped too. -/
def readCodePoint? (text : List Char) : Option (Char × List Char) := do
  let (unit, rest) ← readUnit? text
  if 0xDC00 ≤ unit && unit ≤ 0xDFFF then none
  else if 0xD800 ≤ unit && unit ≤ 0xDBFF then
    let rest ← after? ['\\', 'u'] rest
    let (low, rest) ← readUnit? rest
    if 0xDC00 ≤ low && low ≤ 0xDFFF then
      return (Char.ofNat (0x10000 + (unit - 0xD800) * 0x400 + (low - 0xDC00)), rest)
    else none
  else return (Char.ofNat unit, rest)

/-- Reads the character that an escape after a backslash stands for. -/
def readEscape? : List Char → Option (Char × List Char)
  | '\x22' :: rest => some ('\x22', rest)
  | '\\' :: rest => some ('\\', rest)
  | '/' :: rest => some ('/', rest)
  | 'b' :: rest => some ('\x08', rest)
  | 'f' :: rest => some ('\x0c', rest)
  | 'n' :: rest => some ('\n', rest)
  | 'r' :: rest => some ('\r', rest)
  | 't' :: rest => some ('\t', rest)
  | 'u' :: rest => readCodePoint? rest
  | _ => none

/--
Reads the rest of a text up to its closing quote.  `found` holds the characters read so far,
the last one first; the fuel bounds the number of characters.
-/
def readQuoted? (fuel : Nat) (found : List Char) (text : List Char) :
    Option (String × List Char) :=
  match fuel, text with
  | 0, _ => none
  | _, [] => none
  | fuel + 1, c :: rest =>
    if c == '\x22' then some (String.ofList found.reverse, rest)
    else if c == '\\' then
      match readEscape? rest with
      | some (e, rest) => readQuoted? fuel (e :: found) rest
      | none => none
    else if c.toNat < 0x20 then none
    else readQuoted? fuel (c :: found) rest

/-! ### Numbers -/

/--
The double for `significand * 10 ^ exponent`: the rounded significand times or over a power
of ten that is itself a double, in steps of at most 308 places downwards.
-/
def scale? (negative : Bool) (significand : Nat) (exponent : Int) : Option Double :=
  let power := fun n : Nat => Double.ofDecimal false 1 n
  let base := Double.ofInt significand
  let magnitude? : Option Double :=
    if 0 ≤ exponent then
      if 308 < exponent then if significand = 0 then some base else none
      else
        let scaled := base.mul (power exponent.toNat)
        if scaled.isFinite then some scaled else none
    else
      let down := exponent.natAbs
      -- Four full steps leave nothing of any significand.
      let steps := min ((down - 1) / 308) 4
      let stepped := steps.repeat (fun x => x.div (power 308)) base
      some (if stepped.magnitude = 0 then stepped else stepped.div (power (down - 308 * steps)))
  magnitude?.map fun x => if negative then x.neg else x

/-- The digits kept of a significand: those that fit a 64-bit word, and how many are left over. -/
def keepDigits (significand : Nat) : List Char → Nat × Nat
  | [] => (significand, 0)
  | c :: rest =>
    let next := 10 * significand + digitValue c
    if next ≤ uint64Max then keepDigits next rest else (significand, rest.length + 1)

/-- The exponent that follows a significand, if there is one: its sign and its digits. -/
def readPower? (text : List Char) : Option (Option (Bool × List Char) × List Char) :=
  match text with
  | mark :: rest =>
    if mark == 'e' || mark == 'E' then
      let (negative, rest) := match rest with
        | '+' :: rest => (false, rest)
        | '-' :: rest => (true, rest)
        | _ => (false, rest)
      let digits := rest.takeWhile Char.isDigit
      if digits.isEmpty then none
      else some (some (negative, digits), rest.dropWhile Char.isDigit)
    else some (none, text)
  | [] => some (none, text)

/-- The double with the given significand, exponent and written power of ten. -/
def withPower? (negative : Bool) (significand : Nat) (exponent : Int) :
    Option (Bool × List Char) → Option Double
  | none => scale? negative significand exponent
  | some (down, digits) =>
    let power := numeralValue digits
    if 0x7FFFFFFF < power then
      if significand ≠ 0 && !down then none else some (Double.ofMagnitude negative 0)
    else scale? negative significand (if down then exponent - power else exponent + power)

/-- Reads a number that starts here. -/
def readNumber? (text : List Char) : Option (Json × List Char) := do
  let (negative, text) := match text with
    | '-' :: rest => (true, rest)
    | _ => (false, text)
  let whole := text.takeWhile Char.isDigit
  let rest := text.dropWhile Char.isDigit
  if whole.isEmpty then none
  else if 1 < whole.length && whole.head? == some '0' then none
  else
    let (significand, dropped) := keepDigits 0 whole
    match rest with
    | '.' :: more =>
      let fraction := more.takeWhile Char.isDigit
      if fraction.isEmpty then none
      else
        let (power, rest) ← readPower? (more.dropWhile Char.isDigit)
        let (significand, left) := keepDigits significand fraction
        let x ← withPower? negative significand (dropped - (fraction.length - left : Nat)) power
        return (double x, rest)
    | _ =>
      let (power, rest) ← readPower? rest
      if power.isNone && dropped = 0 then
        if !negative then return (int significand, rest)
        else if significand ≠ 0 && (significand : Int) ≤ 0x8000000000000000 then
          return (int (-(significand : Int)), rest)
        else return (double (Double.ofInt significand).neg, rest)
      else
        let x ← withPower? negative significand dropped power
        return (double x, rest)

/-! ### Values -/

mutual

/-- Reads a value; `depth` more levels may be opened, and the fuel bounds the characters. -/
def readValue? (fuel depth : Nat) (text : List Char) : Option (Json × List Char) :=
  match fuel with
  | 0 => none
  | fuel + 1 =>
    match skipBlanks text with
    | [] => none
    | c :: rest =>
      if c == '\x22' then
        (readQuoted? rest.length [] rest).map fun (s, rest) => (Json.text s, rest)
      else if c == '[' then
        match depth with
        | 0 => none
        | depth + 1 =>
          match skipBlanks rest with
          | ']' :: rest => some (array [], rest)
          | rest => (readItems? fuel depth [] rest).map fun (items, rest) => (array items, rest)
      else if c == '\x7b' then
        match depth with
        | 0 => none
        | depth + 1 =>
          match skipBlanks rest with
          | '\x7d' :: rest => some (object [], rest)
          | rest => (readMembers? fuel depth [] rest).map fun (members, rest) =>
              (object members, rest)
      else if c == 't' then (after? "rue".toList rest).map fun rest => (bool true, rest)
      else if c == 'f' then (after? "alse".toList rest).map fun rest => (bool false, rest)
      else if c == 'n' then (after? "ull".toList rest).map fun rest => (null, rest)
      else readNumber? (c :: rest)

/-- Reads the items of an array from the first one to the closing bracket. -/
def readItems? (fuel depth : Nat) (found : List Json) (text : List Char) :
    Option (List Json × List Char) :=
  match fuel with
  | 0 => none
  | fuel + 1 =>
    match readValue? fuel depth text with
    | none => none
    | some (item, rest) =>
      match skipBlanks rest with
      | ',' :: rest => readItems? fuel depth (item :: found) rest
      | ']' :: rest => some ((item :: found).reverse, rest)
      | _ => none

/-- Reads the members of an object from the first one to the closing brace. -/
def readMembers? (fuel depth : Nat) (found : List (String × Json)) (text : List Char) :
    Option (List (String × Json) × List Char) :=
  match fuel with
  | 0 => none
  | fuel + 1 =>
    match skipBlanks text with
    | '\x22' :: rest =>
      match readQuoted? rest.length [] rest with
      | none => none
      | some (key, rest) =>
        match skipBlanks rest with
        | ':' :: rest =>
          match readValue? fuel depth rest with
          | none => none
          | some (value, rest) =>
            let found := (key, value) :: found
            match skipBlanks rest with
            | ',' :: rest => readMembers? fuel depth found rest
            | '\x7d' :: rest => some (found.reverse, rest)
            | _ => none
        | _ => none
    | _ => none

end

/-- The value that a JSON text writes, with the members of objects as they are written. -/
def parseWritten? (text : String) : Option Json :=
  let chars := text.toList
  match readValue? (chars.length + 1) maxDepth chars with
  | some (value, rest) => if (skipBlanks rest).isEmpty then some value else none
  | none => none

mutual

/-- The value in which the members of every object are a table. -/
def tabulate : Json → Json
  | array items => array (tabulateItems items)
  | object members => ofMembers (tabulateMembers members)
  | null => null
  | bool b => bool b
  | int n => int n
  | double x => double x
  | text s => text s

def tabulateItems : List Json → List Json
  | [] => []
  | item :: rest => tabulate item :: tabulateItems rest

def tabulateMembers : List (String × Json) → List (String × Json)
  | [] => []
  | (key, value) :: rest => (key, tabulate value) :: tabulateMembers rest

end

/-- The value that a JSON text writes. -/
def parse? (text : String) : Option Json := (parseWritten? text).map tabulate

end DocIndex.Json
