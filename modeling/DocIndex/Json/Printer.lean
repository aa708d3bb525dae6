/-
JSON text of values: on one line without blanks, or with a line for each item and member.

Doubles are written with the fewest digits that read back, in full while the point lies
within the first sixteen places or a few zeros before the first digit, and always so that
they do not look like an integer.
-/
import DocIndex.Data.Bytes
import DocIndex.Json.Value
import DocIndex.Number.Decimal

namespace DocIndex.Json

/-- The layout of doubles in JSON text. -/
def numberLayout : Decimal.Layout where
  positional point := -5 < point && point ≤ 16
  wholeSuffix := ".0"

/-- JSON text of a double; JSON has no infinities and no NaN. -/
def writeDouble (x : Double) : String :=
  if x.isFinite then x.write numberLayout else "null"

/-- A character as it stands inside quotes. -/
def escapeChar (c : Char) : List Char :=
  if c == '\x22' then ['\\', '\x22']
  else if c == '\\' then ['\\', '\\']
  else if c == '\x08' then ['\\', 'b']
  else if c == '\x0c' then ['\\', 'f']
  else if c == '\n' then ['\\', 'n']
  else if c == '\r' then ['\\', 'r']
  else if c == '\t' then ['\\', 't']
  else if c.toNat < 0x20 then
    ['\\', 'u', '0', '0', Hex.digit (c.toNat / 16), Hex.digit (c.toNat % 16)]
  else [c]

/-- A text in quotes. -/
def quote (text : String) : String :=
  String.ofList ('\x22' :: text.toList.flatMap escapeChar ++ ['\x22'])

mutual

/-- JSON text without blanks. -/
def write : Json → String
  | null => "null"
  | bool true => "true"
  | bool false => "false"
  | int n => toString n
  | double x => writeDouble x
  | text s => quote s
  | array items => "[" ++ writeItems items ++ "]"
  | object members => "\x7b" ++ writeMembers members ++ "\x7d"

/-- The items of an array, separated by commas. -/
def writeItems : List Json → String
  | [] => ""
  | [item] => write item
  | item :: rest => write item ++ "," ++ writeItems rest

/-- The members of an object, separated by commas. -/
def writeMembers : List (String × Json) → String
  | [] => ""
  | [(key, value)] => quote key ++ ":" ++ write value
  | (key, value) :: rest => quote key ++ ":" ++ write value ++ "," ++ writeMembers rest

end

/-- A line break and the blanks of an indented line. -/
def newLine (indent : Nat) : String := String.ofList ('\n' :: List.replicate (2 * indent) ' ')

mutual

/-- JSON text with two blanks of indentation for each level, starting at the given one. -/
def writeIndented (indent : Nat) : Json → String
  | array [] => "[]"
  | array items => "[" ++ writeItemLines (indent + 1) items ++ newLine indent ++ "]"
  | object [] => "\x7b\x7d"
  | object members => "\x7b" ++ writeMemberLines (indent + 1) members ++ newLine indent ++ "\x7d"
  | null => "null"
  | bool true => "true"
  | bool false => "false"
  | int n => toString n
  | double x => writeDouble x
  | text s => quote s

/-- The items of an array, a line each. -/
def writeItemLines (indent : Nat) : List Json → String
  | [] => ""
  | [item] => newLine indent ++ writeIndented indent item
  | item :: rest => newLine indent ++ writeIndented indent item ++ "," ++ writeItemLines indent rest

/-- The members of an object, a line each. -/
def writeMemberLines (indent : Nat) : List (String × Json) → String
  | [] => ""
  | [(key, value)] => newLine indent ++ quote key ++ ": " ++ writeIndented indent value
  | (key, value) :: rest =>
    newLine indent ++ quote key ++ ": " ++ writeIndented indent value ++ "," ++
      writeMemberLines indent rest

end

end DocIndex.Json
