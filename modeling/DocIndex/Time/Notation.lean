/-
Reading written instants.

`Moment.ofRfc3339?` reads RFC 3339 notation with an offset.  `Moment.ofLocalText?` reads a
date and time without offset, where the numbers may be shorter than usual, blanks may stand
before each, and the year may have a sign and then any number of digits.
`Moment.ofLooseText?` reads the same numbers with an offset, and with blanks between all
parts.
-/
import DocIndex.Text.CharSet
import DocIndex.Text.Reader
import DocIndex.Time.Moment

namespace DocIndex

open Text (readMark? readDigits?)

namespace Moment

/-- Reads a fraction of a second if a point stands here; further digits are skipped. -/
def readFraction? (text : List Char) : Option (Nat × List Char) :=
  match text with
  | '.' :: rest =>
    let digits := rest.takeWhile Char.isDigit
    if digits.isEmpty then none else some (fractionNanos digits, rest.dropWhile Char.isDigit)
  | _ => some (0, text)

/-- Reads an offset from UTC: `Z`, or a sign, hours, a colon and minutes. -/
def readOffset? (text : List Char) : Option (Int × List Char) :=
  match text with
  | [] => none
  | c :: rest =>
    if c == 'Z' || c == 'z' then some (0, rest)
    else if c == '+' || c == '-' || c == '−' then do
      let (hours, rest) ← readDigits? 2 2 rest
      let rest ← readMark? ':' rest
      let (minutes, rest) ← readDigits? 2 2 rest
      if 59 < minutes then none
      else
        let seconds : Int := (hours * 3600 + minutes * 60 : Nat)
        return (if c == '+' then seconds else -seconds, rest)
    else none

/-- Reads one of the marks between a date and a time of day. -/
def readDateEnd? (text : List Char) : Option (List Char) :=
  match text with
  | c :: rest => if c == 't' || c == 'T' || c == ' ' then some rest else none
  | [] => none

/-- Reads RFC 3339 notation; `t` or a blank may stand for the `T`. -/
def ofRfc3339? (text : List Char) : Option Moment := do
  let (year, rest) ← readDigits? 4 4 text
  let rest ← readMark? '-' rest
  let (month, rest) ← readDigits? 2 2 rest
  let rest ← readMark? '-' rest
  let (day, rest) ← readDigits? 2 2 rest
  let rest ← readDateEnd? rest
  let (hour, rest) ← readDigits? 2 2 rest
  let rest ← readMark? ':' rest
  let (minute, rest) ← readDigits? 2 2 rest
  let rest ← readMark? ':' rest
  let (second, rest) ← readDigits? 2 2 rest
  let (nanos, rest) ← readFraction? rest
  let (offset, rest) ← readOffset? rest
  if rest.isEmpty then ofParts? ⟨year, month, day⟩ (← clock? hour minute second nanos) offset
  else none

/-- Reads a number of at most two digits after optional blanks. -/
def readShort? (text : List Char) : Option (Nat × List Char) := readDigits? 1 2 (Text.trimLeft text)

/-- Reads a year: up to four digits, or a sign and any number of digits. -/
def readYear? (text : List Char) : Option (Int × List Char) :=
  match Text.trimLeft text with
  | '-' :: rest => (readDigits? 1 rest.length rest).map fun (n, rest) => (-(n : Int), rest)
  | '+' :: rest => (readDigits? 1 rest.length rest).map fun (n, rest) => ((n : Int), rest)
  | text => (readDigits? 1 4 text).map fun (n, rest) => ((n : Int), rest)

/-- Reads a date and time of day without offset as an instant in UTC. -/
def ofLocalText? (text : List Char) : Option Moment := do
  let (year, rest) ← readYear? text
  let rest ← readMark? '-' rest
  let (month, rest) ← readShort? rest
  let rest ← readMark? '-' rest
  let (day, rest) ← readShort? rest
  let rest ← readMark? 'T' rest
  let (hour, rest) ← readShort? rest
  let rest ← readMark? ':' rest
  let (minute, rest) ← readShort? rest
  let rest ← readMark? ':' rest
  let (second, rest) ← readShort? rest
  let (nanos, rest) ← readFraction? rest
  if rest.isEmpty then ofParts? ⟨year, month, day⟩ (← clock? hour minute second nanos) 0
  else none

/-- Reads an offset: `Z`, `UTC` in any case, or a sign, hours, blanks or colons, and minutes. -/
def readLooseOffset? (text : List Char) : Option (Int × List Char) :=
  if (text.take 3).map Char.toLower == "utc".toList then some (0, text.drop 3)
  else
    match text with
    | [] => none
    | c :: rest =>
      if c == 'Z' || c == 'z' then some (0, rest)
      else if c == '+' || c == '-' || c == '−' then do
        let (hours, rest) ← readDigits? 2 2 rest
        let (minutes, rest) ← readDigits? 2 2 (rest.dropWhile fun d => d == ':' || Text.isBlank d)
        if 59 < minutes then none
        else
          let seconds : Int := (hours * 3600 + minutes * 60 : Nat)
          return (if c == '+' then seconds else -seconds, rest)
      else none

/-- Reads a date, a time of day and an offset with blanks between the parts. -/
def ofLooseText? (text : List Char) : Option Moment := do
  let (year, rest) ← readYear? text
  let rest ← readMark? '-' (Text.trimLeft rest)
  let (month, rest) ← readShort? rest
  let rest ← readMark? '-' (Text.trimLeft rest)
  let (day, rest) ← readShort? rest
  let rest ← readDateEnd? rest
  let (hour, rest) ← readShort? rest
  let rest ← readMark? ':' (Text.trimLeft rest)
  let (minute, rest) ← readShort? rest
  let rest ← readMark? ':' (Text.trimLeft rest)
  let (second, rest) ← readShort? rest
  let (nanos, rest) ← readFraction? rest
  let (offset, rest) ← readLooseOffset? (Text.trimLeft rest)
  if (Text.trimLeft rest).isEmpty then
    ofParts? ⟨year, month, day⟩ (← clock? hour minute second nanos) offset
  else none

end Moment

end DocIndex
