/-
Reading tokens from query text.

At each place the readers below are tried in a fixed order: quoted text, date, relative
time, number, operator, punctuation, word.  The first three literals that are not quoted
have to end at a character that no word contains, and a date that does not exist, an unknown
unit of time or an amount out of range make their reader fail, so that the text is read as a
number or a word instead.  `tokenize` goes through the text once; while a token's own
characters pass by it only counts them down.
-/
import DocIndex.Query.Token
import DocIndex.Text.Alphanumeric
import DocIndex.Text.CharSet
import DocIndex.Text.Reader

namespace DocIndex.Query

open Text (readMark? readDigits?)

namespace Lexer

/-- Whether a character can be part of a word. -/
def isWordChar (c : Char) : Bool :=
  Text.isAlphanumeric c || "_.$@-*?/+#\\".toList.contains c

/-- Whether no word goes on here. -/
def atBoundary : List Char → Bool
  | [] => true
  | c :: _ => !isWordChar c

/-- A reading, if it ends at a boundary. -/
def bounded {α : Type} (reading : Option (α × List Char)) : Option (α × List Char) :=
  reading.filter fun (_, rest) => atBoundary rest

/-! ### Dates -/

/-- A date literal: its numbers, not yet checked against the calendar. -/
structure DateLiteral where
  date : Date
  /-- Hour, minute, second and the digits of the fraction. -/
  clock : Option (Nat × Nat × Nat × List Char)
  /-- Seconds east of UTC. -/
  offset : Int

/-- Reads a point and digits, or nothing. -/
def readFraction (text : List Char) : List Char × List Char :=
  match text with
  | '.' :: rest =>
    let digits := rest.takeWhile Char.isDigit
    if digits.isEmpty then ([], text) else (digits, rest.dropWhile Char.isDigit)
  | _ => ([], text)

/-- Reads a colon, seconds and their fraction, or nothing. -/
def readSeconds (text : List Char) : (Nat × List Char) × List Char :=
  let reading : Option ((Nat × List Char) × List Char) := do
    let rest ← readMark? ':' text
    let (second, rest) ← readDigits? 2 2 rest
    let (fraction, rest) := readFraction rest
    return ((second, fraction), rest)
  reading.getD ((0, []), text)

/-- Reads `Z` or a sign, hours and minutes, or nothing. -/
def readOffset (text : List Char) : Int × List Char :=
  let reading : Option (Int × List Char) :=
    match text with
    | [] => none
    | c :: rest =>
      if c == 'Z' then some (0, rest)
      else if c == '+' || c == '-' then do
        let (hours, rest) ← readDigits? 2 2 rest
        let rest ← readMark? ':' rest
        let (minutes, rest) ← readDigits? 2 2 rest
        let seconds : Int := (hours * 3600 + minutes * 60 : Nat)
        return (if c == '-' then -seconds else seconds, rest)
      else none
  reading.getD (0, text)

/-- Reads the time of day of a date literal with its offset, or nothing. -/
def readClock (text : List Char) : (Option (Nat × Nat × Nat × List Char) × Int) × List Char :=
  let reading : Option ((Option (Nat × Nat × Nat × List Char) × Int) × List Char) := do
    let rest ← readMark? 'T' text
    let (hour, rest) ← readDigits? 2 2 rest
    let rest ← readMark? ':' rest
    let (minute, rest) ← readDigits? 2 2 rest
    let ((second, fraction), rest) := readSeconds rest
    let (offset, rest) := readOffset rest
    return ((some (hour, minute, second, fraction), offset), rest)
  reading.getD ((none, 0), text)

/-- Reads `yyyy-MM-dd[THH:mm[:ss[.f]][Z|(+|-)HH:mm]]`. -/
def readDateLiteral? (text : List Char) : Option (DateLiteral × List Char) := do
  let (year, rest) ← readDigits? 4 4 text
  let rest ← readMark? '-' rest
  let (month, rest) ← readDigits? 2 2 rest
  let rest ← readMark? '-' rest
  let (day, rest) ← readDigits? 2 2 rest
  let ((clock, offset), rest) := readClock rest
  return (⟨⟨year, month, day⟩, clock, offset⟩, rest)

/-- The time that a literal denotes: a day without a clock, an instant with one. -/
def DateLiteral.token? (d : DateLiteral) : Option Token :=
  match d.clock with
  | none =>
    (Moment.ofParts? d.date ⟨0, 0, 0, 0⟩ 0).map fun m => .time m .day
  | some (hour, minute, second, fraction) => do
    let clock ← Moment.clock? hour minute second (Moment.fractionNanos fraction)
    let m ← Moment.ofParts? d.date clock d.offset
    return .time m .instant

/-- Reads a date that exists. -/
def readDate? (text : List Char) : Option (Token × List Char) := do
  let (literal, rest) ← bounded (readDateLiteral? text)
  return (← literal.token?, rest)

/-! ### Relative times -/

/-- An amount of calendar months and a span of time. -/
structure Shift where
  months : Int
  span : Span

/-- The largest signed 32-bit integer bounds the months, its negative neighbour from below. -/
def fitsMonths (n : Int) : Bool := -0x80000000 ≤ n && n < 0x80000000

namespace Shift

def zero : Shift := ⟨0, Span.zero⟩

def ofMonths? (months : Int) : Option Shift :=
  if fitsMonths months then some ⟨months, Span.zero⟩ else none

def ofSeconds? (seconds : Int) : Option Shift := (Span.ofSeconds? seconds).map fun s => ⟨0, s⟩

/-- So many of the named unit. -/
def ofUnit? (amount : Int) (unit : String) : Option Shift :=
  if ["y", "year", "years"].contains unit then ofMonths? (amount * 12)
  else if ["M", "mo", "month", "months"].contains unit then ofMonths? amount
  else if ["w", "week", "weeks"].contains unit then ofSeconds? (amount * 604800)
  else if ["d", "day", "days"].contains unit then ofSeconds? (amount * 86400)
  else if ["h", "hour", "hours"].contains unit then ofSeconds? (amount * 3600)
  else if ["m", "min", "minute", "minutes"].contains unit then ofSeconds? (amount * 60)
  else if ["s", "sec", "second", "seconds"].contains unit then ofSeconds? amount
  else none

def add? (a b : Shift) : Option Shift := do
  let span ← a.span.add? b.span
  if fitsMonths (a.months + b.months) then return ⟨a.months + b.months, span⟩ else none

end Shift

/-- A number of units of time as written: the digits and the name of the unit. -/
structure UnitGroup where
  digits : List Char
  unit : List Char

/-- Whether a character is an ASCII letter. -/
def isLetter (c : Char) : Bool := c.isAlpha

/-- Reads as many groups of digits and letters as there are, at most as many as the fuel. -/
def readGroups (fuel : Nat) (text : List Char) : List UnitGroup × List Char :=
  match fuel with
  | 0 => ([], text)
  | fuel + 1 =>
    let digits := text.takeWhile Char.isDigit
    let unit := (text.dropWhile Char.isDigit).takeWhile isLetter
    if digits.isEmpty || unit.isEmpty then ([], text)
    else
      let (groups, rest) := readGroups fuel ((text.dropWhile Char.isDigit).dropWhile isLetter)
      (⟨digits, unit⟩ :: groups, rest)

/-- A relative time literal: sign and groups may both be missing after an anchor. -/
structure RelativeLiteral where
  anchor : Option Anchor
  negative : Bool
  groups : List UnitGroup

/-- Reads `NOW` or `TODAY`, or nothing. -/
def readAnchor (text : List Char) : Option Anchor × List Char :=
  if "NOW".toList.isPrefixOf text then (some .now, text.drop 3)
  else if "TODAY".toList.isPrefixOf text then (some .today, text.drop 5)
  else (none, text)

/-- Reads an optional anchor, a sign and one or more groups, or an anchor alone. -/
def readRelativeLiteral? (text : List Char) : Option (RelativeLiteral × List Char) :=
  let (anchor, rest) := readAnchor text
  let bare := anchor.map fun a => (⟨some a, false, []⟩, rest)
  match rest with
  | [] => bare
  | c :: more =>
    if c == '+' || c == '-' then
      match readGroups more.length more with
      | ([], _) => bare
      | (groups, rest) => some (⟨anchor, c == '-', groups⟩, rest)
    else bare

/-- The sum of the groups, each with the sign of the literal. -/
def RelativeLiteral.shift? (literal : RelativeLiteral) : Option Shift :=
  literal.groups.foldlM (fun total group => do
    let amount ← readInt64? group.digits
    let shift ← Shift.ofUnit? (if literal.negative then -amount else amount)
      (String.ofList group.unit)
    total.add? shift) Shift.zero

/-- Reads a relative time with known units and amounts in range. -/
def readRelative? (text : List Char) : Option (Token × List Char) := do
  let (literal, rest) ← bounded (readRelativeLiteral? text)
  let shift ← literal.shift?
  let raw := String.ofList (text.take (text.length - rest.length))
  return (.relative ⟨raw, literal.anchor.getD .now, shift.months, shift.span⟩, rest)

/-! ### The other tokens -/

/-- Reads an integer, or a number if there is a fraction or too many digits. -/
def readNumber? (text : List Char) : Option (Token × List Char) :=
  let (negative, body) := match text with
    | '-' :: rest => (true, rest)
    | _ => (false, text)
  let digits := body.takeWhile Char.isDigit
  let (fraction, rest) := readFraction (body.dropWhile Char.isDigit)
  let value : Int := if negative then -(numeralValue digits : Int) else numeralValue digits
  if digits.isEmpty || !atBoundary rest then none
  else if fraction.isEmpty && fitsInt64 value then some (.integer value, rest)
  else
    let x := Double.ofDecimal negative (numeralValue (digits ++ fraction)) (-fraction.length)
    some (.number x, rest)

/-- Reads an operator, the longest one that stands here, or a colon. -/
def readOperator? : List Char → Option (Token × List Char)
  | '>' :: '=' :: rest => some (.operator .greaterOrEqual, rest)
  | '<' :: '=' :: rest => some (.operator .lessOrEqual, rest)
  | '!' :: '=' :: rest => some (.operator .notEquals, rest)
  | '!' :: '~' :: rest => some (.operator .notSimilar, rest)
  | '>' :: rest => some (.operator .greater, rest)
  | '<' :: rest => some (.operator .less, rest)
  | '=' :: rest => some (.operator .equals, rest)
  | '~' :: rest => some (.operator .similar, rest)
  | ':' :: rest => some (.colon, rest)
  | _ => none

/-- Reads a parenthesis or a comma. -/
def readPunctuation? : List Char → Option (Token × List Char)
  | '(' :: rest => some (.openParen, rest)
  | ')' :: rest => some (.closeParen, rest)
  | ',' :: rest => some (.comma, rest)
  | _ => none

/-- The keyword that a word is in any case, or the word itself. -/
def keywordOrWord (text : List Char) : Token :=
  let upper := String.ofList (text.map Char.toUpper)
  if upper == "AND" then .andWord
  else if upper == "OR" then .orWord
  else if upper == "NOT" then .notWord
  else if upper == "IN" then .inWord
  else if upper == "ORDER" then .orderWord
  else if upper == "BY" then .byWord
  else if upper == "ASC" then .ascWord
  else if upper == "DESC" then .descWord
  else .word (String.ofList text)

/-- Reads the longest run of word characters. -/
def readWord? (text : List Char) : Option (Token × List Char) :=
  let word := text.takeWhile isWordChar
  if word.isEmpty then none else some (keywordOrWord word, text.dropWhile isWordChar)

/-- Reads quoted text after its opening quote; a backslash stands before a character to keep. -/
def readQuoted? : List Char → Option (List Char × List Char)
  | [] => none
  | ['\\'] => none
  | '\\' :: c :: rest => (readQuoted? rest).map fun (text, rest) => (c :: text, rest)
  | c :: rest =>
    if c == '\x22' then some ([], rest)
    else (readQuoted? rest).map fun (text, rest) => (c :: text, rest)

/-- Reads the token that starts with the first of the given characters. -/
def readToken (c : Char) (rest : List Char) : Except Problem (Token × List Char) :=
  if c == '\x22' then
    match readQuoted? rest with
    | some (text, rest) => .ok (.quoted (String.ofList text), rest)
    | none => .error .unterminatedPhrase
  else
    let text := c :: rest
    let reading := readDate? text <|> readRelative? text <|> readNumber? text <|>
      readOperator? text <|> readPunctuation? text <|> readWord? text
    match reading with
    | some found => .ok found
    | none => .error (.unexpectedCharacter c)

/--
The tokens of the rest of a text.  `position` characters precede it, and its first `pending`
characters belong to a token already found.
-/
def scan (position pending : Nat) : List Char → Except SyntaxError (List PlacedToken)
  | [] => .ok []
  | c :: rest =>
    match pending with
    | pending + 1 => scan (position + 1) pending rest
    | 0 =>
      if Text.isBlank c then scan (position + 1) 0 rest
      else
        match readToken c rest with
        | .error problem => .error ⟨position, problem⟩
        | .ok (token, after) => do
          let tokens ← scan (position + 1) (rest.length - after.length) rest
          return ⟨token, position⟩ :: tokens

end Lexer

/-- The tokens of a text with their positions. -/
def tokenize (text : String) : Except SyntaxError (List PlacedToken) :=
  Lexer.scan 0 0 text.toList

end DocIndex.Query
