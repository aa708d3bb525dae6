/-
Terms that are like another: wildcard patterns and edit distance.

A star in a pattern stands for any characters and a question mark for one, where neither
stands for a line feed.
-/

namespace DocIndex

/-- A piece of a wildcard pattern. -/
inductive PatternPiece where
  | anyText
  | anyChar
  | literal (c : Char)
deriving DecidableEq

/-- A wildcard pattern. -/
abbrev Pattern := List PatternPiece

namespace Pattern

/-- The pattern that a text writes. -/
def ofText (text : String) : Pattern :=
  text.toList.map fun c =>
    if c == '*' then .anyText else if c == '?' then .anyChar else .literal c

/-- Whether a wildcard may stand for a character. -/
def isOpen (c : Char) : Bool := c != '\n'

/-- Whether a text can be cut into some open characters and a rest that fits. -/
def fitsAfterAny (rest : List Char → Bool) : List Char → Bool
  | [] => rest []
  | c :: text => rest (c :: text) || (isOpen c && fitsAfterAny rest text)

/-- Whether a whole text fits a pattern. -/
def fits : Pattern → List Char → Bool
  | [], text => text.isEmpty
  | .anyText :: rest, text => fitsAfterAny (fits rest) text
  | .anyChar :: rest, text =>
    match text with
    | [] => false
    | c :: text => isOpen c && fits rest text
  | .literal l :: rest, text =>
    match text with
    | [] => false
    | c :: text => c == l && fits rest text

/-- Characters that mean something in a regular expression. -/
def regexMeta : List Char := "\\.+*?()|[]\x7b\x7d^$#&-~".toList

/-- The pattern as a regular expression for whole texts. -/
def toRegex (pattern : Pattern) : String :=
  let piece : PatternPiece → List Char
    | .anyText => ['.', '*']
    | .anyChar => ['.']
    | .literal c => if regexMeta.contains c then ['\\', c] else [c]
  String.ofList ('^' :: pattern.flatMap piece ++ ['$'])

end Pattern

/--
Overwrites a row of the table of edit distances from a column on.  An entry is made of the one to
its left and of two of the row above.
-/
def editRow (c : Char) (above : Array Nat) : List Char → Nat → Array Nat → Array Nat
  | [], _, row => row
  | d :: text, column, row =>
    let cost := if c = d then 0 else 1
    let entry := min (min (above.getD column 0 + cost) (above.getD (column + 1) 0 + 1))
      (row.getD column 0 + 1)
    editRow c above text (column + 1) (row.setIfInBounds (column + 1) entry)

/--
Goes down the table of edit distances, of which only two rows are kept: the new row is written
over the row before the one above it.
-/
def editRows (text : List Char) (above spare : Array Nat) (line : Nat) : List Char → Array Nat
  | [] => above
  | c :: rest =>
    let row := editRow c above text 0 (spare.setIfInBounds 0 (line + 1))
    editRows text row above (line + 1) rest

/-- How many characters must be inserted, removed or replaced to make one text of another. -/
def editDistance (a b : List Char) : Nat :=
  if a.isEmpty then b.length
  else if b.isEmpty then a.length
  else
    let last := editRows b (Array.range (b.length + 1)) (Array.replicate (b.length + 1) 0) 0 a
    last.getD b.length 0

end DocIndex
