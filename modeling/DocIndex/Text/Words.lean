/-
Words of a text, by the default rules for word boundaries of Unicode text segmentation.

Marks, format characters and joiners never begin a segment of their own after other text, so
the text is first cut into units: a character with all such characters after it.  Whether
two neighbouring units belong together depends on their classes, on the class of one unit
on either side, and for regional indicators on how many stand in a row.  A word is a segment
with a letter or a number in it.
-/
import DocIndex.Text.Alphanumeric
import DocIndex.Text.WordBreak

namespace DocIndex.Text

/-- A character with the marks that belong to it. -/
structure WordUnit where
  base : Char
  kind : WordBreak
  marks : List Char

namespace WordUnit

def chars (u : WordUnit) : List Char := u.base :: u.marks

/-- Whether the unit ends with a joiner. -/
def endsWithJoiner (u : WordUnit) : Bool :=
  match u.marks.getLast? with
  | some c => c == '\u200d'
  | none => u.kind == .joiner

end WordUnit

/-- Whether a character attaches to what stands before it. -/
def WordBreak.isMark : WordBreak → Bool
  | extend | format | joiner => true
  | _ => false

/-- Whether a line ends at a character. -/
def WordBreak.isLineEnd : WordBreak → Bool
  | cr | lf | newline => true
  | _ => false

/-- Puts a character before the units of the text after it, where `marks` are attached to it. -/
def wordUnits : List Char → List Char × List WordUnit
  | [] => ([], [])
  | c :: rest =>
    let kind := wordBreakOf c
    let (marks, units) := wordUnits rest
    if kind.isMark then (c :: marks, units)
    else if kind.isLineEnd then ([], ⟨c, kind, []⟩ :: unattached marks ++ units)
    else ([], ⟨c, kind, marks⟩ :: units)
where
  /-- Marks that follow nothing they could attach to: the first one carries the others. -/
  unattached : List Char → List WordUnit
    | [] => []
    | c :: marks => [⟨c, wordBreakOf c, marks⟩]

/-- The units of a text. -/
def unitsOf (text : List Char) : List WordUnit :=
  let (marks, units) := wordUnits text
  wordUnits.unattached marks ++ units

namespace WordBreak

/-- Letters of either kind. -/
def isLetter (k : WordBreak) : Bool := k == letter || k == hebrewLetter

/-- What may stand between two letters. -/
def joinsLetters (k : WordBreak) : Bool := k == midLetter || k == midNumLet || k == singleQuote

/-- What may stand between two numbers. -/
def joinsNumbers (k : WordBreak) : Bool := k == midNum || k == midNumLet || k == singleQuote

/-- What connectors like the underscore attach to. -/
def isConnectable (k : WordBreak) : Bool :=
  k.isLetter || k == numeric || k == katakana || k == extendNumLet

end WordBreak

/--
Whether there is no boundary between two units.  `earlier` and `later` are the classes of the
units around them, and `indicators` tells how many regional indicators in a row end with the
left unit.
-/
def isJoined (earlier : WordBreak) (left right : WordUnit) (later : WordBreak)
    (indicators : Nat) : Bool :=
  let l := left.kind
  let r := right.kind
  if l == .cr && r == .lf then true
  else if l.isLineEnd || r.isLineEnd then false
  else if left.endsWithJoiner && isPictographic right.base then true
  else if l == .space && r == .space && left.marks.isEmpty then true
  else if l.isLetter && r.isLetter then true
  else if l.isLetter && r.joinsLetters && later.isLetter then true
  else if earlier.isLetter && l.joinsLetters && r.isLetter then true
  else if l == .hebrewLetter && r == .singleQuote then true
  else if l == .hebrewLetter && r == .doubleQuote && later == .hebrewLetter then true
  else if earlier == .hebrewLetter && l == .doubleQuote && r == .hebrewLetter then true
  else if l == .numeric && (r == .numeric || r.isLetter) then true
  else if l.isLetter && r == .numeric then true
  else if earlier == .numeric && l.joinsNumbers && r == .numeric then true
  else if l == .numeric && r.joinsNumbers && later == .numeric then true
  else if l == .katakana && r == .katakana then true
  else if l.isConnectable && r == .extendNumLet then true
  else if l == .extendNumLet && r.isConnectable then true
  else l == .regionalIndicator && r == .regionalIndicator && indicators % 2 == 1

/-- The segments of a text that goes on after the unit `left`, the first of them with it. -/
def segmentsAfter (earlier : WordBreak) (left : WordUnit) (indicators : Nat) :
    List WordUnit → List (List Char)
  | [] => [left.chars]
  | right :: rest =>
    let later := match rest with
      | u :: _ => u.kind
      | [] => .other
    let run := if right.kind == .regionalIndicator then indicators + 1 else 0
    let segments := segmentsAfter left.kind right run rest
    if isJoined earlier left right later indicators then
      match segments with
      | first :: others => (left.chars ++ first) :: others
      | [] => [left.chars]
    else left.chars :: segments

/-- A text cut at its word boundaries. -/
def segments (text : List Char) : List (List Char) :=
  match unitsOf text with
  | [] => []
  | first :: rest =>
    segmentsAfter .other first (if first.kind == .regionalIndicator then 1 else 0) rest

/-- The number of bytes of a text in UTF-8. -/
def byteLength (text : List Char) : Nat := text.foldl (fun n c => n + c.utf8Size) 0

/-- Segments with the number of bytes before each, where `offset` bytes precede the first. -/
def withOffsets (offset : Nat) : List (List Char) → List (Nat × List Char)
  | [] => []
  | segment :: rest => (offset, segment) :: withOffsets (offset + byteLength segment) rest

/-- The words of a text and the number of bytes before each. -/
def words (text : List Char) : List (Nat × List Char) :=
  (withOffsets 0 (segments text)).filter fun (_, segment) => segment.any isAlphanumeric

end DocIndex.Text
