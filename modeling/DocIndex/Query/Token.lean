/-
The tokens of query text, and how they are named in messages.
-/
import DocIndex.Query.Value

namespace DocIndex.Query

/-- A token of query text. -/
inductive Token where
  | word (text : String)
  | quoted (text : String)
  | integer (value : Int)
  | number (value : Double)
  | time (value : Moment) (precision : Precision)
  | relative (value : RelativeTime)
  | operator (op : Operator)
  | colon
  | andWord
  | orWord
  | notWord
  | inWord
  | orderWord
  | byWord
  | ascWord
  | descWord
  | openParen
  | closeParen
  | comma
deriving DecidableEq

namespace Token

/-- The token as a message shows it. -/
def describe : Token → String
  | word text => "'" ++ text ++ "'"
  | quoted text => "\"" ++ text ++ "\""
  | integer n => toString n
  | number x => Value.writeNumber x
  | time m _ => m.write
  | relative t => t.raw
  | operator op => "'" ++ op.symbol ++ "'"
  | colon => "':'"
  | andWord => "AND"
  | orWord => "OR"
  | notWord => "NOT"
  | inWord => "IN"
  | orderWord => "ORDER"
  | byWord => "BY"
  | ascWord => "ASC"
  | descWord => "DESC"
  | openParen => "'('"
  | closeParen => "')'"
  | comma => "','"

end Token

/-- A token and the number of characters before it. -/
structure PlacedToken where
  token : Token
  position : Nat
deriving DecidableEq

/-- What the grammar asks for at the place of an error. -/
inductive Expected where
  | value
  | sortField
  | byKeyword
  | opening
  | closing
  | endOfQuery
deriving DecidableEq, Repr

namespace Expected

def describe : Expected → String
  | value => "value"
  | sortField => "sort field"
  | byKeyword => "BY"
  | opening => "'('"
  | closing => "')'"
  | endOfQuery => "end of query"

end Expected

/-- Why a text is not a query. -/
inductive Problem where
  | unterminatedPhrase
  | unexpectedCharacter (c : Char)
  | emptyQuery
  | unexpected (expected : Expected) (found : Option Token)
deriving DecidableEq

namespace Problem

def message : Problem → String
  | unterminatedPhrase => "unterminated quoted phrase"
  | unexpectedCharacter c => "unexpected character '" ++ c.toString ++ "'"
  | emptyQuery => "empty query"
  | unexpected expected none => "expected " ++ expected.describe ++ ", found end of query"
  | unexpected expected (some token) =>
    "expected " ++ expected.describe ++ ", found " ++ token.describe

end Problem

/-- A problem and the number of characters before it. -/
structure SyntaxError where
  position : Nat
  problem : Problem
deriving DecidableEq

namespace SyntaxError

/-- The error as one line of text. -/
def message (e : SyntaxError) : String :=
  e.problem.message ++ " at position " ++ toString e.position

end SyntaxError

end DocIndex.Query
