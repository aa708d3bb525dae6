/-
What a query compares fields with.

Values are written by the user, or made of written ones by putting several into a list.  A
relative time keeps its written form beside the calendar months and the span that it adds to
its anchor; it becomes an instant only when the instant of evaluation is known.
-/
import DocIndex.Number.Decimal
import DocIndex.Time.Moment

namespace DocIndex.Query

/-- How a clause compares its field with its value. -/
inductive Operator where
  | plain
  | equals
  | notEquals
  | greater
  | greaterOrEqual
  | less
  | lessOrEqual
  | oneOf
  | noneOf
  | similar
  | notSimilar
deriving DecidableEq, Repr

namespace Operator

/-- The operator as it is written in a query. -/
def symbol : Operator → String
  | plain => ""
  | equals => "="
  | notEquals => "!="
  | greater => ">"
  | greaterOrEqual => ">="
  | less => "<"
  | lessOrEqual => "<="
  | oneOf => "IN"
  | noneOf => "NOT IN"
  | similar => "~"
  | notSimilar => "!~"

/-- Whether the operator compares by order. -/
def isOrdering : Operator → Bool
  | greater | greaterOrEqual | less | lessOrEqual => true
  | _ => false

end Operator

/-- Whether a time stands for its whole day or for the instant. -/
inductive Precision where
  | day
  | instant
deriving DecidableEq, Repr

/-- What a relative time is counted from. -/
inductive Anchor where
  | now
  | today
deriving DecidableEq, Repr

/-- A time relative to the instant of evaluation or to the start of its day. -/
structure RelativeTime where
  raw : String
  anchor : Anchor
  months : Int
  span : Span
deriving DecidableEq

namespace RelativeTime

/-- The instant meant at `now`, unless it lies outside the calendar. -/
def resolve? (t : RelativeTime) (now : Moment) : Option Moment := do
  let base := match t.anchor with
    | .now => now.utc
    | .today => now.utc.startOfDay
  let shifted ← if t.months = 0 then some base else base.addMonths? t.months
  shifted.add? t.span

/-- Times counted from today stand for whole days. -/
def precision (t : RelativeTime) : Precision :=
  match t.anchor with
  | .today => .day
  | .now => .instant

end RelativeTime

/-- A value in a query. -/
inductive Value where
  | word (text : String)
  | wildcard (pattern : String)
  | phrase (text : String)
  | number (value : Double)
  | integer (value : Int)
  | time (value : Moment) (precision : Precision)
  | relative (value : RelativeTime)
  | everything
  | list (values : List Value)
deriving Inhabited

namespace Value

/-- The layout of numbers in query text: always in full, whole numbers without a point. -/
def numberLayout : Decimal.Layout where
  positional _ := true
  wholeSuffix := ""

/-- A number as it stands in query text. -/
def writeNumber (x : Double) : String :=
  if x.isNaN then "NaN"
  else if x.isInfinite then if x.negative then "-inf" else "inf"
  else x.write numberLayout

/-- A year with at least four places, the sign among them. -/
def writeYear (year : Int) : String :=
  if 0 ≤ year then Moment.padded 4 year.toNat else "-" ++ Moment.padded 3 year.natAbs

/-- The date alone. -/
def writeDay (m : Moment) : String :=
  let d := m.date
  writeYear d.year ++ "-" ++ Moment.padded 2 d.month ++ "-" ++ Moment.padded 2 d.day

/-- A phrase in quotes, with a backslash before every quote inside. -/
def writePhrase (text : String) : String :=
  String.ofList
    ('\x22' :: text.toList.flatMap (fun c => if c == '\x22' then ['\\', c] else [c]) ++ ['\x22'])

mutual

/-- The value as query text. -/
def write : Value → String
  | word text => text
  | wildcard pattern => pattern
  | phrase text => writePhrase text
  | number x => writeNumber x
  | integer n => toString n
  | time m .day => writeDay m
  | time m .instant => m.write
  | relative t => t.raw
  | everything => "*"
  | list values => "(" ++ writeAll values ++ ")"

/-- The values of a list, separated by commas. -/
def writeAll : List Value → String
  | [] => ""
  | [value] => write value
  | value :: rest => write value ++ ", " ++ writeAll rest

end

mutual

/-- Equality of values: of numbers as numbers, and of times as instants of one precision. -/
def same : Value → Value → Bool
  | word a, word b => a == b
  | wildcard a, wildcard b => a == b
  | phrase a, phrase b => a == b
  | number a, number b => a.same b
  | integer a, integer b => a == b
  | time a p, time b q => a.sameInstant b && p == q
  | relative a, relative b => a == b
  | everything, everything => true
  | list as, list bs => sameAll as bs
  | _, _ => false

/-- Equality of lists of values, place by place. -/
def sameAll : List Value → List Value → Bool
  | [], [] => true
  | a :: as, b :: bs => same a b && sameAll as bs
  | _, _ => false

end

mutual

/-- The scalars of a value in order: those of a list at any depth, or the value itself. -/
def scalars : Value → List Value
  | list values => scalarsOfAll values
  | value => [value]

/-- The scalars of several values in order. -/
def scalarsOfAll : List Value → List Value
  | [] => []
  | value :: rest => scalars value ++ scalarsOfAll rest

end

/-- The list of values with the items of lists among them spliced in. -/
def flatList (values : List Value) : Value := list (scalarsOfAll values)

/-- The items of a list; any other value is its own only item. -/
def items : Value → List Value
  | list values => values
  | value => [value]

end Value

end DocIndex.Query
