/-
Strategies: what a JSON value becomes in the index.

A strategy makes native fields of a value at a path, or refuses a value that it cannot
project.  A date is split into ticks and the parts of its UTC date and time, a time span into
ticks and parts that carry its sign, and an array only gives the count of its elements, which
are projected one by one.
-/
import DocIndex.Error
import DocIndex.Json.Printer
import DocIndex.Query.Plan
import DocIndex.Schema.FieldInfo
import DocIndex.Time.Notation

namespace DocIndex

/-- Reads an instant as JSON documents hold it; without an offset it is in UTC. -/
def Moment.ofDocumentText? (text : String) : Option Moment :=
  let chars := text.toList
  if chars.contains 'T' then
    match Moment.ofRfc3339? chars with
    | some m => some m.utc
    | none => Moment.ofLocalText? chars
  else none

/-- The type of a value. -/
def Json.type : Json → JsonType
  | null => .null
  | bool _ => .boolean
  | int n => if fitsInt64 n then .integer else .float
  | double _ => .float
  | text s => if (Moment.ofDocumentText? s).isSome then .date else .text
  | array _ => .array
  | object _ => .object

/-- Where a value stands: the content type of its document and the path to it. -/
structure Place where
  contentType : String
  path : String
deriving DecidableEq

namespace Place

/-- The place of an object's member; a path is empty only at the root. -/
def child (place : Place) (property : String) : Place :=
  { place with path := if place.path.isEmpty then property else place.path ++ "." ++ property }

end Place

/-- The native fields that a value became. -/
structure Projection where
  path : String
  jsonType : JsonType
  strategy : String
  fields : List Field

namespace Projection

/-- The observations that a projection adds to what is known about fields. -/
def infos (p : Projection) : List FieldInfo :=
  p.fields.map fun field => {
    path := p.path
    jsonType := p.jsonType
    fieldName := field.name
    kind := field.kind
    strategy := p.strategy
    analyzer := match field.value with
      | .text _ analyzer => some analyzer
      | _ => none }

end Projection

/-- A way to project values. -/
inductive Strategy where
  /-- An exact term. -/
  | identity
  /-- Text for the named analyzer. -/
  | text (analyzer : String)
  /-- The number of elements. -/
  | array
  | int64
  | double
  | boolean
  | null
  | undefined
  | dateTime
  | timeSpan
deriving DecidableEq

namespace Strategy

def name : Strategy → String
  | identity => "identity"
  | text _ => "text"
  | array => "array"
  | int64 => "int64"
  | double => "double"
  | boolean => "boolean"
  | null => "null"
  | undefined => "undefined"
  | dateTime => "expanded_datetime"
  | timeSpan => "expanded_timespan"

/-- The term that stands for a null. -/
def nullTerm : String := "$$NULL$$"

/-- The term that stands for a missing value. -/
def undefinedTerm : String := "$$UNDEFINED$$"

/-- The text of a scalar: a text itself, and the JSON text of anything else. -/
def scalarText? : Json → Option String
  | .text s => some s
  | .array _ | .object _ => none
  | value => some value.write

/-- The integer that a number or a numeral is; a double beyond the range is moved into it. -/
def integer? : Json → Option Int
  | .int n => if fitsInt64 n then some n else (Double.ofInt n).toInt?.map clampInt64
  | .double x => x.toInt?.map clampInt64
  | .text s => readInt64? (Text.trim s.toList)
  | _ => none

/-- The double that a number or a numeral is. -/
def double? : Json → Option Double
  | .int n => some (Double.ofInt n)
  | .double x => some x
  | .text s => Double.ofText? (Text.trim s.toList)
  | _ => none

/-- The truth value that a boolean or its name in any case is. -/
def boolean? : Json → Option Bool
  | .bool b => some b
  | .text s =>
    let lower := String.ofList (s.toList.map Char.toLower)
    if lower == "true" then some true else if lower == "false" then some false else none
  | _ => none

/-- The fields of a date. -/
def dateFields (path : String) (m : Moment) : List Field :=
  let part := fun (name : String) (value : Int) => Field.long (Field.derivedName path name) value
  [ .term path (Query.PlanContext.writeSecond m), part "ticks" m.ticks, part "year" m.date.year,
    part "month" m.date.month, part "day" m.date.day, part "hour" m.clock.hour,
    part "minute" m.clock.minute ]

/-- The fields of a time span, with whole units rounded toward zero. -/
def spanFields (path raw : String) (span : Span) : List Field :=
  let part := fun (name : String) (value : Int) => Field.long (Field.derivedName path name) value
  let minutes := span.seconds.tdiv 60
  let hours := span.seconds.tdiv 3600
  let days := span.seconds.tdiv 86400
  [ .term path raw, part "ticks" span.ticks, part "days" days, part "hours" (hours - days * 24),
    part "minutes" (minutes - hours * 60) ]

/-- The type under which a value is recorded and its fields, if the strategy can project it. -/
def fields? (strategy : Strategy) (value : Json) (path : String) :
    Option (JsonType × List Field) :=
  match strategy with
  | identity => (scalarText? value).map fun s => (value.type, [.term path s])
  | text analyzer => (scalarText? value).map fun s => (value.type, [.text path s analyzer])
  | array =>
    match value with
    | .array items => some (.array, [.long (Field.derivedName path "count") items.length])
    | _ => none
  | int64 => (integer? value).map fun n => (.integer, [.long path n])
  | double => (double? value).map fun x => (.float, [.double path x])
  | boolean =>
    (boolean? value).map fun b => (.boolean, [.term path (if b then "true" else "false")])
  | null => some (.null, [.term path nullTerm])
  | undefined => some (.undefined, [.term path undefinedTerm])
  | dateTime => do
    let m ← value.text?.bind Moment.ofDocumentText?
    return (.date, dateFields path m)
  | timeSpan => do
    let raw ← value.text?
    return (.timeSpan, spanFields path raw (← Span.ofText? raw.toList))

/-- Projects a value. -/
def project (strategy : Strategy) (value : Json) (place : Place) : Except Error Projection :=
  match strategy.fields? value place.path with
  | some (type, fields) => .ok ⟨place.path, type, strategy.name, fields⟩
  | none => .error (.cannotProject place.contentType value.type.name place.path strategy.name)

/-- The strategy for values of a type that nothing else was configured for; objects have none. -/
def default? : JsonType → Option Strategy
  | .object => none
  | .array => some array
  | .text => some (text Analyzers.standardName)
  | .integer => some int64
  | .float => some double
  | .boolean => some boolean
  | .null => some null
  | .undefined => some undefined
  | .date => some dateTime
  | .timeSpan => some timeSpan

end Strategy

/-- Which strategy applies where. -/
structure FieldConfiguration where
  /-- The paths that are always exact terms. -/
  identityPaths : List String
  /-- Strategies for the values at a path of a content type, the latest first. -/
  configured : List (Place × Strategy)

namespace FieldConfiguration

/-- Sets the strategy for a path of a content type. -/
def set (c : FieldConfiguration) (place : Place) (strategy : Strategy) : FieldConfiguration :=
  { c with configured := (place, strategy) :: c.configured.filter fun entry => entry.1 ≠ place }

/-- The strategy for a value of a type; an array as a whole is never configured. -/
def resolve? (c : FieldConfiguration) (place : Place) (type : JsonType) : Option Strategy :=
  if c.identityPaths.contains place.path then some .identity
  else
    match c.configured.find? fun entry => type ≠ .array && entry.1 = place with
    | some (_, strategy) => some strategy
    | none => Strategy.default? type

end FieldConfiguration

end DocIndex
