/-
From a query tree to a lookup in the index.

What a clause looks up depends on what is known about its field.  Dates are looked up as
numbers of ticks in a derived field, text is analysed as it was when it was indexed, and a
field that holds numbers is asked for numbers.  A conjunction that is tagged with content
types restricts the observations of fields to those types for everything below it.
-/
import DocIndex.Error
import DocIndex.Index.Lookup
import DocIndex.Query.Tree
import DocIndex.Schema.FieldInfo

namespace DocIndex.Query

/-- What planning depends on beside the query. -/
structure PlanContext where
  catalog : FieldCatalog
  analyzers : Analyzers
  /-- The instant that relative times are counted from. -/
  now : Moment
  /-- How much further apart than written the words of a phrase may be. -/
  phraseSlop : Nat
  /-- How many edits away a similar term may be. -/
  maxEdits : Nat

/-- The content types that observations of fields are taken from. -/
abbrev Scope := Option (List String)

/-- A lookup of the documents that a node holds for, or of those that it excludes. -/
structure Role where
  excludes : Bool
  lookup : Lookup

namespace Role

def includes (lookup : Lookup) : Role := ⟨false, lookup⟩

end Role

/-- Which side of its value an ordering operator is on, and whether the value belongs to it. -/
structure Side where
  above : Bool
  inclusive : Bool

namespace Side

/-- The side of an ordering operator. -/
def ofOperator? : Operator → Option Side
  | .greater => some ⟨true, false⟩
  | .greaterOrEqual => some ⟨true, true⟩
  | .less => some ⟨false, false⟩
  | .lessOrEqual => some ⟨false, true⟩
  | _ => none

/-- The interval on this side of a bound. -/
def interval {α : Type} (side : Side) (bound : α) : Interval α :=
  if side.above then .above bound side.inclusive else .below bound side.inclusive

end Side

/-- The derived field that holds the instants of a date field. -/
def ticksField (field : String) : String := Field.derivedName field "ticks"

/-- The number of 100 nanosecond units in a day. -/
def ticksPerDay : Int := 864000000000

/-- The ticks of the day of an instant: its start and the start of the next day. -/
def dayTicks (m : Moment) : Int × Int :=
  let start := m.utc.startOfDay.ticks
  (start, start + ticksPerDay)

/-- The instant that a value means, and whether it stands for its whole day. -/
def Value.instant? (value : Value) (now : Moment) : Option (Moment × Precision) :=
  match value with
  | .time m precision => some (m.utc, precision)
  | .relative t => (t.resolve? now).map fun m => (m, t.precision)
  | _ => none

namespace PlanContext

variable (context : PlanContext)

/-- The terms that text has in an analysed field, with places counted from the first one. -/
def textTerms (field text : String) (scope : Scope) : Except Error (Option (List (String × Nat))) :=
  match context.catalog.analyzer? field scope with
  | none => .ok none
  | some name =>
    match Table.find? context.analyzers name with
    | none => .error (.unknownAnalyzer name)
    | some analyzer =>
      let tokens := analyzer.analyze text
      let base := match tokens with
        | [] => 0
        | first :: _ => first.position
      .ok (some (tokens.map fun t => (t.text, t.position - base)))

/-- Looks up text: the term that it is, or the phrase that its terms make. -/
def analysed (field text : String) (slop : Nat) (scope : Scope) : Except Error Lookup := do
  match ← context.textTerms field text scope with
  | none => return .term field text
  | some [] => return .anyOf []
  | some [(term, _)] => return .term field term
  | some terms => return .phrase field terms slop

/-- A number as a field of the given kind holds it. -/
def integerAs (n : Int) (kind : FieldKind) : Numeric :=
  if kind = .double then .double (Double.ofInt n) else .long n

/-- Text in lower case if the field is analysed. -/
def foldedFor (field text : String) (scope : Scope) : String :=
  if context.catalog.isText field scope then Text.lowercase text else text

/-- Looks up an instant or a whole day in the ticks of a date field. -/
def instantLookup (field : String) (m : Moment) (precision : Precision) : Lookup :=
  match precision with
  | .day =>
    let (start, stop) := dayTicks m
    .numbers (ticksField field) ⟨some (.long start), some (.long stop), true, false⟩
  | .instant => .numbers (ticksField field) (.exactly (.long m.ticks))

/-- Looks up a number, or its text in a field without numbers. -/
def numberLookup (field : String) (value : Value) (asKind : FieldKind → Numeric) (scope : Scope) :
    Except Error Lookup :=
  match context.catalog.resolve field scope with
  | .numeric kind => .ok (.numbers field (.exactly (asKind kind)))
  | _ => context.analysed field value.write 0 scope

/-- The local date and time of day of an instant, to the second. -/
def writeSecond (m : Moment) : String :=
  { m with nanos := m.nanos / 1000000000 * 1000000000 }.writeLocal

/-- Looks up the documents that have a value in a field. -/
def exact (field : String) (value : Value) (scope : Scope) : Except Error Lookup :=
  match value.instant? context.now with
  | some (m, precision) =>
    match context.catalog.resolve field scope with
    | .date | .unknown => .ok (instantLookup field m precision)
    | _ => .ok (.term field (writeSecond m))
  | none =>
    match value with
    | .word text => context.analysed field text 0 scope
    | .phrase text => context.analysed field text context.phraseSlop scope
    | .wildcard pattern => .ok (.wildcard field (context.foldedFor field pattern scope))
    | .integer n => context.numberLookup field value (integerAs n) scope
    | .number x => context.numberLookup field value (fun _ => .double x) scope
    | .everything =>
      match context.catalog.resolve field scope with
      | .numeric _ => .ok (.numbers field .unbounded)
      | .date => .ok (.numbers (ticksField field) .unbounded)
      | _ => .ok (.wildcard field "*")
    | .list _ => .error (.listNotAllowed field)
    | .time _ _ | .relative _ => .error (.unresolvableTime value)

/-- Looks up instants on a side of an instant or of a whole day. -/
def instantRange (field : String) (m : Moment) (precision : Precision) (side : Side) : Lookup :=
  match precision with
  | .instant => .numbers (ticksField field) (side.interval (.long m.ticks))
  | .day =>
    let (start, stop) := dayTicks m
    -- A day as a whole belongs to a side exactly if the side includes it.
    let bound := if side.above == side.inclusive then start else stop
    let interval := Side.interval ⟨side.above, side.above⟩ (Numeric.long bound)
    .numbers (ticksField field) interval

/-- Looks up numbers on a side of a number, or terms on a side of its text. -/
def numberRange (field : String) (value : Value) (asKind : FieldKind → Numeric) (side : Side)
    (scope : Scope) : Lookup :=
  match context.catalog.resolve field scope with
  | .lexical => .terms field (side.interval value.write)
  | .numeric kind => .numbers field (side.interval (asKind kind))
  | .date | .unknown => .numbers field (side.interval (asKind .double))

/-- Looks up the documents with something on a side of a value in a field. -/
def range (field : String) (value : Value) (side : Side) (scope : Scope) : Except Error Lookup :=
  match value.instant? context.now with
  | some (m, precision) => .ok (instantRange field m precision side)
  | none =>
    match value with
    | .integer n => .ok (context.numberRange field value (integerAs n) side scope)
    | .number x => .ok (context.numberRange field value (fun _ => .double x) side scope)
    | .word text | .phrase text =>
      .ok (.terms field (side.interval (context.foldedFor field text scope)))
    | _ => .error (.notComparable field value)

/-- Looks up the documents with a term similar to a value. -/
def similar (field : String) (value : Value) (scope : Scope) : Except Error Lookup :=
  let fuzzy := fun text : String =>
    Lookup.fuzzy field (context.foldedFor field text scope) context.maxEdits
  match value with
  | .word text | .phrase text => .ok (fuzzy text)
  | .integer _ | .number _ => .ok (fuzzy value.write)
  | _ => .error (.notFuzzy field value)

/-- Looks up the documents with one of the values of a list. -/
def anyOf (field : String) (op : Operator) (value : Value) (scope : Scope) : Except Error Lookup :=
  match value with
  | .list values => do
    return .anyOf (← values.mapM fun v => context.exact field v scope)
  | _ => .error (.listRequired op field value)

/-- Looks up a value in every field with terms. -/
def anywhere (op : Operator) (value : Value) (scope : Scope) : Except Error Role :=
  match value with
  | .everything => .ok (.includes .everything)
  | _ => do
    let alternatives ← (context.catalog.lexicalFields scope).mapM fun field =>
      context.exact field value scope
    return ⟨op = .notEquals, .anyOf alternatives⟩

/-- Plans a clause. -/
def clause (c : Clause) (scope : Scope) : Except Error Role :=
  match c.field with
  | none => context.anywhere c.op c.value scope
  | some field =>
    match c.op with
    | .plain | .equals => do return .includes (← context.exact field c.value scope)
    | .notEquals => do return ⟨true, ← context.exact field c.value scope⟩
    | .oneOf => do return .includes (← context.anyOf field c.op c.value scope)
    | .noneOf => do
      let excluded ← context.anyOf field c.op c.value scope
      return .includes (.combine [.everything] [] [excluded])
    | .greater => do return .includes (← context.range field c.value ⟨true, false⟩ scope)
    | .greaterOrEqual => do return .includes (← context.range field c.value ⟨true, true⟩ scope)
    | .less => do return .includes (← context.range field c.value ⟨false, false⟩ scope)
    | .lessOrEqual => do return .includes (← context.range field c.value ⟨false, true⟩ scope)
    | .similar => do return .includes (← context.similar field c.value scope)
    | .notSimilar => do return ⟨true, ← context.similar field c.value scope⟩

/-- The lookups among several roles that include, and those that exclude. -/
def split (roles : List Role) : List Lookup × List Lookup :=
  ((roles.filter fun r => !r.excludes).map Role.lookup,
   (roles.filter fun r => r.excludes).map Role.lookup)

mutual

/-- Plans a tree. -/
def node (scope : Scope) : Tree → Except Error Role
  | .clause c => context.clause c scope
  | .all parts tags => do
    let (must, mustNot) := split (← nodes (tags.contentTypes? <|> scope) parts)
    return .includes (.combine must [] mustNot)
  | .any parts _ => do
    let (should, mustNot) := split (← nodes scope parts)
    return .includes (.combine [] should mustNot)
  | .negated tree _ => do
    let role ← node scope tree
    return { role with excludes := !role.excludes }
  | .sorted tree _ _ => node scope tree
  | .adjacent _ _ => .error .undecidedAdjacency

/-- Plans several trees in order. -/
def nodes (scope : Scope) : List Tree → Except Error (List Role)
  | [] => .ok []
  | tree :: rest => do
    let role ← node scope tree
    return role :: (← nodes scope rest)

end

/-- The lookup of a whole query; a negation alone excludes from nothing. -/
def root (tree : Tree) : Except Error Lookup := do
  let role ← context.node none tree
  return if role.excludes then .noneOf role.lookup else role.lookup

/-- The field that is sorted by: the ticks of a date. -/
def sortField (key : SortKey) : SortField :=
  match context.catalog.resolve key.field none with
  | .date => ⟨ticksField key.field, key.descending⟩
  | _ => ⟨key.field, key.descending⟩

/-- The lookup of a query and the order that it asks for. -/
def plan (tree : Tree) : Except Error (Lookup × Option (List SortField)) :=
  match tree with
  | .sorted inner keys _ => do return (← context.root inner, some (keys.map context.sortField))
  | _ => do return (← context.root tree, none)

end PlanContext

end DocIndex.Query
