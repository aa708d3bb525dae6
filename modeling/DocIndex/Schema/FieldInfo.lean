/-
What the index knows about its fields.

For each path in the documents of a content type there is a record of every kind of JSON
value seen there and of the native field that it became.  Records are kept as an increasing
list without repetitions, so what is known does not depend on the order in which it was
learned.  `FieldCatalog.resolve` and its companions decide how a field named in a query is
to be searched.
-/
import DocIndex.Analysis.Analyzer
import DocIndex.Document.Field

namespace DocIndex

/-- Types of JSON values; dates and time spans are texts that have the form of one. -/
inductive JsonType where
  | object
  | array
  | text
  | integer
  | float
  | boolean
  | null
  | undefined
  | date
  | timeSpan
deriving DecidableEq, Ord, Repr

namespace JsonType

def name : JsonType → String
  | object => "Object"
  | array => "Array"
  | text => "String"
  | integer => "Integer"
  | float => "Float"
  | boolean => "Boolean"
  | null => "Null"
  | undefined => "Undefined"
  | date => "Date"
  | timeSpan => "TimeSpan"

def all : List JsonType :=
  [object, array, text, integer, float, boolean, null, undefined, date, timeSpan]

/-- The type of a name. -/
def ofName? (s : String) : Option JsonType := all.find? fun type => type.name == s

end JsonType

/-- One observation: values of a type at a path became a native field of a kind. -/
structure FieldInfo where
  path : String
  jsonType : JsonType
  fieldName : String
  kind : FieldKind
  strategy : String
  /-- The analyzer of a text field. -/
  analyzer : Option String
deriving DecidableEq, Ord

/-- The observations of one content type, in increasing order and each once. -/
abbrev FieldInfos := List FieldInfo

namespace FieldInfos

/-- Adds an observation. -/
def add (infos : FieldInfos) (info : FieldInfo) : FieldInfos := insertSorted info infos

/-- Adds the observations of another collection. -/
def merge (infos others : FieldInfos) : FieldInfos := others.foldl add infos

/-- How many observations of another collection are new to this one. -/
def countNew (infos others : FieldInfos) : Nat :=
  (others.filter fun info => !infos.contains info).length

/-- The observations at a path. -/
def atPath (infos : FieldInfos) (path : String) : List FieldInfo :=
  infos.filter fun info => info.path == path

/-- The observations that became the given native field. -/
def ofField (infos : FieldInfos) (name : String) : List FieldInfo :=
  infos.filter fun info => info.fieldName == name

/-- The paths in order, each once. -/
def paths (infos : FieldInfos) : List String := sortedDistinct (infos.map FieldInfo.path)

end FieldInfos

/-- How a field is to be searched. -/
inductive FieldUse where
  | numeric (kind : FieldKind)
  | date
  | lexical
  | unknown
deriving DecidableEq, Repr

namespace FieldUse

/-- What one more observation makes of a field's use: dates win over numbers, numbers over terms. -/
def observe (use : FieldUse) (info : FieldInfo) : FieldUse :=
  if use = date then date
  else if info.jsonType = .date && info.kind.isLexical then date
  else if info.kind.isNumeric then numeric info.kind
  else match use with
    | numeric kind => numeric kind
    | _ => lexical

end FieldUse

/-- The observations of all content types. -/
abbrev FieldCatalog := Table String FieldInfos

namespace FieldCatalog

/-- Merges observations of one content type. -/
def merge (catalog : FieldCatalog) (contentType : String) (infos : FieldInfos) : FieldCatalog :=
  Table.alter catalog contentType fun known => (known.getD []).merge infos

/-- The collections of the given content types, in that order, or of all. -/
def within (catalog : FieldCatalog) (scope : Option (List String)) : List FieldInfos :=
  match scope with
  | some names => names.filterMap fun name => Table.find? catalog name
  | none => catalog.values

/-- The observations of a native field in the scope. -/
def observations (catalog : FieldCatalog) (field : String) (scope : Option (List String)) :
    List FieldInfo :=
  (catalog.within scope).flatMap fun infos => infos.ofField field

/-- How a field is to be searched. -/
def resolve (catalog : FieldCatalog) (field : String) (scope : Option (List String)) : FieldUse :=
  (catalog.observations field scope).foldl FieldUse.observe .unknown

/-- The names of the fields with terms that do not begin with a dollar sign, in order. -/
def lexicalFields (catalog : FieldCatalog) (scope : Option (List String)) : List String :=
  let infos := (catalog.within scope).flatten.filter fun info =>
    info.kind.isLexical && !"$".isPrefixOf info.fieldName
  sortedDistinct (infos.map FieldInfo.fieldName)

/-- The analyzer of the first text observation of a field. -/
def analyzer? (catalog : FieldCatalog) (field : String) (scope : Option (List String)) :
    Option String :=
  ((catalog.observations field scope).find? fun info => info.kind = .text).map fun info =>
    info.analyzer.getD Analyzers.standardName

/-- Whether a field holds text. -/
def isText (catalog : FieldCatalog) (field : String) (scope : Option (List String)) : Bool :=
  (catalog.analyzer? field scope).isSome

end FieldCatalog

end DocIndex
