/-
Query trees.

The leaves are clauses, which compare a field, or any field, with a value.  Clauses that
merely stand beside each other are `adjacent` until the default connective is known.  Every
node carries tags, and the one tag with a meaning here lists the content types that a
conjunction is restricted to.
-/
import DocIndex.Json.Value
import DocIndex.Query.Value

namespace DocIndex.Query

/-- Tags of a node, by name. -/
abbrev Tags := Table String Json

namespace Tags

/-- The name of the tag that lists content types. -/
def contentTypesKey : String := "contentTypes"

/-- The content types listed in the tags; what is not a text is skipped. -/
def contentTypes? (tags : Tags) : Option (List String) :=
  match Table.find? tags contentTypesKey with
  | some (.array items) => some (items.filterMap Json.text?)
  | _ => none

/-- Lists content types in the tags. -/
def setContentTypes (tags : Tags) (names : List String) : Tags :=
  Table.insert tags contentTypesKey (.array (names.map Json.text))

end Tags

/-- A comparison of a field with a value; without a name any field will do. -/
structure Clause where
  field : Option String
  op : Operator
  value : Value
  tags : Tags

namespace Clause

/-- Equality of clauses, with values and tags compared as such. -/
def same (a b : Clause) : Bool :=
  a.field == b.field && a.op == b.op && a.value.same b.value && Json.sameMembers a.tags b.tags

/-- The clause as query text. -/
def write (c : Clause) : String :=
  match c.field with
  | none => c.value.write
  | some name =>
    if c.op = .plain then name ++ ": " ++ c.value.write
    else name ++ " " ++ c.op.symbol ++ " " ++ c.value.write

end Clause

/-- A field to sort by. -/
structure SortKey where
  field : String
  descending : Bool
deriving DecidableEq

namespace SortKey

def write (key : SortKey) : String := key.field ++ if key.descending then " DESC" else " ASC"

end SortKey

/-- How clauses that stand beside each other are connected. -/
inductive Connective where
  | and
  | or
deriving DecidableEq, Repr

/-- A query. -/
inductive Tree where
  | clause (clause : Clause)
  | all (parts : List Tree) (tags : Tags)
  | any (parts : List Tree) (tags : Tags)
  | adjacent (parts : List Tree) (tags : Tags)
  | negated (tree : Tree) (tags : Tags)
  | sorted (tree : Tree) (keys : List SortKey) (tags : Tags)

namespace Tree

instance : Inhabited Tree := ⟨all [] []⟩

/-- A comparison of the named field. -/
def compare (field : String) (op : Operator) (value : Value) : Tree :=
  clause ⟨some field, op, value, []⟩

/-- A value that any field may match. -/
def anywhere (value : Value) : Tree := clause ⟨none, .plain, value, []⟩

/-- The query that every document matches. -/
def everything : Tree := anywhere .everything

/-- The tags of the root. -/
def tags : Tree → Tags
  | clause c => c.tags
  | all _ tags | any _ tags | adjacent _ tags => tags
  | negated _ tags => tags
  | sorted _ _ tags => tags

/-- The same tree with the tags of its root changed. -/
def mapTags (change : Tags → Tags) : Tree → Tree
  | clause c => clause { c with tags := change c.tags }
  | all parts tags => all parts (change tags)
  | any parts tags => any parts (change tags)
  | adjacent parts tags => adjacent parts (change tags)
  | negated tree tags => negated tree (change tags)
  | sorted tree keys tags => sorted tree keys (change tags)

mutual

/-- The number of nodes. -/
def size : Tree → Nat
  | clause _ => 1
  | all parts _ | any parts _ | adjacent parts _ => 1 + sizeOfAll parts
  | negated tree _ => 1 + size tree
  | sorted tree _ _ => 1 + size tree

/-- The number of nodes of several trees. -/
def sizeOfAll : List Tree → Nat
  | [] => 0
  | tree :: rest => size tree + sizeOfAll rest

end

mutual

/-- Equality of trees, with values and tags compared as such. -/
def same : Tree → Tree → Bool
  | clause a, clause b => a.same b
  | all as s, all bs t => sameAll as bs && Json.sameMembers s t
  | any as s, any bs t => sameAll as bs && Json.sameMembers s t
  | adjacent as s, adjacent bs t => sameAll as bs && Json.sameMembers s t
  | negated a s, negated b t => same a b && Json.sameMembers s t
  | sorted a ks s, sorted b ls t => same a b && ks == ls && Json.sameMembers s t
  | _, _ => false

/-- Equality of lists of trees, place by place. -/
def sameAll : List Tree → List Tree → Bool
  | [], [] => true
  | a :: as, b :: bs => same a b && sameAll as bs
  | _, _ => false

end

mutual

/-- The query as text. -/
def write : Tree → String
  | clause c => c.write
  | all parts _ => "(" ++ writeAll " AND " parts ++ ")"
  | any parts _ => "(" ++ writeAll " OR " parts ++ ")"
  | adjacent parts _ => "(" ++ writeAll " " parts ++ ")"
  | negated tree _ => "NOT " ++ write tree
  | sorted tree keys _ => write tree ++ " ORDER BY " ++ ", ".intercalate (keys.map SortKey.write)

/-- Several queries as text with a separator between them. -/
def writeAll (separator : String) : List Tree → String
  | [] => ""
  | [tree] => write tree
  | tree :: rest => write tree ++ separator ++ writeAll separator rest

end

end Tree

end DocIndex.Query
