/-
JSON values.

Numbers are of two kinds: integers, which are exact, and doubles.  An object is a table, so
its members are in the order of their keys, and of members with one key the last counts.
-/
import DocIndex.Data.Table
import DocIndex.Number.Double

namespace DocIndex

/-- A JSON value. -/
inductive Json where
  | null
  | bool (value : Bool)
  | int (value : Int)
  | double (value : Double)
  | text (value : String)
  | array (items : List Json)
  | object (members : List (String × Json))
deriving Inhabited

namespace Json

/-- The value of an object's member. -/
def member? (key : String) : Json → Option Json
  | object members => Table.find? members key
  | _ => none

/-- The text, if the value is one. -/
def text? : Json → Option String
  | text value => some value
  | _ => none

/-- The object with the given members, the later of two with one key. -/
def ofMembers (members : List (String × Json)) : Json := object (Table.ofEntries members)

mutual

/-- Equality of values in which doubles are compared as numbers. -/
def same : Json → Json → Bool
  | null, null => true
  | bool a, bool b => a == b
  | int a, int b => a == b
  | double a, double b => a.same b
  | text a, text b => a == b
  | array as, array bs => sameItems as bs
  | object as, object bs => sameMembers as bs
  | _, _ => false

/-- Equality of arrays, item by item. -/
def sameItems : List Json → List Json → Bool
  | [], [] => true
  | a :: as, b :: bs => same a b && sameItems as bs
  | _, _ => false

/-- Equality of tables, member by member. -/
def sameMembers : List (String × Json) → List (String × Json) → Bool
  | [], [] => true
  | (k, a) :: as, (l, b) :: bs => k == l && same a b && sameMembers as bs
  | _, _ => false

end

end Json

end DocIndex
