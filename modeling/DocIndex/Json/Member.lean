/-
Strict reading of records: objects whose members are known.

A member that is asked for must stand once, and members that are not asked for are passed
over.  In place of an object an array may give the values of all members in their order.
-/
import DocIndex.Json.Value
import DocIndex.Number.Integer

namespace DocIndex.Json.Member

/-- The value of a member that stands exactly once. -/
def once? (members : List (String × Json)) (name : String) : Option Json :=
  match members.filter fun member => member.1 == name with
  | [(_, value)] => some value
  | _ => none

/-- The value of a member that stands at most once; a missing one counts as null. -/
def optional? (members : List (String × Json)) (name : String) : Option Json :=
  if members.any fun member => member.1 == name then once? members name else some .null

/-- The members of an object, or of an array that gives the values of the named members. -/
def ofRecord? (names : List String) : Json → Option (List (String × Json))
  | .object members => some members
  | .array values => if values.length = names.length then some (names.zip values) else none
  | _ => none

/-- An unsigned integer of 64 bits. -/
def natural? : Json → Option Nat
  | .int n => if 0 ≤ n && n.toNat ≤ uint64Max then some n.toNat else none
  | _ => none

def texts? : Json → Option (List String)
  | .array items => items.mapM Json.text?
  | _ => none

/-- A text, or null for none. -/
def optionalText? : Json → Option (Option String)
  | .null => some none
  | .text s => some (some s)
  | _ => none

/-- A table whose values are read by `read?`; of two entries with one key the later stays. -/
def table? {α : Type} (read? : Json → Option α) : Json → Option (Table String α)
  | .object members =>
    (members.mapM fun member => (read? member.2).map fun value => (member.1, value)).map
      Table.ofEntries
  | _ => none

end DocIndex.Json.Member
