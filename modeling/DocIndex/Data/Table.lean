/-
Tables: finite maps kept as lists of entries in increasing key order.

The list of entries is the whole content of a table, in the order in which it is listed and
written out, and two tables with the same entries are the same value.  `insert`, `modify`
and `erase` keep the order, and so every table built from `[]` with them is sorted.
-/

namespace DocIndex

/-- The entries of a finite map, by increasing key. -/
abbrev Table (κ β : Type) := List (κ × β)

namespace Table

variable {κ β : Type} [Ord κ]

/-- The value filed under `key`. -/
def find? : Table κ β → κ → Option β
  | [], _ => none
  | (k, v) :: rest, key =>
    match compare key k with
    | .lt => none
    | .eq => some v
    | .gt => find? rest key

/-- Whether something is filed under `key`. -/
def contains (table : Table κ β) (key : κ) : Bool := (table.find? key).isSome

/-- Files what `change` makes of the value now under `key`; the other entries stay. -/
def alter (table : Table κ β) (key : κ) (change : Option β → β) : Table κ β :=
  match table with
  | [] => [(key, change none)]
  | (k, v) :: rest =>
    match compare key k with
    | .lt => (key, change none) :: (k, v) :: rest
    | .eq => (key, change (some v)) :: rest
    | .gt => (k, v) :: alter rest key change

/-- Files `value` under `key` in place of what was there. -/
def insert (table : Table κ β) (key : κ) (value : β) : Table κ β :=
  table.alter key fun _ => value

/-- Removes the entry under `key`. -/
def erase : Table κ β → κ → Table κ β
  | [], _ => []
  | (k, v) :: rest, key =>
    match compare key k with
    | .lt => (k, v) :: rest
    | .eq => rest
    | .gt => (k, v) :: erase rest key

/-- The keys in increasing order. -/
def keys (table : Table κ β) : List κ := table.map Prod.fst

/-- The values in the order of their keys. -/
def values (table : Table κ β) : List β := table.map Prod.snd

/-- The table of the given entries; of two with one key the later stays. -/
def ofEntries (entries : List (κ × β)) : Table κ β :=
  entries.foldl (fun table entry => table.insert entry.1 entry.2) []

end Table

/-- Adds an element to a list in increasing order without repetitions. -/
def insertSorted {α : Type} [Ord α] (x : α) : List α → List α
  | [] => [x]
  | y :: rest =>
    match compare x y with
    | .lt => x :: y :: rest
    | .eq => y :: rest
    | .gt => y :: insertSorted x rest

/-- The elements of a list in increasing order, each once. -/
def sortedDistinct {α : Type} [Ord α] (xs : List α) : List α :=
  xs.foldl (fun sorted x => insertSorted x sorted) []

end DocIndex
