/-
Sources: work that is asked for when there is room for it.

A batch source hands its items out in batches.  It ends at the first batch that is rejected,
or when the items are used up, and then it has a result.
-/
import DocIndex.Error

namespace DocIndex.Work

/-- Items that are handed out in batches. -/
structure BatchSource (α : Type) where
  items : List α
  batchSize : Nat
  /-- How many items were accepted. -/
  submitted : Nat
  /-- How it ended: the number of items, or why a batch was rejected. -/
  result : Option (Except Error Nat)

namespace BatchSource

variable {α ω : Type}

/-- A source of items; a batch has at least one. -/
def ofItems (items : List α) (batchSize : Nat) : BatchSource α := ⟨items, max batchSize 1, 0, none⟩

/-- Whether there may be more to come. -/
def isActive (source : BatchSource α) : Bool := source.result.isNone

/-- Hands the next batch to `submit`, which changes a state and may reject the batch. -/
def pull (submit : List α → ω → Except Error Unit × ω) (source : BatchSource α) (state : ω) :
    BatchSource α × ω :=
  if source.isActive then
    let batch := source.items.take source.batchSize
    let rest := { source with items := source.items.drop source.batchSize }
    let (verdict, state) := if batch.isEmpty then (.ok (), state) else submit batch state
    match verdict with
    | .error e => ({ rest with result := some (.error e) }, state)
    | .ok _ =>
      let submitted := source.submitted + batch.length
      let result := if batch.length < source.batchSize then some (.ok submitted) else none
      ({ rest with submitted, result }, state)
  else (source, state)

/-- What one who waits for the end of a source gets once it is gone. -/
def outcome (source : BatchSource α) : Except Error Nat :=
  source.result.getD (.error .sourceDropped)

end BatchSource

/-- Asks sources for work, one after the other; those that have more stay. -/
def pullAll {ς ω : Type} (pull : ς → ω → Option ς × ω) : List ς → ω → List ς × ω
  | [], state => ([], state)
  | source :: rest, state =>
    let (left, state) := pull source state
    let (kept, state) := pullAll pull rest state
    (left.toList ++ kept, state)

end DocIndex.Work
