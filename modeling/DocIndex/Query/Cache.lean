/-
A cache of query trees.

The entries stand in the order of their last use, the most recent first, and a text that does
not fit pushes the last entry out.  Only trees are kept: a text that does not parse is parsed
again whenever it is asked for.
-/
import DocIndex.Error
import DocIndex.Number.Double
import DocIndex.Query.Tree

namespace DocIndex.Query

/-- What a tree is kept under. -/
structure CacheKey where
  text : String
  /-- How adjacent queries were connected. -/
  adjacency : Connective
deriving DecidableEq

/-- The trees of queries that were asked for lately. -/
structure QueryCache where
  /-- How many trees were asked to be kept; 0 counts as 1. -/
  limit : Nat
  /-- The most recently used first. -/
  entries : List (CacheKey × Tree)
  hits : Nat
  misses : Nat

namespace QueryCache

/-- A cache without trees. -/
def empty (limit : Nat) : QueryCache := ⟨limit, [], 0, 0⟩

variable (cache : QueryCache)

/-- How many trees are kept at most. -/
def capacity : Nat := max cache.limit 1

def size : Nat := cache.entries.length

/-- The entries of all other keys. -/
def others (key : CacheKey) : List (CacheKey × Tree) :=
  cache.entries.filter fun entry => entry.1 ≠ key

/-- The tree that is kept under a key. -/
def find? (key : CacheKey) : Option Tree :=
  (cache.entries.find? fun entry => entry.1 = key).map Prod.snd

/-- Looks a tree up, which counts as a use of it. -/
def get (key : CacheKey) : Option Tree × QueryCache :=
  match cache.find? key with
  | some tree =>
    (some tree, { cache with entries := (key, tree) :: cache.others key, hits := cache.hits + 1 })
  | none => (none, { cache with misses := cache.misses + 1 })

/-- Keeps a tree. -/
def put (key : CacheKey) (tree : Tree) : QueryCache :=
  { cache with entries := ((key, tree) :: cache.others key).take cache.capacity }

/-- The tree under a key; one that is not kept is made and kept, if it can be made. -/
def getOrMake (key : CacheKey) (make : Except Error Tree) : Except Error Tree × QueryCache :=
  match cache.get key with
  | (some tree, cache) => (.ok tree, cache)
  | (none, cache) =>
    match make with
    | .ok tree => (.ok tree, cache.put key tree)
    | .error e => (.error e, cache)

/-- Forgets all trees; hits and misses stay counted. -/
def clear : QueryCache := { cache with entries := [] }

/-- The part of the look-ups that found a tree. -/
def hitRate : Double :=
  let total := cache.hits + cache.misses
  if total = 0 then .zero else .ofRatio false cache.hits total

end QueryCache

end DocIndex.Query
