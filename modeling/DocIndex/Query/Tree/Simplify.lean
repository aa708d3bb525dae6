/-
Bringing a query tree to its normal form.

Each rule looks at one node whose parts are already simplified and either leaves it or
replaces it.  `simplify` works from the leaves upwards and applies the rules at a node until
none of them changes it.  A rule can change a node only a few times: adjacency is resolved
once, a cancelled negation or a lone part is a simplified tree already, and grouping and
scoping are done after one application.  So three rounds are enough, the last of which
changes nothing.
-/
import DocIndex.Query.Tree

namespace DocIndex.Query

/-- What the rules depend on. -/
structure Conventions where
  /-- How adjacent queries are connected. -/
  adjacency : Connective
  /-- The field whose clauses restrict the content types. -/
  contentTypeField : String

namespace Tree

/-- Adjacent queries are connected as the conventions say. -/
def resolveAdjacency (adjacency : Connective) : Tree → Option Tree
  | adjacent parts tags =>
    match adjacency with
    | .and => some (all parts tags)
    | .or => some (any parts tags)
  | _ => none

/-- A negated negation is what it negates. -/
def cancelNegations : Tree → Option Tree
  | negated (negated tree _) _ => some tree
  | _ => none

/-- A composite of a single part is that part. -/
def unwrapSingle : Tree → Option Tree
  | all [tree] _ | any [tree] _ | adjacent [tree] _ => some tree
  | _ => none

/-! ### Grouping clauses by field -/

/-- The field of a clause that names one. -/
def field? : Tree → Option String
  | clause c => c.field
  | _ => none

/-- Puts a tree after the earlier clauses on its field, or at the end if there are none. -/
def addToGroups (groups : List (List Tree)) (tree : Tree) : List (List Tree) :=
  let onSameField := fun group : List Tree =>
    tree.field?.isSome && (group.head?.bind field?) == tree.field?
  match groups with
  | [] => [[tree]]
  | group :: rest =>
    if onSameField group then (group ++ [tree]) :: rest else group :: addToGroups rest tree

/-- The parts with clauses on one field together, in the order of their first appearance. -/
def groupByField (parts : List Tree) : List (List Tree) := parts.foldl addToGroups []

/-- Whether a clause holds for the documents that have one of its values. -/
def isPositive (op : Operator) : Bool := op == .plain || op == .equals || op == .oneOf

/-- Whether a clause holds for the documents that have none of its values. -/
def isNegative (op : Operator) : Bool := op == .notEquals || op == .noneOf

/-- Adds a value to a list unless an equal one is there. -/
def addValue (values : List Value) (value : Value) : List Value :=
  if values.any fun v => v.same value then values else values ++ [value]

/-- The clause among the trees of one kind of operator, if this is one. -/
def clauseOfKind? (kind : Operator → Bool) : Tree → Option Clause
  | clause c => if kind c.op then some c else none
  | _ => none

/-- Drops the clauses of one kind. -/
def withoutKind (kind : Operator → Bool) (trees : List Tree) : List Tree :=
  trees.filter fun tree => (clauseOfKind? kind tree).isNone

/-- Replaces the first clause of one kind by a list of the given values and drops the others. -/
def mergeAtFirst (kind : Operator → Bool) (op : Operator) (values : List Value) :
    List Tree → List Tree
  | [] => []
  | tree :: rest =>
    match clauseOfKind? kind tree with
    | some c => clause { c with op := op, value := .list values } :: withoutKind kind rest
    | none => tree :: mergeAtFirst kind op values rest

/-- Merges two or more clauses of one kind into one that lists their values, each once. -/
def mergeKind (kind : Operator → Bool) (op : Operator) (group : List Tree) : List Tree :=
  let clauses := group.filterMap (clauseOfKind? kind)
  if clauses.length < 2 then group
  else
    let values := (clauses.flatMap fun c => c.value.scalars).foldl addValue []
    mergeAtFirst kind op values group

/-- Merges the alternatives on one field: those that list values, and those that exclude them. -/
def mergeAlternatives (group : List Tree) : List Tree :=
  mergeKind isNegative .noneOf (mergeKind isPositive .oneOf group)

/-- Clauses on one field stand together, and as alternatives they are merged. -/
def groupFields : Tree → Option Tree
  | all parts tags =>
    let grouped := (groupByField parts).flatten
    if sameAll grouped parts then none else some (all grouped tags)
  | any parts tags =>
    let grouped := (groupByField parts).flatMap mergeAlternatives
    if sameAll grouped parts then none else some (any grouped tags)
  | _ => none

/-! ### Content types -/

/-- The texts that a clause on the content type field asks for. -/
def contentTypesOf (field : String) : Tree → List String
  | clause c =>
    if c.field == some field && (c.op == .equals || c.op == .oneOf) then
      c.value.items.filterMap fun
        | .word s | .phrase s => some s
        | _ => none
    else []
  | _ => []

/-- A conjunction is tagged with the content types that its clauses ask for. -/
def scopeContentTypes (field : String) : Tree → Option Tree
  | all parts tags =>
    let names := (parts.flatMap (contentTypesOf field)).foldl
      (fun found name => if found.contains name then found else found ++ [name]) []
    if names.isEmpty || tags.contentTypes? == some names then none
    else some (all parts (tags.setContentTypes names))
  | _ => none

/-! ### Rounds -/

/-- The rules in the order in which they are tried. -/
def rules (conventions : Conventions) : List (Tree → Option Tree) :=
  [ resolveAdjacency conventions.adjacency, cancelNegations, groupFields, unwrapSingle,
    scopeContentTypes conventions.contentTypeField ]

/-- Tries every rule once, each on what the rules before it left; tells whether any applied. -/
def round (rules : List (Tree → Option Tree)) (tree : Tree) : Tree × Bool :=
  rules.foldl (fun (tree, changed) rule =>
    match rule tree with
    | some next => (next, true)
    | none => (tree, changed)) (tree, false)

/-- Repeats rounds until one changes nothing, at most as many as the fuel. -/
def settle (rules : List (Tree → Option Tree)) : Nat → Tree → Tree
  | 0, tree => tree
  | fuel + 1, tree =>
    let (next, changed) := round rules tree
    if changed then settle rules fuel next else next

/-- The rounds that are enough for every node with simplified parts. -/
def maxRounds : Nat := 3

mutual

/-- The normal form of a tree. -/
def simplify (conventions : Conventions) : Tree → Tree
  | clause c => settle (rules conventions) maxRounds (clause c)
  | all parts tags =>
    settle (rules conventions) maxRounds (all (simplifyAll conventions parts) tags)
  | any parts tags =>
    settle (rules conventions) maxRounds (any (simplifyAll conventions parts) tags)
  | adjacent parts tags =>
    settle (rules conventions) maxRounds (adjacent (simplifyAll conventions parts) tags)
  | negated tree tags =>
    settle (rules conventions) maxRounds (negated (simplify conventions tree) tags)
  | sorted tree keys tags => sorted (simplify conventions tree) keys tags

/-- The normal forms of several trees. -/
def simplifyAll (conventions : Conventions) : List Tree → List Tree
  | [] => []
  | tree :: rest => simplify conventions tree :: simplifyAll conventions rest

end

end Tree

end DocIndex.Query
