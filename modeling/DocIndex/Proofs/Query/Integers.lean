/-
Comparing a field of integers.

If all values at a path are integers, each of them becomes a searched integer under that path,
and nothing else does.  So what is known of the field is that it holds integers, or nothing
if no document has a value there, and either way a comparison is planned as a question about
numbers that the document answers from the values at the path alone.

Where nothing is known a comparison is planned otherwise, with another kind of bound or as a
search for a term, but then no document has a value and none may be found.
-/
import DocIndex.Proofs.Document.Numbers
import DocIndex.Proofs.Query.Planning

namespace DocIndex

/-! ### Integers in a document -/

namespace Json

/-- Whether a value is an integer of 64 bits. -/
def isInt64 : Json → Bool
  | .int n => fitsInt64 n
  | _ => false

theorem isInt64_iff {value : Json} :
    value.isInt64 = true ↔ ∃ n, value = .int n ∧ fitsInt64 n = true := by
  cases value <;> simp [isInt64]

/-- Every value of a document at a path is an integer of 64 bits. -/
def IntegersAt (json : Json) (path : String) : Prop :=
  ∀ value ∈ json.valuesAt path, value.isInt64 = true

instance (json : Json) (path : String) : Decidable (json.IntegersAt path) :=
  inferInstanceAs (Decidable (∀ value ∈ json.valuesAt path, value.isInt64 = true))

end Json

namespace DocumentBuilder

/-- Values at a path are projected by default, and no part of a value has its name. -/
structure DefaultAt (builder : DocumentBuilder) (path : String) : Prop where
  configured : builder.fields.configured = []
  notIdentity : path ∉ builder.fields.identityPaths
  segment : (Field.lastSegment path).head? ≠ some '@'

theorem DefaultAt.plainAt {builder : DocumentBuilder} {path : String}
    (h : builder.DefaultAt path) : builder.PlainAt path where
  configured := by simp [h.configured]
  notIdentity := h.notIdentity
  segment := h.segment

end DocumentBuilder

/-- An integer of 64 bits is indexed as it is. -/
theorem Json.numeric?_eq_some_of_isInt64 {value : Json} (h : value.isInt64 = true) {n : Numeric} :
    value.numeric? = some n ↔ ∃ m, value = .int m ∧ n = .long m := by
  obtain ⟨m, rfl, hm⟩ := Json.isInt64_iff.mp h
  simp [Json.numeric?, hm, eq_comm]

theorem Json.IntegersAt.numbersAt {json : Json} {path : String} (h : json.IntegersAt path) :
    json.NumbersAt path := by
  intro value hvalue
  obtain ⟨m, rfl, -⟩ := Json.isInt64_iff.mp (h value hvalue)
  rfl

/-- The numbers of the field are the integers at the path. -/
theorem Held.Made.mem_numbersIn_of_integers {builder : DocumentBuilder} {path : String}
    {held : Held} (hmade : held.Made builder) (h : builder.PlainAt path)
    (hints : held.json.IntegersAt path) (x : Numeric) :
    x ∈ InvertedIndex.numbersIn held.fields path ↔
      ∃ n, .int n ∈ held.json.valuesAt path ∧ x = .long n := by
  rw [hmade.mem_numbersIn h hints.numbersAt]
  constructor
  · rintro ⟨value, hvalue, hx⟩
    obtain ⟨n, rfl, rfl⟩ := (Json.numeric?_eq_some_of_isInt64 (hints value hvalue)).mp hx
    exact ⟨n, hvalue, rfl⟩
  · rintro ⟨n, hvalue, rfl⟩
    exact ⟨_, hvalue, (Json.numeric?_eq_some_of_isInt64 (hints _ hvalue)).mpr ⟨n, rfl, rfl⟩⟩

/-! ### Comparisons -/

namespace Query

/-- What a comparison with an integer asks of an integer, the bound last. -/
def Operator.compares? : Operator → Option (Int → Int → Bool)
  | .equals => some fun v n => v == n
  | .greater => some fun v n => n < v
  | .greaterOrEqual => some fun v n => n ≤ v
  | .less => some fun v n => v < n
  | .lessOrEqual => some fun v n => v ≤ n
  | _ => none

/-- The orderings, of a value to the bound, on a side. -/
def Side.accepts (side : Side) : Ordering → Bool
  | .lt => !side.above
  | .eq => side.inclusive
  | .gt => side.above

/-- The orderings, of a value to the bound, that a comparison accepts. -/
def Operator.accepts? : Operator → Option (Ordering → Bool)
  | .equals => some fun o => o == .eq
  | op => (Side.ofOperator? op).map Side.accepts

section Intervals

variable {α : Type} {order? : α → α → Option Ordering} {value bound : α} {o : Ordering}

theorem Side.contains_interval_of_order (h : order? value bound = some o) (side : Side) :
    (side.interval bound).contains order? value = side.accepts o := by
  obtain ⟨above, inclusive⟩ := side
  cases above <;> cases inclusive <;> cases o <;>
    simp [interval, Interval.above, Interval.below, Interval.contains, accepts, h]

theorem contains_exactly_of_order (h : order? value bound = some o) :
    (Interval.exactly bound).contains order? value = (o == .eq) := by
  cases o <;> simp [Interval.exactly, Interval.contains, h]

end Intervals

theorem compare_beq_eq {α : Type} [BEq α] [LawfulBEq α] [Ord α] [Std.LawfulEqOrd α] (v n : α) :
    (compare v n == .eq) = (v == n) := by
  rw [Bool.eq_iff_iff, beq_iff_eq, beq_iff_eq, Std.compare_eq_iff_eq]

theorem contains_exactly (v n : Int) :
    (Interval.exactly (Numeric.long n)).contains Numeric.order? (.long v) = (v == n) :=
  (contains_exactly_of_order rfl).trans (compare_beq_eq v n)

/-- Whether an integer is on a side of another. -/
def Side.holds (side : Side) (v n : Int) : Bool :=
  match side with
  | ⟨true, false⟩ => n < v
  | ⟨true, true⟩ => n ≤ v
  | ⟨false, false⟩ => v < n
  | ⟨false, true⟩ => v ≤ n

theorem Side.accepts_compare (side : Side) (v n : Int) :
    side.accepts (compare v n) = side.holds v n := by
  obtain ⟨above, inclusive⟩ := side
  rcases lt_trichotomy v n with h | rfl | h
  · cases above <;> cases inclusive <;>
      simp [Int.compare_eq_lt.mpr h, accepts, holds, h, h.le, h.not_gt]
  · cases above <;> cases inclusive <;> simp [accepts, holds]
  · cases above <;> cases inclusive <;>
      simp [Int.compare_eq_gt.mpr h, accepts, holds, h, h.le, h.not_gt]

theorem contains_interval (side : Side) (v n : Int) :
    (side.interval (Numeric.long n)).contains Numeric.order? (.long v) = side.holds v n :=
  (side.contains_interval_of_order rfl).trans (side.accepts_compare v n)

/-- A comparison asks of an integer how it lies to the bound. -/
theorem Operator.exists_accepts {op : Operator} {holds : Int → Int → Bool}
    (h : op.compares? = some holds) : ∃ accepts, op.accepts? = some accepts ∧
      ∀ v n : Int, holds v n = accepts (compare v n) := by
  have hside : ∀ (side : Side) v n, side.holds v n = side.accepts (compare v n) :=
    fun side v n => (side.accepts_compare v n).symm
  cases op with
  | equals => exact ⟨_, rfl, Option.some.inj h ▸ fun v n => (compare_beq_eq v n).symm⟩
  | greater => exact ⟨_, rfl, Option.some.inj h ▸ hside ⟨true, false⟩⟩
  | greaterOrEqual => exact ⟨_, rfl, Option.some.inj h ▸ hside ⟨true, true⟩⟩
  | less => exact ⟨_, rfl, Option.some.inj h ▸ hside ⟨false, false⟩⟩
  | lessOrEqual => exact ⟨_, rfl, Option.some.inj h ▸ hside ⟨false, true⟩⟩
  | _ => cases h

namespace PlanContext

/-- A comparison is planned as equality is, or as the side of its operator. -/
theorem clause_of_sides {context : PlanContext} {field : String} {value : Value}
    {P : (Ordering → Bool) → Lookup → Prop}
    (hexact : ∃ lookup, context.exact field value none = .ok lookup ∧
      P (fun o => o == .eq) lookup)
    (hrange : ∀ side, ∃ lookup, context.range field value side none = .ok lookup ∧
      P (Side.accepts side) lookup)
    {op : Operator} {accepts : Ordering → Bool} (hop : op.accepts? = some accepts) :
    ∃ lookup, context.clause ⟨some field, op, value, []⟩ none = .ok (.includes lookup) ∧
      P accepts lookup := by
  have hside : ∀ side : Side, ∃ lookup,
      (do return Role.includes (← context.range field value side none))
        = Except.ok (Role.includes lookup) ∧ P side.accepts lookup := by
    intro side
    obtain ⟨lookup, hlookup, hasks⟩ := hrange side
    exact ⟨lookup, bind_eq_ok.mpr ⟨lookup, hlookup, rfl⟩, hasks⟩
  cases op with
  | equals =>
      obtain ⟨lookup, hlookup, hasks⟩ := hexact
      obtain rfl := Option.some.inj hop
      exact ⟨lookup, bind_eq_ok.mpr ⟨lookup, hlookup, rfl⟩, hasks⟩
  | greater => exact Option.some.inj hop ▸ hside ⟨true, false⟩
  | greaterOrEqual => exact Option.some.inj hop ▸ hside ⟨true, true⟩
  | less => exact Option.some.inj hop ▸ hside ⟨false, false⟩
  | lessOrEqual => exact Option.some.inj hop ▸ hside ⟨false, true⟩
  | _ => cases hop

/-- A lookup that a document satisfies exactly if some integer of it at the path passes. -/
def AsksAt (entries : List Held) (path : String) (test : Int → Bool) (lookup : Lookup) : Prop :=
  ∀ held ∈ entries, InvertedIndex.satisfies held.fields lookup = true ↔
    ∃ n, .int n ∈ held.json.valuesAt path ∧ test n = true

variable {builder : DocumentBuilder} {store : DocumentStore} {entries : List Held}
  {path : String} {context : PlanContext}

section Held

variable (hholds : store.Holds builder entries) (hplain : builder.PlainAt path)
  (hints : ∀ held ∈ entries, held.json.IntegersAt path)

include hholds hplain hints

/-- An interval of numbers asks the integers at the path to lie in it. -/
theorem asksAt_numbers (interval : Interval Numeric) :
    AsksAt entries path (fun n => interval.contains Numeric.order? (.long n))
      (.numbers path interval) := by
  intro held hheld
  show (InvertedIndex.numbersIn held.fields path).any _ = true ↔ _
  rw [List.any_eq_true]
  simp only [(hholds.made held hheld).mem_numbersIn_of_integers hplain (hints held hheld)]
  constructor
  · rintro ⟨_, ⟨n, hvalue, rfl⟩, hcontains⟩
    exact ⟨n, hvalue, hcontains⟩
  · rintro ⟨n, hvalue, hcontains⟩
    exact ⟨.long n, ⟨n, hvalue, rfl⟩, hcontains⟩

/-- Where no document has a value, no document is found by a term either. -/
theorem asksAt_of_none (hnone : ∀ held ∈ entries, ∀ n, .int n ∉ held.json.valuesAt path)
    (test : Int → Bool) {lookup : Lookup}
    (hlookup : (∃ term, lookup = .term path term) ∨ ∃ interval, lookup = .numbers path interval) :
    AsksAt entries path test lookup := by
  intro held hheld
  refine iff_of_false ?_ ?_
  · rcases hlookup with ⟨term, rfl⟩ | ⟨interval, rfl⟩
    · have hterm := (hholds.made held hheld).hasTerm_eq_false hplain (hints held hheld).numbersAt
        fun other => other == term
      exact fun hfound => Bool.false_ne_true (hterm.symm.trans hfound)
    · rw [asksAt_numbers hholds hplain hints interval held hheld]
      rintro ⟨n, hvalue, -⟩
      exact hnone held hheld n hvalue
  · rintro ⟨n, hvalue, -⟩
    exact hnone held hheld n hvalue

/-- The field is known to hold integers, or nothing is known of it and no document has one. -/
theorem observations_of_integers (hcatalog : context.catalog = store.catalog) :
    (context.catalog.resolve path none = .numeric .long) ∨
      (context.catalog.observations path none = [] ∧
        ∀ held ∈ entries, ∀ n, .int n ∉ held.json.valuesAt path) := by
  rw [hcatalog]
  rcases hholds.resolve_of_numbers hplain fun held hheld => (hints held hheld).numbersAt with
    ⟨held, hheld, value, hvalue, x, hx, hresolve⟩ | ⟨hunseen, hnone⟩
  · obtain ⟨n, -, rfl⟩ := (Json.numeric?_eq_some_of_isInt64 (hints held hheld value hvalue)).mp hx
    exact .inl hresolve
  · refine .inr ⟨hunseen, fun held hheld n hvalue => ?_⟩
    rw [hnone held hheld] at hvalue
    cases hvalue

/-- Looking up an integer asks for it at the path. -/
theorem exact_integer (hcatalog : context.catalog = store.catalog) (n : Int) :
    ∃ lookup, context.exact path (.integer n) none = .ok lookup ∧
      AsksAt entries path (fun v => v == n) lookup := by
  have hexact : context.exact path (.integer n) none
      = context.numberLookup path (.integer n) (integerAs n) none := rfl
  rw [hexact, numberLookup]
  rcases observations_of_integers hholds hplain hints hcatalog with hresolve | ⟨hunseen, hnone⟩
  · have htest : (fun v => v == n)
        = fun v => (Interval.exactly (Numeric.long n)).contains Numeric.order? (.long v) :=
      funext fun v => (contains_exactly v n).symm
    rw [hresolve, htest]
    exact ⟨_, rfl, asksAt_numbers hholds hplain hints _⟩
  · have hresolve : context.catalog.resolve path none = .unknown := by
      rw [FieldCatalog.resolve, hunseen]
      rfl
    have hterms : context.textTerms path (Value.integer n).write none = .ok none := by
      rw [textTerms, FieldCatalog.analyzer?, hunseen]
      rfl
    refine ⟨.term path (Value.integer n).write, ?_,
      asksAt_of_none hholds hplain hints hnone _ (Or.inl ⟨_, rfl⟩)⟩
    rw [hresolve, analysed, hterms]
    rfl

/-- Looking for integers on a side of one asks for those at the path. -/
theorem range_integer (hcatalog : context.catalog = store.catalog) (n : Int) (side : Side) :
    ∃ lookup, context.range path (.integer n) side none = .ok lookup ∧
      AsksAt entries path (fun v => side.holds v n) lookup := by
  have hrange : context.range path (.integer n) side none
      = .ok (context.numberRange path (.integer n) (integerAs n) side none) := rfl
  rw [hrange, numberRange]
  rcases observations_of_integers hholds hplain hints hcatalog with hresolve | ⟨hunseen, hnone⟩
  · have htest : (fun v => side.holds v n)
        = fun v => (side.interval (Numeric.long n)).contains Numeric.order? (.long v) :=
      funext fun v => (contains_interval side v n).symm
    rw [hresolve, htest]
    exact ⟨_, rfl, asksAt_numbers hholds hplain hints _⟩
  · have hresolve : context.catalog.resolve path none = .unknown := by
      rw [FieldCatalog.resolve, hunseen]
      rfl
    rw [hresolve]
    exact ⟨_, rfl, asksAt_of_none hholds hplain hints hnone _ (Or.inr ⟨_, rfl⟩)⟩

/-- Looking up a list of integers asks for one of them at the path. -/
theorem anyOf_integers (hcatalog : context.catalog = store.catalog) (ns : List Int) :
    ∃ lookup, context.anyOf path .oneOf (.list (ns.map .integer)) none = .ok lookup ∧
      AsksAt entries path (fun v => ns.contains v) lookup := by
  obtain ⟨lookups, hlookups⟩ := exists_forall₂.mpr fun n (_ : n ∈ ns) =>
    exact_integer hholds hplain hints hcatalog n
  have hplanned : (ns.map Value.integer).mapM (fun v => context.exact path v none)
      = .ok lookups :=
    mapM_eq_ok.mpr (List.forall₂_map_left_iff.mpr (hlookups.imp fun _ _ h => h.1))
  refine ⟨.anyOf lookups, bind_eq_ok.mpr ⟨lookups, hplanned, rfl⟩, fun held hheld => ?_⟩
  have hany : InvertedIndex.satisfies held.fields (.anyOf lookups)
      = InvertedIndex.satisfiesAny held.fields lookups := Bool.and_true _
  rw [hany]
  clear hplanned hany
  induction hlookups with
  | nil => simp [InvertedIndex.satisfiesAny]
  | @cons n lookup rest others hfirst _ ih =>
      rw [InvertedIndex.satisfiesAny, Bool.or_eq_true]
      refine (or_congr (hfirst.2 held hheld) ih).trans ?_
      simp only [List.contains_cons, Bool.or_eq_true, ← exists_or, ← and_or_left]

/-- A comparison with an integer asks for integers at the path for which it holds. -/
theorem clause_integer (hcatalog : context.catalog = store.catalog) {op : Operator}
    {holds : Int → Int → Bool} (hop : op.compares? = some holds) (n : Int) :
    ∃ lookup, context.clause ⟨some path, op, .integer n, []⟩ none = .ok (.includes lookup) ∧
      AsksAt entries path (fun v => holds v n) lookup := by
  obtain ⟨accepts, haccepts, hall⟩ := Operator.exists_accepts hop
  have htest : (fun v => holds v n) = fun v => accepts (compare v n) := funext fun v => hall v n
  rw [htest]
  refine clause_of_sides (P := fun accepts lookup =>
    AsksAt entries path (fun v => accepts (compare v n)) lookup) ?_ (fun side => ?_) haccepts
  · simp only [compare_beq_eq]
    exact exact_integer hholds hplain hints hcatalog n
  · simp only [Side.accepts_compare]
    exact range_integer hholds hplain hints hcatalog n side

end Held

/-- The query is planned, and finds the live documents with an integer at the path that passes. -/
def FindsAt (context : PlanContext) (index : InvertedIndex) (documents : List Json)
    (path : String) (tree : Tree) (test : Int → Bool) : Prop :=
  ∃ lookup, context.plan tree = .ok (lookup, none) ∧
    ∀ doc, doc ∈ index.matching lookup ↔ doc ∈ index.live ∧
      ∃ json, documents[doc]? = some json ∧ ∃ n, .int n ∈ json.valuesAt path ∧ test n = true

/-- A clause that asks for integers finds the documents that have them. -/
theorem findsAt_of_asksAt (hholds : store.Holds builder entries) {c : Clause} {lookup : Lookup}
    (hclause : context.clause c none = .ok (.includes lookup)) {test : Int → Bool}
    (hasks : AsksAt entries path test lookup) (conventions : Conventions) :
    context.FindsAt store.writer.index (entries.map Held.json) path
      ((Tree.clause c).simplify conventions) test := by
  exact ⟨lookup, plan_clause hclause conventions, fun _ => hholds.mem_matching_of_satisfies
    (fun json => ∃ n, Json.int n ∈ json.valuesAt path ∧ test n = true) hasks⟩

/--
**Comparisons with integers find the documents that have one.**  Take a new store of which any
requests were made, with default strategies, and a path at which all their documents have only
integers of 64 bits, however deep in objects and arrays.  A comparison of that field with an
integer, or with a list of integers, then is planned, and finds exactly the live documents with
a value at the path for which the comparison holds.
-/
theorem matching_integers (builder : DocumentBuilder) (path : String)
    (hdefault : builder.DefaultAt path) (next : IdentifierSupply) (requests : List WriteRequest)
    (edits : List Edit) (hedits : builder.convert next requests = .ok edits)
    (hints : ∀ json ∈ builder.prepared next requests, json.IntegersAt path)
    (context : PlanContext) (hcatalog : context.catalog = (builder.storeOf edits).catalog)
    (conventions : Conventions) :
    (∀ op holds, Operator.compares? op = some holds → ∀ n,
      context.FindsAt (builder.storeOf edits).writer.index (builder.prepared next requests) path
        ((Tree.compare path op (.integer n)).simplify conventions) fun v => holds v n) ∧
    ∀ ns : List Int,
      context.FindsAt (builder.storeOf edits).writer.index (builder.prepared next requests) path
        ((Tree.compare path .oneOf (.list (ns.map .integer))).simplify conventions)
        fun v => ns.contains v := by
  obtain ⟨entries, hholds, hjson⟩ := DocumentStore.Holds.storeOf hedits
  rw [← hjson]
  have hheld : ∀ held ∈ entries, held.json.IntegersAt path := by
    intro held hheld
    exact hints held.json (hjson ▸ List.mem_map_of_mem hheld)
  constructor
  · intro op holds hop n
    obtain ⟨lookup, hclause, hasks⟩ := clause_integer hholds hdefault.plainAt hheld hcatalog hop n
    exact findsAt_of_asksAt hholds hclause hasks conventions
  · intro ns
    obtain ⟨lookup, hlookup, hasks⟩ := anyOf_integers hholds hdefault.plainAt hheld hcatalog ns
    have hclause : context.clause ⟨some path, .oneOf, .list (ns.map .integer), []⟩ none
        = .ok (.includes lookup) := bind_eq_ok.mpr ⟨lookup, hlookup, rfl⟩
    exact findsAt_of_asksAt hholds hclause hasks conventions

/-- Orders with the counts of their items in lists and lists of lists; the first is deleted. -/
def orders : List WriteRequest :=
  [.create (.object [("$id", .text "a"),
      ("items", .array [.object [("count", .int 7)], .object [("count", .int 2)]])]),
    .create (.object [("$id", .text "b"),
      ("items", .object [("count", .array [.int 1, .array [.int 9], .array []])])]),
    .create (.object [("$id", .text "c"), ("items", .array [.object [("count", .int 3)]])]),
    .delete "a"]

/-- The builder that the example is built with. -/
def orderBuilder : DocumentBuilder :=
  ⟨{ Config.default with sourceCompression := .none }, .ofConfig .default, Analyzers.builtIn⟩

/-- The edits that they are converted to. -/
def orderEdits : List Edit := ((orderBuilder.convert 0 orders).toOption).getD []

/-- The store of the orders is searched. -/
def orderContext : PlanContext :=
  ⟨(orderBuilder.storeOf orderEdits).catalog, Analyzers.builtIn, ⟨0, 0, 0⟩, 0, 0⟩

theorem matching_integers_orders :
    orderBuilder.DefaultAt "items.count" ∧ orderBuilder.convert 0 orders = .ok orderEdits ∧
      (∀ json ∈ orderBuilder.prepared 0 orders, json.IntegersAt "items.count") ∧
      (orderBuilder.storeOf orderEdits).writer.index.live = [1, 2] ∧
      orderContext.FindsAt (orderBuilder.storeOf orderEdits).writer.index
        (orderBuilder.prepared 0 orders) "items.count"
        ((Tree.compare "items.count" .greater (.integer 4)).simplify Config.default.conventions)
        fun v => 4 < v := by
  have hdefault : orderBuilder.DefaultAt "items.count" := ⟨rfl, by decide, by decide⟩
  have hedits : orderBuilder.convert 0 orders = .ok orderEdits := rfl
  have hints : ∀ json ∈ orderBuilder.prepared 0 orders, json.IntegersAt "items.count" := by
    decide +kernel
  exact ⟨hdefault, hedits, hints, by decide +kernel,
    (matching_integers orderBuilder "items.count" hdefault 0 orders orderEdits hedits hints
      orderContext rfl Config.default.conventions).1 .greater _ rfl 4⟩

end PlanContext

end Query

end DocIndex
