/-
Asking for an integer among numbers of any kind.

Integers of 64 bits are kept as they are, all other numbers as doubles.  In a field that is searched
for integers, an integer is compared with integers exactly.  Every other comparison is one of
doubles: both sides are rounded, the one that is asked for and the one that is kept.  Rounding
keeps what is equal equal, so no document with the integer is missed; integers that have no
double of their own may be confused with each other, which those of 53 bits never are.

Of which kind the field is depends on the numbers of all documents.
-/
import DocIndex.Proofs.Number.Whole
import DocIndex.Proofs.Query.Integers

namespace DocIndex

namespace Json

/-- Whether a value is the integer, by the value of its number. -/
def equalsInt (n : Int) : Json → Bool
  | .int m => m == n
  | .double x => x.toInt? == some n
  | _ => false

/-- Whether a value is taken for the integer, in a field that is searched for a kind of numbers. -/
def countsAs (kind : FieldKind) (n : Int) : Json → Bool
  | .int m =>
    if kind = .long ∧ fitsInt64 m = true then m == n else (Double.ofInt m).same (Double.ofInt n)
  | .double x => x.same (Double.ofInt n)
  | _ => false

variable {value : Json} {kind : FieldKind} {n : Int}

/-- What is equal is taken for equal. -/
theorem countsAs_of_equalsInt (h : value.equalsInt n = true) : value.countsAs kind n = true := by
  cases value with
  | int m =>
      obtain rfl := beq_iff_eq.mp h
      simp only [countsAs]
      split
      · exact beq_self_eq_true m
      · exact (Double.same_iff (Double.isNaN_ofInt m) (Double.isNaN_ofInt m)).mpr rfl
  | double x => exact Double.same_ofInt_of_toInt? (beq_iff_eq.mp h)
  | _ => cases h

/-- Of integers of 53 bits nothing but what is equal is taken for equal. -/
theorem equalsInt_of_countsAs (hn : n.natAbs < 2 ^ 53) (h : value.countsAs kind n = true) :
    value.equalsInt n = true := by
  cases value with
  | int m =>
      simp only [countsAs] at h
      split at h
      · exact h
      · exact beq_iff_eq.mpr (Double.eq_of_same_ofInt hn h)
  | double x => exact beq_iff_eq.mpr (Double.toInt?_of_same_ofInt hn h)
  | _ => cases h

/-- In a field of integers, integers of 64 bits are compared exactly. -/
theorem countsAs_long (h : value.isInt64 = true) : value.countsAs .long n = value.equalsInt n := by
  obtain ⟨m, rfl, hm⟩ := isInt64_iff.mp h
  exact if_pos ⟨rfl, hm⟩

end Json

namespace Query

theorem contains_exactly_iff {α : Type} {order? : α → α → Option Ordering} {value bound : α} :
    (Interval.exactly bound).contains order? value = true ↔ order? value bound = some .eq := by
  cases h : order? value bound with
  | none => simp [Interval.exactly, Interval.contains, h]
  | some o => simp [contains_exactly_of_order h]

namespace PlanContext

/-- A number that is looked up finds the values that are taken for it. -/
theorem order?_integerAs {value : Json} {v : Numeric} (hvalue : value.numeric? = some v) (n : Int)
    {kind : FieldKind} (hkind : kind = .long ∨ kind = .double) :
    v.order? (integerAs n kind) = some .eq ↔ value.countsAs kind n = true := by
  have hsame : ∀ x y : Double, x.order? y = some .eq ↔ x.same y = true := by
    simp [Double.same]
  cases value with
  | int m =>
      obtain rfl := Option.some.inj hvalue
      rcases hkind with rfl | rfl <;> by_cases hm : fitsInt64 m = true <;>
        simp [Numeric.order?, Numeric.toDouble, integerAs, Json.countsAs, hm, hsame]
  | double x =>
      obtain rfl := Option.some.inj hvalue
      rcases hkind with rfl | rfl <;>
        simp [Numeric.order?, Numeric.toDouble, integerAs, Json.countsAs, hsame]
  | _ => cases hvalue

variable {builder : DocumentBuilder} {store : DocumentStore} {entries : List Held} {path : String}
  {context : PlanContext}

/-- A value of the document is taken for the integer, as the field is searched. -/
def CountsAt (context : PlanContext) (path : String) (n : Int) (json : Json) : Prop :=
  ∃ kind, context.catalog.resolve path none = .numeric kind ∧
    ∃ value ∈ json.valuesAt path, value.countsAs kind n = true

/-- A value of the document equals the integer. -/
def EqualsAt (path : String) (n : Int) (json : Json) : Prop :=
  ∃ value ∈ json.valuesAt path, value.equalsInt n = true

instance (path : String) (n : Int) (json : Json) : Decidable (EqualsAt path n json) :=
  inferInstanceAs (Decidable (∃ value ∈ json.valuesAt path, value.equalsInt n = true))

section Held

variable (hholds : store.Holds builder entries) (hplain : builder.PlainAt path)
  (hnumbers : ∀ held ∈ entries, held.json.NumbersAt path)
  (hcatalog : context.catalog = store.catalog) (n : Int)

include hholds hplain hnumbers hcatalog

/-- Looking up an integer among numbers asks for a value that is taken for it. -/
theorem exact_integer_of_numbers :
    ∃ lookup, context.exact path (.integer n) none = .ok lookup ∧
      ∀ held ∈ entries, InvertedIndex.satisfies held.fields lookup = true ↔
        context.CountsAt path n held.json := by
  have hexact : context.exact path (.integer n) none
      = context.numberLookup path (.integer n) (integerAs n) none := rfl
  simp only [hexact, numberLookup, CountsAt, hcatalog]
  rcases hholds.resolve_of_numbers hplain hnumbers with
    ⟨_, -, _, -, v, -, hresolve⟩ | ⟨hunseen, hnone⟩
  · rw [hresolve]
    refine ⟨_, rfl, fun held hheld => ?_⟩
    have hkind : (DocumentBuilder.numberInfo path v).kind = .long ∨
        (DocumentBuilder.numberInfo path v).kind = .double := by
      cases v <;> simp [DocumentBuilder.numberInfo]
    simp only [InvertedIndex.satisfies, List.any_eq_true, contains_exactly_iff,
      (hholds.made held hheld).mem_numbersIn hplain (hnumbers held hheld),
      FieldUse.numeric.injEq, exists_eq_left']
    constructor
    · rintro ⟨w, ⟨value, hvalue, hw⟩, horder⟩
      exact ⟨value, hvalue, (order?_integerAs hw n hkind).mp horder⟩
    · rintro ⟨value, hvalue, hcounts⟩
      obtain ⟨w, hw⟩ := Option.isSome_iff_exists.mp (hnumbers held hheld value hvalue)
      exact ⟨w, ⟨value, hvalue, hw⟩, (order?_integerAs hw n hkind).mpr hcounts⟩
  · have hresolve : store.catalog.resolve path none = .unknown := by
      rw [FieldCatalog.resolve, hunseen]
      rfl
    have hterms : context.textTerms path (Value.integer n).write none = .ok none := by
      rw [textTerms, FieldCatalog.analyzer?, hcatalog, hunseen]
      rfl
    refine ⟨.term path (Value.integer n).write, by rw [hresolve, analysed, hterms]; rfl, ?_⟩
    intro held hheld
    have hterm := (hholds.made held hheld).hasTerm_eq_false hplain (hnumbers held hheld)
      fun other => other == (Value.integer n).write
    rw [InvertedIndex.satisfies, hterm, hresolve]
    simp

/-- Where a document has the integer, the field is searched for numbers, and the integer counts. -/
theorem countsAt_of_equalsAt {held : Held} (hheld : held ∈ entries)
    (h : EqualsAt path n held.json) : context.CountsAt path n held.json := by
  obtain ⟨value, hvalue, hequals⟩ := h
  rcases hholds.resolve_of_numbers hplain hnumbers with
    ⟨_, -, _, -, v, -, hresolve⟩ | ⟨-, hnone⟩
  · exact ⟨_, hcatalog ▸ hresolve, value, hvalue, Json.countsAs_of_equalsInt hequals⟩
  · rw [hnone held hheld] at hvalue
    cases hvalue

omit hnumbers in
/-- Where nothing is rounded, nothing counts but what is equal. -/
theorem equalsAt_of_countsAt {held : Held} (hheld : held ∈ entries)
    (hexact : n.natAbs < 2 ^ 53 ∨ ∀ other ∈ entries, other.json.IntegersAt path)
    (h : context.CountsAt path n held.json) : EqualsAt path n held.json := by
  obtain ⟨kind, hresolve, value, hvalue, hcounts⟩ := h
  refine ⟨value, hvalue, ?_⟩
  rcases hexact with hsmall | hints
  · exact Json.equalsInt_of_countsAs hsmall hcounts
  · rcases observations_of_integers hholds hplain hints hcatalog with hlong | ⟨-, hnone⟩
    · obtain rfl := FieldUse.numeric.inj (hresolve.symm.trans hlong)
      rwa [Json.countsAs_long (hints held hheld value hvalue)] at hcounts
    · obtain ⟨m, rfl, -⟩ := Json.isInt64_iff.mp (hints held hheld value hvalue)
      exact absurd hvalue (hnone held hheld m)

end Held

/--
**An integer is looked for by its double, and exactly where that is its own.**  Take a new store of
which any requests were made, and a path of default strategies at which all their documents have
only numbers, integers or not, in any mixture.  The query for an integer there is planned.  It
finds exactly the live documents with a value that is taken for the integer: in a field that is
searched for integers, an integer of 64 bits is compared with it exactly, and any other number by
their nearest doubles.  So every live document with a value that equals the integer is found, and if
the integer has 53 bits at most, or no document has another number than integers of 64 bits, these
are all that is found.
-/
theorem matching_integer_among_numbers (builder : DocumentBuilder) (path : String)
    (hplain : builder.PlainAt path) (next : IdentifierSupply) (requests : List WriteRequest)
    (edits : List Edit) (hedits : builder.convert next requests = .ok edits)
    (hnumbers : ∀ json ∈ builder.prepared next requests, json.NumbersAt path)
    (context : PlanContext) (hcatalog : context.catalog = (builder.storeOf edits).catalog)
    (conventions : Conventions) (n : Int) :
    let index := (builder.storeOf edits).writer.index
    let documents := builder.prepared next requests
    ∃ lookup, context.plan ((Tree.compare path .equals (.integer n)).simplify conventions)
        = .ok (lookup, none) ∧
      (∀ doc, doc ∈ index.matching lookup ↔ doc ∈ index.live ∧
        ∃ json, documents[doc]? = some json ∧ context.CountsAt path n json) ∧
      (∀ doc ∈ index.live, ∀ json, documents[doc]? = some json → EqualsAt path n json →
        doc ∈ index.matching lookup) ∧
      (n.natAbs < 2 ^ 53 ∨ (∀ json ∈ documents, json.IntegersAt path) →
        ∀ doc, doc ∈ index.matching lookup ↔ doc ∈ index.live ∧
          ∃ json, documents[doc]? = some json ∧ EqualsAt path n json) := by
  intro index documents
  obtain ⟨entries, hholds, hjson⟩ := DocumentStore.Holds.storeOf hedits
  have hmem : ∀ json, json ∈ documents ↔ ∃ held ∈ entries, held.json = json := by
    intro json
    rw [show documents = entries.map Held.json from hjson.symm]
    exact List.mem_map
  have hheld : ∀ held ∈ entries, held.json.NumbersAt path :=
    fun held hentry => hnumbers held.json ((hmem _).mpr ⟨held, hentry, rfl⟩)
  obtain ⟨lookup, hlookup, hasks⟩ := exact_integer_of_numbers hholds hplain hheld hcatalog n
  have hclause : context.clause ⟨some path, .equals, .integer n, []⟩ none
      = .ok (.includes lookup) := bind_eq_ok.mpr ⟨lookup, hlookup, rfl⟩
  have hfound : ∀ doc, doc ∈ index.matching lookup ↔ doc ∈ index.live ∧
      ∃ json, documents[doc]? = some json ∧ context.CountsAt path n json := by
    intro doc
    rw [hholds.mem_matching_of_satisfies _ hasks, hjson]
  have hequals : ∀ json ∈ documents, EqualsAt path n json → context.CountsAt path n json := by
    intro json hdocument h
    obtain ⟨held, hentry, rfl⟩ := (hmem json).mp hdocument
    exact countsAt_of_equalsAt hholds hplain hheld hcatalog n hentry h
  refine ⟨lookup, plan_clause hclause conventions, hfound, ?_, ?_⟩
  · intro doc hlive json hdocument h
    exact (hfound doc).mpr ⟨hlive, json, hdocument, hequals json (List.mem_of_getElem? hdocument) h⟩
  · intro hexact doc
    have hexactly : n.natAbs < 2 ^ 53 ∨ ∀ held ∈ entries, held.json.IntegersAt path :=
      hexact.imp_right fun hints held hentry => hints held.json ((hmem _).mpr ⟨held, hentry, rfl⟩)
    have hcounts : ∀ json ∈ documents, context.CountsAt path n json → EqualsAt path n json := by
      intro json hdocument h
      obtain ⟨held, hentry, rfl⟩ := (hmem json).mp hdocument
      exact equalsAt_of_countsAt hholds hplain hcatalog n hentry hexactly h
    rw [hfound doc]
    refine and_congr_right fun _ => exists_congr fun json => and_congr_right fun hdocument => ?_
    have hin := List.mem_of_getElem? hdocument
    exact ⟨hcounts json hin, hequals json hin⟩

/-- Scores in all kinds of numbers: two large ones that share a double, and a fraction. -/
def scores : List WriteRequest :=
  [.create (.object [("$id", .text "a"), ("score", .int 9007199254740993)]),
    .create (.object [("$id", .text "b"), ("score", .array [.double ⟨0x3FE0000000000000⟩, .int 7])]),
    .create (.object [("$id", .text "c"), ("score", .double ⟨0x401C000000000000⟩)]),
    .create (.object [("$id", .text "d"), ("score", .int 7)]),
    .delete "d"]

/-- The builder that the example is built with. -/
def scoreBuilder : DocumentBuilder :=
  ⟨{ Config.default with sourceCompression := .none }, .ofConfig .default, Analyzers.builtIn⟩

/-- The edits that they are converted to. -/
def scoreEdits : List Edit := ((scoreBuilder.convert 0 scores).toOption).getD []

/-- The store of the scores is searched. -/
def scoreContext : PlanContext :=
  ⟨(scoreBuilder.storeOf scoreEdits).catalog, Analyzers.builtIn, ⟨0, 0, 0⟩, 0, 0⟩

/-- A small integer is found in both kinds of numbers, and nothing else is. -/
theorem matching_integer_among_numbers_scores :
    let index := (scoreBuilder.storeOf scoreEdits).writer.index
    scoreBuilder.PlainAt "score" ∧ scoreBuilder.convert 0 scores = .ok scoreEdits ∧
      (∀ json ∈ scoreBuilder.prepared 0 scores, json.NumbersAt "score") ∧
      index.live = [0, 1, 2] ∧
      ∃ lookup, scoreContext.plan ((Tree.compare "score" .equals (.integer 7)).simplify
          Config.default.conventions) = .ok (lookup, none) ∧
        0 ∉ index.matching lookup ∧ 1 ∈ index.matching lookup ∧ 2 ∈ index.matching lookup := by
  intro index
  have hplain : scoreBuilder.PlainAt "score" := ⟨by decide, by decide, by decide⟩
  have hedits : scoreBuilder.convert 0 scores = .ok scoreEdits := rfl
  have hnumbers : ∀ json ∈ scoreBuilder.prepared 0 scores, json.NumbersAt "score" := by
    decide +kernel
  have hlive : index.live = [0, 1, 2] := by decide +kernel
  obtain ⟨lookup, hplan, -, hfound, hexact⟩ := matching_integer_among_numbers scoreBuilder "score"
    hplain 0 scores scoreEdits hedits hnumbers scoreContext rfl Config.default.conventions 7
  refine ⟨hplain, hedits, hnumbers, hlive, lookup, hplan, ?_, ?_, ?_⟩
  · rw [hexact (.inl (by decide))]
    rintro ⟨-, json, hjson, hequals⟩
    obtain rfl := Option.some.inj hjson
    revert hequals
    decide +kernel
  · exact hfound 1 (by rw [hlive]; decide) _ rfl (by decide +kernel)
  · exact hfound 2 (by rw [hlive]; decide) _ rfl (by decide +kernel)

/-- A large integer is found where its neighbour stands, which no value of the document equals. -/
theorem neighbour_found :
    scoreBuilder.PlainAt "score" ∧ scoreBuilder.convert 0 scores = .ok scoreEdits ∧
      (∀ json ∈ scoreBuilder.prepared 0 scores, json.NumbersAt "score") ∧
      fitsInt64 9007199254740992 = true ∧
      0 ∈ (scoreBuilder.storeOf scoreEdits).writer.index.live ∧
      ((scoreBuilder.prepared 0 scores)[0]?.map fun json => json.valuesAt "score")
        = some [.int 9007199254740993] ∧
      ∃ lookup, scoreContext.plan ((Tree.compare "score" .equals
          (.integer 9007199254740992)).simplify Config.default.conventions) = .ok (lookup, none) ∧
        0 ∈ (scoreBuilder.storeOf scoreEdits).writer.index.matching lookup := by
  refine ⟨⟨by decide, by decide, by decide⟩, rfl, by decide +kernel, by decide, by decide +kernel, rfl,
    .numbers "score" (.exactly (.double (Double.ofInt 9007199254740992))), rfl,
    by decide +kernel⟩

end PlanContext

end Query

end DocIndex
