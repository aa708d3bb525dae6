/-
Equality and order agree.

A comparison is planned by one of two pieces of code, one for equality and one for the four sides
of a value, and each kind of field has its own lookups.  They agree because an ordering stands
behind them: a value of a document comes before a literal, is what the literal stands for, or comes
behind it, and every operator accepts some of the three.  For integers and for terms that is their
own order.  A whole day stands for all ticks from its start to the start of the next day, so the
ticks before it, in it and behind it leave no gap and no overlap.
-/
import DocIndex.Proofs.Index.Histories
import DocIndex.Proofs.Query.Dates

namespace DocIndex

/-! ### What is known of a field of one kind -/

namespace FieldCatalog

variable {catalog : FieldCatalog} {field : String} {test : FieldInfo → Prop}

/-- Something is known of a field, and all that is known passes a test. -/
structure ShowsOnly (catalog : FieldCatalog) (field : String) (test : FieldInfo → Prop) :
    Prop where
  known : catalog.observations field none ≠ []
  all : ∀ info ∈ catalog.observations field none, test info

/-- A field is used as each of its observations would have it, if they agree. -/
theorem ShowsOnly.resolve (h : catalog.ShowsOnly field test) {target : FieldUse}
    (htarget : ∀ info, test info → ∀ use, use = .unknown ∨ use = target →
      FieldUse.observe use info = target) : catalog.resolve field none = target := by
  have hfold : ∀ infos : List FieldInfo, (∀ info ∈ infos, test info) →
      infos.foldl FieldUse.observe target = target := by
    intro infos hinfos
    induction infos with
    | nil => rfl
    | cons info rest ih =>
        obtain ⟨hinfo, hrest⟩ := List.forall_mem_cons.mp hinfos
        rw [List.foldl_cons, htarget info hinfo target (.inr rfl), ih hrest]
  obtain ⟨hknown, hall⟩ := h
  rw [FieldCatalog.resolve]
  cases hinfos : catalog.observations field none with
  | nil => exact absurd hinfos hknown
  | cons info rest =>
      rw [hinfos] at hall
      obtain ⟨hinfo, hrest⟩ := List.forall_mem_cons.mp hall
      rw [List.foldl_cons, htarget info hinfo .unknown (.inl rfl), hfold rest hrest]

/-- An observation of integers. -/
abbrev IsLong (info : FieldInfo) : Prop := info.kind = .long

/-- An observation of dates. -/
abbrev IsDate (info : FieldInfo) : Prop := info.jsonType = .date ∧ info.kind.isLexical = true

/-- An observation of exact terms, other than those of dates. -/
abbrev IsExactTerm (info : FieldInfo) : Prop := info.jsonType ≠ .date ∧ info.kind = .term

theorem ShowsOnly.resolve_long (h : catalog.ShowsOnly field IsLong) :
    catalog.resolve field none = .numeric .long := by
  refine h.resolve fun info hinfo use huse => ?_
  rcases huse with rfl | rfl <;>
    simp [FieldUse.observe, show info.kind = .long from hinfo, FieldKind.isLexical,
      FieldKind.isNumeric]

theorem ShowsOnly.resolve_date (h : catalog.ShowsOnly field IsDate) :
    catalog.resolve field none = .date := by
  refine h.resolve fun info hinfo use _ => ?_
  simp [FieldUse.observe, hinfo.1, hinfo.2]

theorem ShowsOnly.analyzer?_eq_none (h : catalog.ShowsOnly field IsExactTerm) :
    catalog.analyzer? field none = none := by
  have hnone : ∀ info ∈ catalog.observations field none, ¬ decide (info.kind = .text) = true := by
    intro info hinfo
    simp [(h.all info hinfo).2]
  rw [analyzer?, List.find?_eq_none.mpr hnone]
  rfl

end FieldCatalog

/-! ### The values of a document -/

namespace InvertedIndex

/-- The values of a document that are searched under a name. -/
def valuesIn (fields : List AnalyzedField) (name : String) : List FieldValue :=
  (fields.filter fun f => f.field.indexed && name == f.field.name).map fun f => f.field.value

variable {fields : List AnalyzedField} {name : String}

/-- A document whose only value is an integer has that number. -/
theorem numbersIn_of_valuesIn {n : Int} (h : valuesIn fields name = [.long n]) :
    numbersIn fields name = [.long n] := by
  have hnumbers : numbersIn fields name = (fields.filter fun f =>
      f.field.indexed && name == f.field.name).filterMap (AnalyzedField.number? name) := by
    rw [List.filterMap_filter]
    refine List.filterMap_congr fun f _ => ?_
    unfold AnalyzedField.number?
    split <;> rfl
  obtain ⟨f, hf, hvalue⟩ := List.map_eq_singleton_iff.mp h
  have hmem : f ∈ fields.filter fun f => f.field.indexed && name == f.field.name := by
    rw [hf]
    exact List.mem_singleton_self f
  have hsearched := (List.mem_filter.mp hmem).2
  rw [hnumbers, hf, List.filterMap_cons, AnalyzedField.number?, if_pos hsearched, hvalue]
  rfl

/-- A document whose only value is a term is found by that term alone. -/
theorem hasTerm_of_valuesIn {term : String} (h : valuesIn fields name = [.term term])
    (test : String → Bool) : hasTerm fields name test = test term := by
  have hterms : hasTerm fields name test = (fields.filter fun f =>
      f.field.indexed && name == f.field.name).any fun f =>
        f.field.value.kind.isLexical && f.placedTerms.any fun entry => test entry.1 := by
    rw [List.any_filter]
    refine congrArg fields.any (funext fun f => ?_)
    rw [AnalyzedField.hasTermsOf, Bool.and_assoc]
  obtain ⟨f, hf, hvalue⟩ := List.map_eq_singleton_iff.mp h
  rw [hterms, hf]
  simp [AnalyzedField.placedTerms, hvalue, FieldValue.kind, FieldKind.isLexical]

end InvertedIndex

/-! ### Days -/

namespace Query

/-- How ticks lie to a day, given its start and the start of the next one. -/
def dayOrder (ticks : Int) (day : Int × Int) : Ordering :=
  if ticks < day.1 then .lt else if ticks < day.2 then .eq else .gt

namespace PlanContext

/-! ### A literal against the only value of a document -/

variable {context : PlanContext} {fields : List InvertedIndex.AnalyzedField} {field : String}
  {value : Value} {o : Ordering}

/-- What a document answers to a literal in a field is decided by an ordering. -/
structure Decides (context : PlanContext) (fields : List InvertedIndex.AnalyzedField)
    (field : String) (value : Value) (o : Ordering) : Prop where
  exact : ∃ lookup, context.exact field value none = .ok lookup ∧
    InvertedIndex.satisfies fields lookup = (o == .eq)
  range : ∀ side, ∃ lookup, context.range field value side none = .ok lookup ∧
    InvertedIndex.satisfies fields lookup = side.accepts o

/-- An interval of numbers asks the only number of a document. -/
theorem satisfies_numbers {n : Int} (h : InvertedIndex.valuesIn fields field = [.long n])
    (interval : Interval Numeric) :
    InvertedIndex.satisfies fields (.numbers field interval)
      = interval.contains Numeric.order? (.long n) := by
  show (InvertedIndex.numbersIn fields field).any _ = _
  rw [InvertedIndex.numbersIn_of_valuesIn h, List.any_cons, List.any_nil, Bool.or_false]

/-- Integers are compared as integers. -/
theorem decides_integer (hfield : context.catalog.ShowsOnly field FieldCatalog.IsLong) {n : Int}
    (hvalue : InvertedIndex.valuesIn fields field = [.long n]) (bound : Int) :
    context.Decides fields field (.integer bound) (compare n bound) where
  exact := by
    refine ⟨.numbers field (.exactly (.long bound)), ?_, ?_⟩
    · show context.numberLookup field _ _ none = _
      rw [numberLookup, hfield.resolve_long]
      rfl
    · rw [satisfies_numbers hvalue]
      exact contains_exactly_of_order rfl
  range := by
    intro side
    refine ⟨.numbers field (side.interval (.long bound)), ?_, ?_⟩
    · show Except.ok (context.numberRange field _ _ side none) = _
      rw [numberRange, hfield.resolve_long]
      rfl
    · rw [satisfies_numbers hvalue]
      exact side.contains_interval_of_order rfl

/-- Instants are compared by their ticks. -/
theorem decides_instant (hfield : context.catalog.ShowsOnly field FieldCatalog.IsDate)
    {ticks : Int} (hvalue : InvertedIndex.valuesIn fields (ticksField field) = [.long ticks])
    {m : Moment} (hliteral : value.instant? context.now = some (m, .instant)) :
    context.Decides fields field value (compare ticks m.ticks) where
  exact := by
    refine ⟨.numbers (ticksField field) (.exactly (.long m.ticks)), ?_, ?_⟩
    · simp only [PlanContext.exact, hliteral, hfield.resolve_date, instantLookup]
    · rw [satisfies_numbers hvalue]
      exact contains_exactly_of_order rfl
  range := by
    intro side
    refine ⟨.numbers (ticksField field) (side.interval (.long m.ticks)), ?_, ?_⟩
    · simp only [PlanContext.range, hliteral, instantRange]
    · rw [satisfies_numbers hvalue]
      exact side.contains_interval_of_order rfl

/-- The four sides of a day begin and end at its bounds, and nothing lies between them. -/
theorem contains_daySide {start stop : Int} (hday : start < stop) (ticks : Int) (side : Side) :
    (Side.interval ⟨side.above, side.above⟩
        (Numeric.long (if side.above == side.inclusive then start else stop))).contains
        Numeric.order? (.long ticks)
      = side.accepts (dayOrder ticks (start, stop)) := by
  obtain ⟨above, inclusive⟩ := side
  rw [contains_interval]
  cases above <;> cases inclusive <;> simp only [Side.holds, dayOrder, Side.accepts] <;>
    split_ifs <;> simp at * <;> omega

/-- The day itself is what is between its sides. -/
theorem contains_day (start stop ticks : Int) :
    (Interval.mk (some (Numeric.long start)) (some (.long stop)) true false).contains
        Numeric.order? (.long ticks)
      = (dayOrder ticks (start, stop) == .eq) := by
  have hsides : (Interval.mk (some (Numeric.long start)) (some (.long stop)) true false).contains
        Numeric.order? (.long ticks)
      = ((Side.interval ⟨true, true⟩ (Numeric.long start)).contains Numeric.order? (.long ticks) &&
        (Side.interval ⟨false, false⟩ (Numeric.long stop)).contains Numeric.order?
          (.long ticks)) := by
    simp [Side.interval, Interval.above, Interval.below, Interval.contains]
  rw [hsides, contains_interval, contains_interval]
  simp only [Side.holds, dayOrder]
  split_ifs <;> simp <;> omega

/-- A day is compared as the ticks from its start to the start of the next one. -/
theorem decides_day (hfield : context.catalog.ShowsOnly field FieldCatalog.IsDate)
    {ticks : Int} (hvalue : InvertedIndex.valuesIn fields (ticksField field) = [.long ticks])
    {m : Moment} (hliteral : value.instant? context.now = some (m, .day)) :
    context.Decides fields field value (dayOrder ticks (dayTicks m)) := by
  have hday : (dayTicks m).1 < (dayTicks m).2 := Int.lt_add_of_pos_right _ (by decide)
  refine ⟨⟨instantLookup field m .day, ?_, ?_⟩, fun side =>
    ⟨instantRange field m .day side, ?_, ?_⟩⟩
  · simp only [PlanContext.exact, hliteral, hfield.resolve_date]
  · rw [instantLookup, satisfies_numbers hvalue]
    exact contains_day _ _ ticks
  · simp only [PlanContext.range, hliteral]
  · rw [instantRange, satisfies_numbers hvalue]
    exact contains_daySide hday ticks side

/-- Terms are compared as texts. -/
theorem decides_term (hfield : context.catalog.ShowsOnly field FieldCatalog.IsExactTerm)
    {term : String} (hvalue : InvertedIndex.valuesIn fields field = [.term term]) {text : String}
    (hliteral : value = .word text ∨ value = .phrase text) :
    context.Decides fields field value (compare term text) := by
  have hanalyzer := hfield.analyzer?_eq_none
  have hanalysed : ∀ slop, context.analysed field text slop none = .ok (.term field text) := by
    intro slop
    simp only [analysed, textTerms, hanalyzer]
    rfl
  have hfolded : context.foldedFor field text none = text := by
    simp [foldedFor, FieldCatalog.isText, hanalyzer]
  have hexact : context.exact field value none = .ok (.term field text) := by
    rcases hliteral with rfl | rfl <;> exact hanalysed _
  have hrange : ∀ side, context.range field value side none
      = .ok (.terms field (side.interval text)) := by
    intro side
    rcases hliteral with rfl | rfl <;>
      simp only [PlanContext.range, Value.instant?, hfolded]
  refine ⟨⟨_, hexact, ?_⟩, fun side => ⟨_, hrange side, ?_⟩⟩
  · rw [InvertedIndex.satisfies, InvertedIndex.hasTerm_of_valuesIn hvalue, compare_beq_eq]
  · rw [InvertedIndex.satisfies, InvertedIndex.hasTerm_of_valuesIn hvalue]
    exact side.contains_interval_of_order rfl

/-! ### Queries -/

/--
A field of one kind, of which a document has a single value, and a literal to compare that with: an
integer for a field of integers, a time for a field of dates, whose values are kept as ticks, and a
text for a field of exact terms.
-/
inductive Comparable (context : PlanContext) (fields : List InvertedIndex.AnalyzedField)
    (field : String) : Value → Prop where
  | integer (n bound : Int) : context.catalog.ShowsOnly field FieldCatalog.IsLong →
      InvertedIndex.valuesIn fields field = [.long n] →
      Comparable context fields field (.integer bound)
  | date (ticks : Int) (value : Value) (m : Moment) (precision : Precision) :
      context.catalog.ShowsOnly field FieldCatalog.IsDate →
      InvertedIndex.valuesIn fields (ticksField field) = [.long ticks] →
      value.instant? context.now = some (m, precision) →
      Comparable context fields field value
  | term (term text : String) (value : Value) :
      context.catalog.ShowsOnly field FieldCatalog.IsExactTerm →
      InvertedIndex.valuesIn fields field = [.term term] →
      value = .word text ∨ value = .phrase text →
      Comparable context fields field value

/-- Every literal lies before the value of the document, at it or behind it. -/
theorem Comparable.exists_decides (h : context.Comparable fields field value) :
    ∃ o, context.Decides fields field value o := by
  cases h with
  | integer n bound hfield hvalue => exact ⟨_, decides_integer hfield hvalue bound⟩
  | date ticks _ m precision hfield hvalue hliteral =>
      cases precision with
      | instant => exact ⟨_, decides_instant hfield hvalue hliteral⟩
      | day => exact ⟨_, decides_day hfield hvalue hliteral⟩
  | term term text _ hfield hvalue hliteral => exact ⟨_, decides_term hfield hvalue hliteral⟩

/-- The comparison is planned and finds the document. -/
def Finds (context : PlanContext) (conventions : Conventions) (index : InvertedIndex)
    (doc : DocId) (field : String) (op : Operator) (value : Value) : Prop :=
  ∃ lookup, context.plan ((Tree.compare field op value).simplify conventions)
    = .ok (lookup, none) ∧ doc ∈ index.matching lookup

/-- A visit, with the offset of its place. -/
def visit : String := "2014-09-10T11:00:00.5+02:00"

/-- A document of the visit as it goes into an index. -/
def visitFields : List InvertedIndex.AnalyzedField :=
  (datedEdits visit).flatMap fun edit => edit.documents.flatMap fun built =>
    ((InvertedIndex.analyze Analyzers.builtIn built.document).toOption).getD []

end PlanContext

end Query

end DocIndex
