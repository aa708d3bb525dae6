/-
What alternatives that exclude values come to.

The clauses on a field that are alternatives are merged into one that lists the values of all
of them.  For clauses that ask for values that is their disjunction.  Clauses that exclude
values are merged alike, but what is found without any of their values is found by each of
them: the merged clause is their conjunction, and finds no more than the narrowest of them.

A value that several of the clauses list is kept once.  Equal values are looked up alike, with
the exception of the two zeros, of which the later one is dropped although its text differs.
-/
import DocIndex.Proofs.Query.Meaning

namespace DocIndex.Query

/-! ### Scalars -/

namespace Value

/-- Whether a value is the zero with a sign. -/
def isNegativeZero : Value → Bool
  | number x => x.negative && x.magnitude == 0
  | _ => false

theorem scalars_of_isScalar {value : Value} (h : value.isScalar = true) :
    value.scalars = [value] := by
  cases value <;> first | rfl | cases h

theorem scalarsOfAll_of_isScalar {values : List Value}
    (h : ∀ value ∈ values, value.isScalar = true) : scalarsOfAll values = values := by
  induction values with
  | nil => rfl
  | cons value rest ih =>
      obtain ⟨hfirst, hrest⟩ := List.forall_mem_cons.mp h
      rw [scalarsOfAll, scalars_of_isScalar hfirst, ih hrest, List.singleton_append]

/-- A number that is the same as another one is no NaN. -/
theorem isRegular_of_same {v w : Value} (h : v.same w = true) (hscalar : v.isScalar = true)
    (hv : v.isNegativeZero = false) (hw : w.isNegativeZero = false) :
    v.isRegular = true ∧ w.isRegular = true := by
  cases v <;> cases w <;> simp only [same, Bool.false_eq_true] at h
  case number.number x y =>
    simp only [Double.same, Double.order?] at h
    simp only [isNegativeZero] at hv hw
    simp only [isRegular, Double.isRegular, hv, hw]
    by_cases hnan : x.isNaN || y.isNaN
    · simp [hnan] at h
    · simpa using hnan
  case list.list => cases hscalar
  all_goals exact ⟨rfl, rfl⟩

end Value

namespace Tree

/-- The clause that excludes the values of a list. -/
def excluding (field : String) (listed : List Value × Tags) : Tree :=
  clause ⟨some field, .noneOf, .list listed.1, listed.2⟩

variable {field : String} {lists : List (List Value × Tags)} {conventions : Conventions}

/-! ### Merging the alternatives on one field -/

/-- Clauses that are all on one field are one group. -/
theorem groupByField_of_field {parts : List Tree} (hne : parts ≠ [])
    (h : ∀ part ∈ parts, part.field? = some field) : groupByField parts = [parts] := by
  have hgrouped : Grouped [parts] :=
    ⟨List.forall_mem_singleton.mpr (Or.inr ⟨field, hne, h⟩), List.pairwise_singleton _ _⟩
  simpa using groupByField_flatten hgrouped

theorem clauseOfKind?_excluding (listed : List Value × Tags) :
    clauseOfKind? isNegative (excluding field listed)
      = some ⟨some field, .noneOf, .list listed.1, listed.2⟩ := rfl

theorem filterMap_excluding : (lists.map (excluding field)).filterMap (clauseOfKind? isNegative)
    = lists.map fun listed => ⟨some field, .noneOf, .list listed.1, listed.2⟩ := by
  induction lists with
  | nil => rfl
  | cons listed rest ih => rw [List.map_cons, List.filterMap_cons, clauseOfKind?_excluding, ih]; rfl

/-- The values that the clause lists to which all of them are merged. -/
def mergedExclusions (lists : List (List Value × Tags)) : List Value :=
  (lists.flatMap fun listed => Value.scalarsOfAll listed.1).foldl addValue []

theorem mergedValues_excluding :
    mergedValues isNegative (lists.map (excluding field)) = mergedExclusions lists := by
  rw [mergedValues, filterMap_excluding, List.flatMap_map]
  rfl

theorem withoutKind_excluding : withoutKind isNegative (lists.map (excluding field)) = [] := by
  refine List.filter_eq_nil_iff.mpr fun tree htree => ?_
  obtain ⟨listed, -, rfl⟩ := List.mem_map.mp htree
  simp [clauseOfKind?_excluding]

/-- Alternatives that exclude values are merged into one clause. -/
theorem regroup_excluding (first : List Value × Tags) (hmany : lists ≠ []) :
    regroup ((first :: lists).map (excluding field))
      = [excluding field (mergedExclusions (first :: lists), first.2)] := by
  have hfield : ∀ part ∈ (first :: lists).map (excluding field), part.field? = some field := by
    intro part hpart
    obtain ⟨listed, -, rfl⟩ := List.mem_map.mp hpart
    rfl
  have hpositive : kindCount isPositive ((first :: lists).map (excluding field)) < 2 := by
    have hnone : ((first :: lists).map (excluding field)).filterMap (clauseOfKind? isPositive)
        = [] := by
      refine List.filterMap_eq_nil_iff.mpr fun tree htree => ?_
      obtain ⟨listed, -, rfl⟩ := List.mem_map.mp htree
      rfl
    rw [kindCount, hnone]
    exact Nat.zero_lt_two
  have hnegative : ¬ kindCount isNegative ((first :: lists).map (excluding field)) < 2 := by
    have hlength := List.length_pos_of_ne_nil hmany
    rw [kindCount, filterMap_excluding, List.length_map, List.length_cons]
    omega
  rw [regroup, groupByField_of_field (by simp) hfield, List.flatMap_singleton, mergeAlternatives,
    mergeKind_of_few hpositive, mergeKind_of_many hnegative, mergedValues_excluding,
    List.map_cons, mergeAtFirst, clauseOfKind?_excluding, withoutKind_excluding]
  rfl

/-- **Two or more alternatives that exclude values are simplified to one clause.** -/
theorem simplify_any_excluding (first : List Value × Tags) (hmany : lists ≠ []) (tags : Tags) :
    simplify conventions (any ((first :: lists).map (excluding field)) tags)
      = excluding field (mergedExclusions (first :: lists), first.2) := by
  have hparts : ∀ part ∈ (first :: lists).map (excluding field), Settled conventions part := by
    intro part hpart
    obtain ⟨listed, -, rfl⟩ := List.mem_map.mp hpart
    exact settled_clause _
  have hdiffer : ¬ sameAll [excluding field (mergedExclusions (first :: lists), first.2)]
      ((first :: lists).map (excluding field)) = true := by
    obtain ⟨second, rest, rfl⟩ := List.exists_cons_of_ne_nil hmany
    simp [sameAll]
  have hround : afterRound conventions (any ((first :: lists).map (excluding field)) tags)
      = excluding field (mergedExclusions (first :: lists), first.2) := by
    have hgrouped : groupFields (any ((first :: lists).map (excluding field)) tags)
        = some (any [excluding field (mergedExclusions (first :: lists), first.2)] tags) := by
      rw [groupFields_any, regroup_excluding first hmany, if_neg hdiffer]
    have hgroup : after groupFields (any ((first :: lists).map (excluding field)) tags)
        = any [excluding field (mergedExclusions (first :: lists), first.2)] tags := by
      rw [after, hgrouped, Option.getD_some]
    have hbefore : after cancelNegations (after (resolveAdjacency conventions.adjacency)
        (any ((first :: lists).map (excluding field)) tags))
          = any ((first :: lists).map (excluding field)) tags := rfl
    rw [afterRound, hbefore, hgroup]
    rfl
  have hdone : Done conventions
      (afterRound conventions (any ((first :: lists).map (excluding field)) tags)) := by
    rw [hround]
    exact (settled_clause _).done
  rw [simplify, simplifyAll_of_settled _ hparts, (settles_of_done hdone).2, hround]

/-- No value of a list is itself a list, or the zero with a sign. -/
def AreDistinguished (lists : List (List Value × Tags)) : Prop :=
  ∀ listed ∈ lists, ∀ value ∈ listed.1, value.isScalar = true ∧ value.isNegativeZero = false

/-- A merged clause lists no other values than the clauses. -/
theorem mem_of_mem_mergedExclusions (h : AreDistinguished lists) {value : Value}
    (hvalue : value ∈ mergedExclusions lists) : ∃ listed ∈ lists, value ∈ listed.1 := by
  rcases mem_of_mem_foldl_addValue _ hvalue with hnone | hvalue
  · exact absurd hnone List.not_mem_nil
  obtain ⟨listed, hlisted, hvalue⟩ := List.mem_flatMap.mp hvalue
  rw [Value.scalarsOfAll_of_isScalar fun v hv => (h listed hlisted v hv).1] at hvalue
  exact ⟨listed, hlisted, hvalue⟩

/-- A merged clause lists every value of the clauses, or another one that is looked up alike. -/
theorem exists_mem_mergedExclusions (h : AreDistinguished lists) {listed : List Value × Tags}
    (hlisted : listed ∈ lists) {value : Value} (hvalue : value ∈ listed.1) :
    ∃ kept ∈ mergedExclusions lists, ∀ (context : PlanContext) (scope : Scope),
      context.exact field kept scope = context.exact field value scope := by
  have hscalar : value ∈ Value.scalarsOfAll listed.1 := by
    rwa [Value.scalarsOfAll_of_isScalar fun v hv => (h listed hlisted v hv).1]
  have hvalues : value ∈ lists.flatMap fun listed => Value.scalarsOfAll listed.1 :=
    List.mem_flatMap.mpr ⟨listed, hlisted, hscalar⟩
  obtain ⟨kept, hkept, hsame⟩ := exists_mem_foldl_addValue hvalues []
  refine ⟨kept, hkept, fun context scope => ?_⟩
  rcases hsame with rfl | hsame
  · rfl
  · obtain ⟨other, hother, hin⟩ := mem_of_mem_mergedExclusions h hkept
    obtain ⟨hregular, hregular'⟩ := Value.isRegular_of_same hsame (h other hother kept hin).1
      (h other hother kept hin).2 (h listed hlisted value hvalue).2
    exact Value.exact_eq_of_same context hregular hregular' hsame field scope

end Tree

/-! ### What clauses that exclude find -/

namespace Setting

open Query.Tree

variable {setting : Setting} {field : String} {listed : List Value × Tags}
  {lists : List (List Value × Tags)}

theorem plans_excluding {lookup : Lookup} : setting.Plans (excluding field listed) lookup ↔
    ∃ lookups, List.Forall₂ (fun value found =>
        setting.context.exact field value setting.scope = .ok found) listed.1 lookups ∧
      lookup = .combine [.everything] [] [.anyOf lookups] := by
  rw [Plans, excluding, connect, PlanContext.node]
  simp only [PlanContext.clause, PlanContext.anyOf, bind_eq_ok, mapM_eq_ok]
  constructor
  · rintro ⟨_, ⟨lookups, hlookups, hany⟩, hrole⟩
    obtain rfl := Except.ok.inj hany
    have hlookup := (Role.mk.inj (Except.ok.inj hrole)).2
    exact ⟨lookups, hlookups, hlookup.symm⟩
  · rintro ⟨lookups, hlookups, rfl⟩
    exact ⟨_, ⟨lookups, hlookups, rfl⟩, rfl⟩

/-- A clause that excludes values is planned if each of them can be looked up. -/
theorem canPlan_excluding :
    setting.CanPlan (excluding field listed) ↔
      ∀ value ∈ listed.1, setting.CanLookUp field value := by
  unfold CanPlan CanLookUp
  simp only [plans_excluding, ← exists_forall₂]
  exact ⟨fun ⟨_, lookups, hlookups, _⟩ => ⟨lookups, hlookups⟩,
    fun ⟨lookups, hlookups⟩ => ⟨_, lookups, hlookups, rfl⟩⟩

/-- A clause that excludes values finds the live documents that have none of them. -/
theorem finds_excluding (h : setting.CanPlan (excluding field listed)) (doc : DocId) :
    setting.Finds (excluding field listed) doc ↔
      doc ∈ setting.index.live ∧ ∀ value ∈ listed.1, ¬ setting.Has field value doc := by
  obtain ⟨lookup, hplans⟩ := id h
  rw [hplans.finds_iff]
  obtain ⟨lookups, hlookups, rfl⟩ := plans_excluding.mp hplans
  rw [InvertedIndex.mem_evaluate_combine (List.cons_ne_nil _ _), List.forall_mem_singleton,
    List.forall_mem_singleton, InvertedIndex.mem_evaluate_anyOf, exists_has hlookups]
  refine and_congr Iff.rfl ?_
  simp

/-- The merged clause is planned if every clause is. -/
theorem canPlan_mergedExclusions (h : AreDistinguished lists) (tags : Tags) :
    setting.CanPlan (excluding field (mergedExclusions lists, tags)) ↔
      ∀ listed ∈ lists, setting.CanPlan (excluding field listed) := by
  simp only [canPlan_excluding]
  constructor
  · intro hmerged listed hlisted value hvalue
    obtain ⟨kept, hkept, hsame⟩ := @exists_mem_mergedExclusions field lists h _ hlisted _ hvalue
    rw [CanLookUp, ← hsame]
    exact hmerged kept hkept
  · intro heach value hvalue
    obtain ⟨listed, hlisted, hin⟩ := mem_of_mem_mergedExclusions h hvalue
    exact heach listed hlisted value hin

/-- **The merged clause finds what every one of the clauses finds.** -/
theorem finds_mergedExclusions (h : AreDistinguished lists) (hne : lists ≠ []) (tags : Tags)
    (hplan : ∀ listed ∈ lists, setting.CanPlan (excluding field listed)) (doc : DocId) :
    setting.Finds (excluding field (mergedExclusions lists, tags)) doc ↔
      ∀ listed ∈ lists, setting.Finds (excluding field listed) doc := by
  rw [finds_excluding ((canPlan_mergedExclusions h tags).mpr hplan)]
  constructor
  · rintro ⟨hlive, hnone⟩ listed hlisted
    refine (finds_excluding (hplan listed hlisted) doc).mpr ⟨hlive, fun value hvalue => ?_⟩
    obtain ⟨kept, hkept, hsame⟩ := @exists_mem_mergedExclusions field lists h _ hlisted _ hvalue
    rw [Has, ← hsame]
    exact hnone kept hkept
  · intro heach
    obtain ⟨first, hfirst⟩ := List.exists_mem_of_ne_nil lists hne
    refine ⟨((finds_excluding (hplan first hfirst) doc).mp (heach first hfirst)).1, ?_⟩
    intro value hvalue
    obtain ⟨listed, hlisted, hin⟩ := mem_of_mem_mergedExclusions h hvalue
    exact ((finds_excluding (hplan listed hlisted) doc).mp (heach listed hlisted)).2 value hin

/-- As a whole query, a clause that excludes values is planned as it is. -/
theorem plan_excluding (hscope : setting.scope = none) {lookup : Lookup}
    {order : Option (List SortField)} :
    setting.context.plan (excluding field listed) = .ok (lookup, order) ↔
      setting.Plans (excluding field listed) lookup ∧ order = none := by
  have hplan : setting.context.plan (excluding field listed)
      = (do return (← setting.context.root (excluding field listed), none)) := rfl
  rw [hplan, bind_eq_ok]
  simp only [PlanContext.root, bind_eq_ok, ← hscope]
  constructor
  · rintro ⟨_, ⟨role, hnode, hroot⟩, hresult⟩
    have hincludes : ∃ own, role = .includes own := by
      obtain ⟨_, -, hrole⟩ := bind_eq_ok.mp hnode
      exact ⟨_, (Except.ok.inj hrole).symm⟩
    obtain ⟨own, rfl⟩ := hincludes
    obtain rfl := Except.ok.inj hroot
    obtain ⟨rfl, rfl⟩ := Prod.mk.inj (Except.ok.inj hresult)
    exact ⟨hnode, rfl⟩
  · rintro ⟨hplans, rfl⟩
    exact ⟨lookup, ⟨_, hplans, rfl⟩, rfl⟩

theorem exists_plan_excluding (hscope : setting.scope = none) :
    (∃ planned, setting.context.plan (excluding field listed) = .ok planned) ↔
      setting.CanPlan (excluding field listed) := by
  simp only [Prod.exists, plan_excluding hscope, CanPlan, exists_eq_right]

/-- As a whole query, the merged clause matches what every one of the clauses matches. -/
theorem matching_mergedExclusions (hscope : setting.scope = none) (h : AreDistinguished lists)
    (hne : lists ≠ []) (tags : Tags) :
    ((∃ planned, setting.context.plan (excluding field (mergedExclusions lists, tags))
        = .ok planned) ↔
      ∀ listed ∈ lists, ∃ planned,
        setting.context.plan (excluding field listed) = .ok planned) ∧
    ∀ lookup order,
      setting.context.plan (excluding field (mergedExclusions lists, tags)) = .ok (lookup, order) →
      order = none ∧ ∀ doc, doc ∈ setting.index.matching lookup ↔
        ∀ listed ∈ lists, ∃ own,
          setting.context.plan (excluding field listed) = .ok (own, none) ∧
            doc ∈ setting.index.matching own := by
  refine ⟨?_, fun lookup order hmerged => ?_⟩
  · simp only [exists_plan_excluding hscope]
    exact canPlan_mergedExclusions h tags
  obtain ⟨hplans, rfl⟩ := (plan_excluding hscope).mp hmerged
  have heach := (canPlan_mergedExclusions h tags).mp ⟨lookup, hplans⟩
  refine ⟨rfl, fun doc => ?_⟩
  have hfinds := finds_mergedExclusions h hne tags heach doc
  rw [hplans.finds_iff] at hfinds
  rw [InvertedIndex.mem_matching, hfinds]
  constructor
  · rintro ⟨hall, hlive⟩ listed hlisted
    obtain ⟨own, hown, hdoc⟩ := hall listed hlisted
    exact ⟨own, (plan_excluding hscope).mpr ⟨hown, rfl⟩,
      InvertedIndex.mem_matching.mpr ⟨hdoc, hlive⟩⟩
  · intro hall
    refine ⟨fun listed hlisted => ?_, ?_⟩
    · obtain ⟨own, hown, hdoc⟩ := hall listed hlisted
      exact ⟨own, ((plan_excluding hscope).mp hown).1, (InvertedIndex.mem_matching.mp hdoc).1⟩
    · obtain ⟨first, hfirst⟩ := List.exists_mem_of_ne_nil lists hne
      obtain ⟨own, -, hdoc⟩ := hall first hfirst
      exact (InvertedIndex.mem_matching.mp hdoc).2

end Setting

namespace Tree

/--
**Alternatives that exclude values find what all of them find.**

Take two or more clauses that each exclude the values of a list.  Their simplified disjunction
can be planned exactly if each clause can be on its own, and then it finds, in every index, the
documents that every one of the clauses finds on its own.
-/
theorem matching_any_excluding (conventions : Conventions) (context : PlanContext)
    (index : InvertedIndex) (field : String) (lists : List (List Value × Tags))
    (hmany : 2 ≤ lists.length) (hvalues : AreDistinguished lists) (tags : Tags) :
    ((∃ planned, context.plan (simplify conventions (any (lists.map (excluding field)) tags))
        = .ok planned) ↔
      ∀ listed ∈ lists, ∃ planned, context.plan (excluding field listed) = .ok planned) ∧
    ∀ lookup order,
      context.plan (simplify conventions (any (lists.map (excluding field)) tags))
        = .ok (lookup, order) →
      order = none ∧ ∀ doc, doc ∈ index.matching lookup ↔
        ∀ listed ∈ lists, ∃ own,
          context.plan (excluding field listed) = .ok (own, none) ∧ doc ∈ index.matching own := by
  obtain ⟨first, rest, rfl⟩ := List.exists_cons_of_length_pos (by omega : 0 < lists.length)
  have hrest : rest ≠ [] := by
    rintro rfl
    simp at hmany
  rw [simplify_any_excluding first hrest]
  exact @Setting.matching_mergedExclusions ⟨.and, context, none, index⟩ field (first :: rest) rfl
    hvalues (List.cons_ne_nil _ _) first.2

/-- Sizes are whole numbers. -/
def sizesContext : PlanContext :=
  ⟨[("note", [⟨"size", .integer, "size", .long, "int64", none⟩])], [], ⟨0, 0, 0⟩, 0, 0⟩

/-- Notes of the sizes 1, 2 and 3. -/
def sizesIndex : InvertedIndex :=
  let index := (InvertedIndex.empty.insert [⟨.long "size" 1, []⟩]).1
  let index := (index.insert [⟨.long "size" 2, []⟩]).1
  (index.insert [⟨.long "size" 3, []⟩]).1

/-- Not 1 and not 2, or neither 2 nor 1.5. -/
def sizeLists : List (List Value × Tags) :=
  [([.integer 1, .integer 2], []), ([.integer 2, .number ⟨0x3FF8000000000000⟩], [])]

theorem matching_any_excluding_sizes :
    2 ≤ sizeLists.length ∧ AreDistinguished sizeLists ∧
      ∃ lookup, sizesContext.plan (simplify ⟨.and, "$contentType"⟩
          (any (sizeLists.map (excluding "size")) [])) = .ok (lookup, none) ∧
        sizesIndex.matching lookup = [2] ∧
        ∀ doc, doc ∈ sizesIndex.matching lookup ↔
          ∀ listed ∈ sizeLists, ∃ own,
            sizesContext.plan (excluding "size" listed) = .ok (own, none) ∧
              doc ∈ sizesIndex.matching own := by
  have hmany : 2 ≤ sizeLists.length := by decide
  have hvalues : AreDistinguished sizeLists := by
    unfold AreDistinguished
    decide
  obtain ⟨hcan, hfinds⟩ := matching_any_excluding ⟨.and, "$contentType"⟩ sizesContext sizesIndex
    "size" sizeLists hmany hvalues []
  obtain ⟨⟨lookup, order⟩, hplan⟩ := hcan.mpr (List.forall_mem_cons.mpr ⟨⟨_, rfl⟩,
    List.forall_mem_cons.mpr ⟨⟨_, rfl⟩, List.forall_mem_nil _⟩⟩)
  obtain ⟨rfl, hdocs⟩ := hfinds lookup order hplan
  refine ⟨hmany, hvalues, lookup, hplan, ?_, hdocs⟩
  have hlookup : sizesContext.plan (simplify ⟨.and, "$contentType"⟩
      (any (sizeLists.map (excluding "size")) [])) = .ok (_, none) := rfl
  obtain rfl := (Prod.mk.inj (Except.ok.inj (hlookup.symm.trans hplan))).1
  decide +kernel

/-- A note of size 1 is not of size 2, but as alternatives "not 1" and "not 2" do not find it. -/
theorem any_excluding_not_union :
    ¬ ∀ lookup, sizesContext.plan (simplify ⟨.and, "$contentType"⟩
        (any ([([.integer 1], []), ([.integer 2], [])].map (excluding "size")) []))
          = .ok (lookup, none) →
      ∀ doc, doc ∈ sizesIndex.matching lookup ↔
        ∃ listed ∈ [([.integer 1], []), ([.integer 2], [])], ∃ own,
          sizesContext.plan (excluding "size" listed) = .ok (own, none) ∧
            doc ∈ sizesIndex.matching own := by
  intro hunion
  have hmerged := (hunion _ rfl 0).mpr ⟨([.integer 2], []), by simp, _, rfl, by decide +kernel⟩
  revert hmerged
  decide +kernel

end Tree

end DocIndex.Query
