/-
Simplifying a query keeps what it finds.

`Keeps` says of two trees that the second is planned if the first is, and then finds the same
documents in the same index.  Each rule keeps what an affirmative tree finds: connecting
adjacent parts is what the meaning of such a node is, grouping moves the parts of a node,
unwrapping takes a node away that means its only part, and the other rules have nothing to
apply to.  Merging the alternatives on a field is the one rule that makes new clauses.  The
merged clause asks for the values that the clauses asked for, but for repetitions, and a value
that is dropped is looked up like the equal one that is kept.

From the rules it follows for a round of them, for any number of rounds, and from the leaves
upwards for a whole tree.
-/
import DocIndex.Proofs.Query.NormalForm
import DocIndex.Proofs.Query.Planning

namespace DocIndex.Query

/-! ### Regular values -/

namespace Value

mutual

theorem isNaNFree_of_isRegular : ∀ {value : Value}, value.isRegular = true →
    value.isNaNFree = true
  | number _, h => by
      simp only [isRegular, Double.isRegular, Bool.and_eq_true] at h
      exact h.1
  | list _, h => areNaNFree_of_areRegular h
  | word _, _ | wildcard _, _ | phrase _, _ | integer _, _ => rfl
  | time _ _, _ | relative _, _ | everything, _ => rfl

theorem areNaNFree_of_areRegular : ∀ {values : List Value}, areRegular values = true →
    areNaNFree values = true
  | [], _ => rfl
  | _ :: _, h => by
      simp only [areRegular, Bool.and_eq_true] at h
      simp [areNaNFree, isNaNFree_of_isRegular h.1, areNaNFree_of_areRegular h.2]

end

mutual

theorem isRegular_scalars : ∀ {value : Value}, value.isRegular = true →
    ∀ scalar ∈ value.scalars, scalar.isRegular = true
  | list _, h => isRegular_scalarsOfAll h
  | number _, h => by simpa [scalars] using h
  | word _, _ | wildcard _, _ | phrase _, _ | integer _, _ => by simp [scalars, isRegular]
  | time _ _, _ | relative _, _ | everything, _ => by simp [scalars, isRegular]

theorem isRegular_scalarsOfAll : ∀ {values : List Value}, areRegular values = true →
    ∀ scalar ∈ scalarsOfAll values, scalar.isRegular = true
  | [], _ => by simp [scalarsOfAll]
  | _ :: _, h => by
      simp only [areRegular, Bool.and_eq_true] at h
      intro scalar hscalar
      rcases List.mem_append.mp hscalar with hfirst | hrest
      · exact isRegular_scalars h.1 scalar hfirst
      · exact isRegular_scalarsOfAll h.2 scalar hrest

end

end Value

/-! ### Values, each once -/

namespace Tree

theorem mem_addValue_of_mem {values : List Value} {value : Value} (h : value ∈ values)
    (new : Value) : value ∈ addValue values new := by
  unfold addValue
  split
  · exact h
  · exact List.mem_append_left _ h

theorem mem_foldl_addValue_of_mem {value : Value} (more : List Value) : ∀ {values : List Value},
    value ∈ values → value ∈ more.foldl addValue values := by
  induction more with
  | nil => exact id
  | cons first rest ih => exact fun h => ih (mem_addValue_of_mem h first)

/-- Every value is listed, or another one that is the same. -/
theorem exists_mem_foldl_addValue {value : Value} {more : List Value} (h : value ∈ more) :
    ∀ values : List Value,
      ∃ kept ∈ more.foldl addValue values, kept = value ∨ kept.same value = true := by
  induction more with
  | nil => exact absurd h List.not_mem_nil
  | cons first rest ih =>
      intro values
      rcases List.mem_cons.mp h with rfl | hrest
      · by_cases hthere : values.any (fun v => v.same value) = true
        · obtain ⟨kept, hkept, hsame⟩ := List.any_eq_true.mp hthere
          have hstays := mem_foldl_addValue_of_mem rest (mem_addValue_of_mem hkept value)
          exact ⟨kept, hstays, Or.inr hsame⟩
        · have hadded : value ∈ addValue values value := by simp [addValue, hthere]
          exact ⟨value, mem_foldl_addValue_of_mem rest hadded, Or.inl rfl⟩
      · exact ih hrest _

/-- A merged clause lists every value of the clauses, or another one that is the same. -/
theorem exists_mem_mergedValues {kind : Operator → Bool} {group : List Tree} {c : Clause}
    (hc : clause c ∈ group) (hop : kind c.op = true) {value : Value}
    (hvalue : value ∈ c.value.scalars) :
    ∃ kept ∈ mergedValues kind group, kept = value ∨ kept.same value = true :=
  exists_mem_foldl_addValue (List.mem_flatMap.mpr
    ⟨c, List.mem_filterMap.mpr ⟨_, hc, clauseOfKind?_eq_some.mpr ⟨rfl, hop⟩⟩, hvalue⟩) []

theorem isRegular_mergedValues {contentTypeField : String} {kind : Operator → Bool}
    {group : List Tree} (h : ∀ tree ∈ group, tree.isAffirmative contentTypeField = true) :
    ∀ value ∈ mergedValues kind group, value.isRegular = true := by
  intro value hvalue
  obtain ⟨c, hc, -, hscalar⟩ := mem_mergedValues hvalue
  have hclause := (Clause.isAffirmative_iff.mp (h _ hc)).2.2.1
  exact Value.isRegular_scalars hclause value hscalar

/-- What merging leaves: the trees of other kinds, and one clause that lists the values. -/
theorem mem_mergeAtFirst_iff {kind : Operator → Bool} {op : Operator} {values : List Value}
    {trees : List Tree} (h : kindCount kind trees ≠ 0) :
    ∃ c, clause c ∈ trees ∧ kind c.op = true ∧ ∀ tree,
      tree ∈ mergeAtFirst kind op values trees ↔
        (tree ∈ trees ∧ clauseOfKind? kind tree = none) ∨
          tree = clause { c with op := op, value := .list values } := by
  induction trees with
  | nil => simp [kindCount] at h
  | cons first rest ih =>
      cases hfirst : clauseOfKind? kind first with
      | some c =>
          obtain ⟨rfl, hkind⟩ := clauseOfKind?_eq_some.mp hfirst
          refine ⟨c, List.mem_cons_self, hkind, fun tree => ?_⟩
          have hmerged : tree = clause c → clauseOfKind? kind tree ≠ none := by
            rintro rfl
            simp [hfirst]
          simp only [mergeAtFirst, hfirst, List.mem_cons, withoutKind, List.mem_filter,
            Option.isNone_iff_eq_none]
          tauto
      | none =>
          have hrest : kindCount kind rest ≠ 0 := by simpa [kindCount, hfirst] using h
          obtain ⟨c, hc, hkind, hmem⟩ := ih hrest
          refine ⟨c, List.mem_cons_of_mem _ hc, hkind, fun tree => ?_⟩
          have hkept : tree = first → clauseOfKind? kind tree = none := by
            rintro rfl
            exact hfirst
          simp only [mergeAtFirst, hfirst, List.mem_cons, hmem]
          tauto

end Tree

/-! ### Trees that find the same -/

namespace Setting

open Query.Tree

/-- The second tree is planned if the first is, and finds the same documents. -/
structure Keeps (setting : Setting) (old new : Tree) : Prop where
  canPlan : setting.CanPlan old → setting.CanPlan new
  finds_iff : setting.CanPlan old → ∀ doc, setting.Finds new doc ↔ setting.Finds old doc

variable {setting : Setting} {contentTypeField : String}

theorem Keeps.refl (tree : Tree) : setting.Keeps tree tree := ⟨id, fun _ _ => Iff.rfl⟩

theorem Keeps.trans {a b c : Tree} (h : setting.Keeps a b) (h' : setting.Keeps b c) :
    setting.Keeps a c :=
  ⟨fun hplan => h'.canPlan (h.canPlan hplan), fun hplan doc =>
    (h'.finds_iff (h.canPlan hplan) doc).trans (h.finds_iff hplan doc)⟩

/-- Trees that are connected to the same tree mean the same. -/
theorem keeps_of_connect_eq {a b : Tree}
    (h : a.connect setting.adjacency = b.connect setting.adjacency) : setting.Keeps a b := by
  have hplans : setting.Plans b = setting.Plans a := by
    unfold Plans
    rw [h]
  have hfinds : ∀ doc, setting.Finds b doc ↔ setting.Finds a doc := by
    intro doc
    rw [Finds, Finds, hplans]
  exact ⟨fun ⟨lookup, hlookup⟩ => ⟨lookup, hplans ▸ hlookup⟩, fun _ => hfinds⟩

/-- A conjunction may be replaced by one whose parts mean the same. -/
theorem keeps_all {olds news : List Tree}
    (hold : ∀ part ∈ olds, part.isAffirmative contentTypeField = true)
    (hnew : ∀ part ∈ news, part.isAffirmative contentTypeField = true)
    (hforth : ∀ old ∈ olds, ∃ new ∈ news, setting.Keeps old new)
    (hback : ∀ new ∈ news, ∃ old ∈ olds, setting.Keeps old new) :
    setting.Keeps (.all olds []) (.all news []) := by
  have hplan : (∀ old ∈ olds, setting.CanPlan old) → ∀ new ∈ news, setting.CanPlan new := by
    intro hplan new hmem
    obtain ⟨old, hmem, hkeeps⟩ := hback new hmem
    exact hkeeps.canPlan (hplan old hmem)
  refine ⟨fun h => (canPlan_all hnew).mpr (hplan ((canPlan_all hold).mp h)), fun h doc => ?_⟩
  have hparts := (canPlan_all hold).mp h
  rw [finds_all hold hparts, finds_all hnew (hplan hparts)]
  constructor
  · rintro ⟨hne, hfinds⟩
    obtain ⟨new, hmem⟩ := List.exists_mem_of_ne_nil news hne
    obtain ⟨old, holdmem, -⟩ := hback new hmem
    refine ⟨List.ne_nil_of_mem holdmem, fun old hmem => ?_⟩
    obtain ⟨new, hmem', hkeeps⟩ := hforth old hmem
    exact (hkeeps.finds_iff (hparts old hmem) doc).mp (hfinds new hmem')
  · rintro ⟨hne, hfinds⟩
    obtain ⟨old, hmem⟩ := List.exists_mem_of_ne_nil olds hne
    obtain ⟨new, hnewmem, -⟩ := hforth old hmem
    refine ⟨List.ne_nil_of_mem hnewmem, fun new hmem => ?_⟩
    obtain ⟨old, hmem', hkeeps⟩ := hback new hmem
    exact (hkeeps.finds_iff (hparts old hmem') doc).mpr (hfinds old hmem')

/-- The second trees can be planned if the first ones can, and together find the same. -/
structure KeepTogether (setting : Setting) (olds news : List Tree) : Prop where
  canPlan : (∀ old ∈ olds, setting.CanPlan old) → ∀ new ∈ news, setting.CanPlan new
  finds_iff : (∀ old ∈ olds, setting.CanPlan old) → ∀ doc,
    (∃ new ∈ news, setting.Finds new doc) ↔ ∃ old ∈ olds, setting.Finds old doc

/-- A disjunction may be replaced by one whose parts together find the same. -/
theorem keeps_any {olds news : List Tree}
    (hold : ∀ part ∈ olds, part.isAffirmative contentTypeField = true)
    (hnew : ∀ part ∈ news, part.isAffirmative contentTypeField = true)
    (h : setting.KeepTogether olds news) : setting.Keeps (.any olds []) (.any news []) := by
  refine ⟨fun hplan => (canPlan_any hnew).mpr (h.canPlan ((canPlan_any hold).mp hplan)),
    fun hplan doc => ?_⟩
  have hparts := (canPlan_any hold).mp hplan
  rw [finds_any hold hparts, finds_any hnew (h.canPlan hparts)]
  exact h.finds_iff hparts doc

theorem keepTogether_of_each {olds news : List Tree}
    (hforth : ∀ old ∈ olds, ∃ new ∈ news, setting.Keeps old new)
    (hback : ∀ new ∈ news, ∃ old ∈ olds, setting.Keeps old new) :
    setting.KeepTogether olds news := by
  refine ⟨fun hplan new hmem => ?_, fun hplan doc => ⟨?_, ?_⟩⟩
  · obtain ⟨old, hmem, hkeeps⟩ := hback new hmem
    exact hkeeps.canPlan (hplan old hmem)
  · rintro ⟨new, hmem, hfinds⟩
    obtain ⟨old, hmem, hkeeps⟩ := hback new hmem
    exact ⟨old, hmem, (hkeeps.finds_iff (hplan old hmem) doc).mp hfinds⟩
  · rintro ⟨old, hmem, hfinds⟩
    obtain ⟨new, hmem', hkeeps⟩ := hforth old hmem
    exact ⟨new, hmem', (hkeeps.finds_iff (hplan old hmem) doc).mpr hfinds⟩

theorem KeepTogether.trans {a b c : List Tree} (h : setting.KeepTogether a b)
    (h' : setting.KeepTogether b c) : setting.KeepTogether a c :=
  ⟨fun hplan => h'.canPlan (h.canPlan hplan), fun hplan doc =>
    (h'.finds_iff (h.canPlan hplan) doc).trans (h.finds_iff hplan doc)⟩

/-- Lists with the same trees. -/
theorem keepTogether_of_mem_iff {olds news : List Tree} (h : ∀ tree, tree ∈ news ↔ tree ∈ olds) :
    setting.KeepTogether olds news :=
  keepTogether_of_each (fun old hold => ⟨old, (h old).mpr hold, .refl old⟩)
    fun new hnew => ⟨new, (h new).mp hnew, .refl new⟩

theorem keepTogether_flatMap {groups : List (List Tree)} {change : List Tree → List Tree}
    (h : ∀ group ∈ groups, setting.KeepTogether group (change group)) :
    setting.KeepTogether groups.flatten (groups.flatMap change) := by
  have hgroup : (∀ tree ∈ groups.flatten, setting.CanPlan tree) →
      ∀ group ∈ groups, ∀ tree ∈ group, setting.CanPlan tree :=
    fun hplan group hgroup tree htree => hplan tree (List.mem_flatten.mpr ⟨group, hgroup, htree⟩)
  refine ⟨fun hplan new hnew => ?_, fun hplan doc => ⟨?_, ?_⟩⟩
  · obtain ⟨group, hin, hnew⟩ := List.mem_flatMap.mp hnew
    exact (h group hin).canPlan (hgroup hplan group hin) new hnew
  · rintro ⟨new, hnew, hfinds⟩
    obtain ⟨group, hin, hnew⟩ := List.mem_flatMap.mp hnew
    obtain ⟨old, hold, hfinds⟩ :=
      ((h group hin).finds_iff (hgroup hplan group hin) doc).mp ⟨new, hnew, hfinds⟩
    exact ⟨old, List.mem_flatten.mpr ⟨group, hin, hold⟩, hfinds⟩
  · rintro ⟨old, hold, hfinds⟩
    obtain ⟨group, hin, hold⟩ := List.mem_flatten.mp hold
    obtain ⟨new, hnew, hfinds⟩ :=
      ((h group hin).finds_iff (hgroup hplan group hin) doc).mpr ⟨old, hold, hfinds⟩
    exact ⟨new, List.mem_flatMap.mpr ⟨group, hin, hnew⟩, hfinds⟩

/-! ### Merging alternatives -/

theorem has_congr {field : String} {v w : Value} (hv : v.isRegular = true)
    (hw : w.isRegular = true) (h : v = w ∨ v.same w = true) (doc : DocId) :
    setting.Has field v doc ↔ setting.Has field w doc := by
  rcases h with rfl | hsame
  · exact Iff.rfl
  · rw [Has, Has, Value.exact_eq_of_same setting.context hv hw hsame]

/-- The clauses of a group that ask for values find what the merged clause finds. -/
theorem keepTogether_mergeKind {group : List Tree} (hgroup : IsGroup group)
    (haffirmative : ∀ tree ∈ group, tree.isAffirmative contentTypeField = true) :
    setting.KeepTogether group (mergeKind isPositive .oneOf group) := by
  by_cases hfew : kindCount isPositive group < 2
  · rw [mergeKind_of_few hfew]
    exact keepTogether_of_mem_iff fun tree => Iff.rfl
  rcases hgroup with ⟨only, rfl, -⟩ | ⟨name, -, hname⟩
  · exact absurd (Nat.lt_succ_of_le (List.length_filterMap_le _ [only])) hfew
  rw [mergeKind_of_many hfew]
  obtain ⟨c, hc, -, hmem⟩ :=
    @mem_mergeAtFirst_iff isPositive .oneOf (mergedValues isPositive group) group (by omega)
  have hregular := @isRegular_mergedValues _ isPositive _ haffirmative
  have hasks : (∀ tree ∈ group, setting.CanPlan tree) → ∀ d, clause d ∈ group →
      isPositive d.op = true → setting.AsksFor (clause d) name d.value.scalars :=
    fun hplan d hd hop => asksFor_of_positive (hname _ hd) hop (hplan _ hd)
  have hmerged : (∀ tree ∈ group, setting.CanPlan tree) → setting.AsksFor
      (clause { c with op := .oneOf, value := .list (mergedValues isPositive group) })
      name (mergedValues isPositive group) := by
    intro hplan
    have hfield : c.field = some name := hname _ hc
    rw [hfield]
    refine asksFor_oneOf fun value hvalue => ?_
    obtain ⟨d, hd, hop, hscalar⟩ := mem_mergedValues hvalue
    exact (hasks hplan d hd hop).canLookUp value hscalar
  refine ⟨fun hplan new hnew => ?_, fun hplan doc => ⟨?_, ?_⟩⟩
  · rcases (hmem new).mp hnew with ⟨hold, -⟩ | rfl
    · exact hplan new hold
    · exact (hmerged hplan).canPlan
  · rintro ⟨new, hnew, hfinds⟩
    rcases (hmem new).mp hnew with ⟨hold, -⟩ | rfl
    · exact ⟨new, hold, hfinds⟩
    · obtain ⟨value, hvalue, hhas⟩ := ((hmerged hplan).finds_iff doc).mp hfinds
      obtain ⟨d, hd, hop, hscalar⟩ := mem_mergedValues hvalue
      exact ⟨clause d, hd, ((hasks hplan d hd hop).finds_iff doc).mpr ⟨value, hscalar, hhas⟩⟩
  · rintro ⟨old, hold, hfinds⟩
    cases hkind : clauseOfKind? isPositive old with
    | none => exact ⟨old, (hmem old).mpr (Or.inl ⟨hold, hkind⟩), hfinds⟩
    | some d =>
        obtain ⟨rfl, hop⟩ := clauseOfKind?_eq_some.mp hkind
        obtain ⟨value, hscalar, hhas⟩ := ((hasks hplan d hold hop).finds_iff doc).mp hfinds
        obtain ⟨kept, hkept, hsame⟩ := exists_mem_mergedValues hold hop hscalar
        have hvalue : value.isRegular = true :=
          Value.isRegular_scalars (Clause.isAffirmative_iff.mp (haffirmative _ hold)).2.2.1
            value hscalar
        have hhas' := (has_congr (hregular kept hkept) hvalue hsame doc).mpr hhas
        have hfinds' := ((hmerged hplan).finds_iff doc).mpr ⟨kept, hkept, hhas'⟩
        exact ⟨_, (hmem _).mpr (Or.inr rfl), hfinds'⟩

theorem isAffirmative_mergeKind {group : List Tree}
    (h : ∀ tree ∈ group, tree.isAffirmative contentTypeField = true) :
    ∀ tree ∈ mergeKind isPositive .oneOf group, tree.isAffirmative contentTypeField = true := by
  by_cases hfew : kindCount isPositive group < 2
  · rw [mergeKind_of_few hfew]
    exact h
  intro tree htree
  rw [mergeKind_of_many hfew] at htree
  rcases mem_mergeAtFirst htree with hold | ⟨c, hc, rfl⟩
  · exact h tree hold
  · obtain ⟨-, hfield, -, htags⟩ := Clause.isAffirmative_iff.mp (h _ hc)
    exact Clause.isAffirmative_iff.mpr
      ⟨rfl, hfield, Value.areRegular_iff.mpr (isRegular_mergedValues h), htags⟩

/-- Affirmative clauses exclude no values that could be merged. -/
theorem mergeAlternatives_of_affirmative {group : List Tree}
    (h : ∀ tree ∈ group, tree.isAffirmative contentTypeField = true) :
    mergeAlternatives group = mergeKind isPositive .oneOf group := by
  refine mergeKind_of_few ?_
  have hnone : kindCount isNegative (mergeKind isPositive .oneOf group) = 0 := by
    simp only [kindCount, List.length_eq_zero_iff, List.filterMap_eq_nil_iff]
    intro tree htree
    have haffirmative := isAffirmative_mergeKind h tree htree
    cases hkind : clauseOfKind? isNegative tree with
    | none => rfl
    | some c =>
        obtain ⟨rfl, hop⟩ := clauseOfKind?_eq_some.mp hkind
        have := (Clause.isAffirmative_iff.mp haffirmative).1
        cases hc : c.op <;> simp_all [Operator.isAffirmative, isNegative]
  omega

/-- Regrouping the parts of a disjunction keeps what they find together. -/
theorem keepTogether_regroup {parts : List Tree}
    (h : ∀ part ∈ parts, part.isAffirmative contentTypeField = true) :
    (∀ part ∈ regroup parts, part.isAffirmative contentTypeField = true) ∧
      setting.KeepTogether parts (regroup parts) := by
  have hgroups : ∀ group ∈ groupByField parts, ∀ tree ∈ group,
      tree.isAffirmative contentTypeField = true := fun group hgroup tree htree =>
    h tree (mem_flatten_groupByField.mp (List.mem_flatten.mpr ⟨group, hgroup, htree⟩))
  constructor
  · intro tree htree
    obtain ⟨group, hgroup, hin⟩ := List.mem_flatMap.mp htree
    rw [mergeAlternatives_of_affirmative (hgroups group hgroup)] at hin
    exact isAffirmative_mergeKind (hgroups group hgroup) tree hin
  · refine KeepTogether.trans (keepTogether_of_mem_iff fun tree => mem_flatten_groupByField) ?_
    refine keepTogether_flatMap fun group hgroup => ?_
    rw [mergeAlternatives_of_affirmative (hgroups group hgroup)]
    exact keepTogether_mergeKind ((grouped_groupByField parts).isGroup group hgroup)
      (hgroups group hgroup)

/-! ### The rules -/

/-- The rule leaves affirmative trees affirmative and keeps what they find. -/
def RuleKeeps (setting : Setting) (contentTypeField : String) (rule : Tree → Option Tree) : Prop :=
  ∀ tree next, tree.isAffirmative contentTypeField = true → rule tree = some next →
    next.isAffirmative contentTypeField = true ∧ setting.Keeps tree next

theorem isAffirmative_all {parts : List Tree} {tags : Tags} :
    (all parts tags).isAffirmative contentTypeField = true ↔
      (∀ part ∈ parts, part.isAffirmative contentTypeField = true) ∧ tags = [] := by
  simp [isAffirmative, areAffirmative_iff]

theorem isAffirmative_any {parts : List Tree} {tags : Tags} :
    (any parts tags).isAffirmative contentTypeField = true ↔
      (∀ part ∈ parts, part.isAffirmative contentTypeField = true) ∧ tags = [] :=
  isAffirmative_all

theorem isAffirmative_adjacent {parts : List Tree} {tags : Tags} :
    (adjacent parts tags).isAffirmative contentTypeField = true ↔
      (∀ part ∈ parts, part.isAffirmative contentTypeField = true) ∧ tags = [] :=
  isAffirmative_all

/-- The node that connects parts. -/
def connected (setting : Setting) (parts : List Tree) (tags : Tags) : Tree :=
  match setting.adjacency with
  | .and => all parts tags
  | .or => any parts tags

/-- Adjacent parts mean what the node that connects them means. -/
theorem connect_connected (parts : List Tree) (tags : Tags) :
    (setting.connected parts tags).connect setting.adjacency
      = (adjacent parts tags).connect setting.adjacency := by
  unfold connected
  cases setting.adjacency <;> rfl

theorem isAffirmative_connected {parts : List Tree} {tags : Tags} :
    (setting.connected parts tags).isAffirmative contentTypeField
      = (adjacent parts tags).isAffirmative contentTypeField := by
  unfold connected
  cases setting.adjacency <;> rfl

theorem ruleKeeps_resolveAdjacency :
    setting.RuleKeeps contentTypeField (resolveAdjacency setting.adjacency) := by
  intro tree next h hrule
  cases tree with
  | adjacent parts tags =>
      have hnext : next = setting.connected parts tags := by
        unfold connected
        cases hadj : setting.adjacency <;> rw [hadj] at hrule <;> exact (Option.some.inj hrule).symm
      rw [hnext]
      exact ⟨isAffirmative_connected.trans h, keeps_of_connect_eq (connect_connected _ _).symm⟩
  | _ => cases hrule

theorem ruleKeeps_cancelNegations : setting.RuleKeeps contentTypeField cancelNegations := by
  intro tree next h hrule
  cases tree with
  | negated inner tags => simp [isAffirmative] at h
  | _ => cases hrule

theorem ruleKeeps_groupFields : setting.RuleKeeps contentTypeField groupFields := by
  intro tree next h hrule
  cases tree with
  | all parts tags =>
      obtain ⟨hparts, rfl⟩ := isAffirmative_all.mp h
      obtain ⟨-, hnext⟩ := Option.ite_none_left_eq_some.mp hrule
      obtain rfl := Option.some.inj hnext
      have hgrouped : ∀ part ∈ (groupByField parts).flatten,
          part.isAffirmative contentTypeField = true :=
        fun part hpart => hparts part (mem_flatten_groupByField.mp hpart)
      refine ⟨isAffirmative_all.mpr ⟨hgrouped, rfl⟩, keeps_all hparts hgrouped ?_ ?_⟩
      · exact fun old hold => ⟨old, mem_flatten_groupByField.mpr hold, .refl old⟩
      · exact fun new hnew => ⟨new, mem_flatten_groupByField.mp hnew, .refl new⟩
  | any parts tags =>
      obtain ⟨hparts, rfl⟩ := isAffirmative_any.mp h
      rw [groupFields_any] at hrule
      obtain ⟨-, hnext⟩ := Option.ite_none_left_eq_some.mp hrule
      obtain rfl := Option.some.inj hnext
      obtain ⟨hregrouped, htogether⟩ := @keepTogether_regroup setting _ parts hparts
      exact ⟨isAffirmative_any.mpr ⟨hregrouped, rfl⟩, keeps_any hparts hregrouped htogether⟩
  | _ => cases hrule

theorem keeps_all_single {only : Tree} (h : only.isAffirmative contentTypeField = true) :
    setting.Keeps (all [only] []) only := by
  have hparts : ∀ part ∈ [only], part.isAffirmative contentTypeField = true := by simpa using h
  have hplan : setting.CanPlan (all [only] []) → ∀ part ∈ [only], setting.CanPlan part :=
    (canPlan_all hparts).mp
  refine ⟨fun hall => hplan hall only List.mem_cons_self, fun hall doc => ?_⟩
  rw [finds_all hparts (hplan hall)]
  simp

theorem keeps_any_single {only : Tree} (h : only.isAffirmative contentTypeField = true) :
    setting.Keeps (any [only] []) only := by
  have hparts : ∀ part ∈ [only], part.isAffirmative contentTypeField = true := by simpa using h
  have hplan : setting.CanPlan (any [only] []) → ∀ part ∈ [only], setting.CanPlan part :=
    (canPlan_any hparts).mp
  refine ⟨fun hany => hplan hany only List.mem_cons_self, fun hany doc => ?_⟩
  rw [finds_any hparts (hplan hany)]
  simp

theorem ruleKeeps_unwrapSingle : setting.RuleKeeps contentTypeField unwrapSingle := by
  intro tree next h hrule
  unfold unwrapSingle at hrule
  split at hrule
  case h_1 only tags =>
    obtain rfl := Option.some.inj hrule
    obtain ⟨hparts, rfl⟩ := isAffirmative_all.mp h
    exact ⟨hparts only List.mem_cons_self, keeps_all_single (hparts only List.mem_cons_self)⟩
  case h_2 only tags =>
    obtain rfl := Option.some.inj hrule
    obtain ⟨hparts, rfl⟩ := isAffirmative_any.mp h
    exact ⟨hparts only List.mem_cons_self, keeps_any_single (hparts only List.mem_cons_self)⟩
  case h_3 only tags =>
    obtain rfl := Option.some.inj hrule
    obtain ⟨hparts, rfl⟩ := isAffirmative_adjacent.mp h
    have honly := hparts only List.mem_cons_self
    have hconnected : setting.Keeps (setting.connected [only] []) only := by
      unfold connected
      cases setting.adjacency
      · exact keeps_all_single honly
      · exact keeps_any_single honly
    exact ⟨honly, (keeps_of_connect_eq (connect_connected _ _).symm).trans hconnected⟩
  case h_4 => cases hrule

theorem ruleKeeps_scopeContentTypes :
    setting.RuleKeeps contentTypeField (scopeContentTypes contentTypeField) := by
  intro tree next h hrule
  cases tree with
  | all parts tags =>
      obtain ⟨hparts, -⟩ := isAffirmative_all.mp h
      have hnone : parts.flatMap (contentTypesOf contentTypeField) = [] := by
        refine List.flatMap_eq_nil_iff.mpr fun part hpart => ?_
        cases part with
        | clause c =>
            have hfield := (Clause.isAffirmative_iff.mp (hparts _ hpart)).2.1
            simp [contentTypesOf, hfield]
        | _ => rfl
      have hasked : askedContentTypes contentTypeField parts = [] := by
        rw [askedContentTypes, hnone, List.foldl_nil]
      rw [scopeContentTypes_all, hasked] at hrule
      cases hrule
  | _ => cases hrule

/-! ### Rounds and whole trees -/

variable {conventions : Conventions}

theorem ruleKeeps_rules (hadjacency : setting.adjacency = conventions.adjacency) :
    ∀ rule ∈ rules conventions, setting.RuleKeeps conventions.contentTypeField rule := by
  simp only [rules, List.forall_mem_cons, ← hadjacency]
  exact ⟨ruleKeeps_resolveAdjacency, ruleKeeps_cancelNegations, ruleKeeps_groupFields,
    ruleKeeps_unwrapSingle, ruleKeeps_scopeContentTypes, by simp⟩

theorem keeps_round {rules : List (Tree → Option Tree)}
    (hrules : ∀ rule ∈ rules, setting.RuleKeeps contentTypeField rule) {tree : Tree}
    (h : tree.isAffirmative contentTypeField = true) :
    (round rules tree).1.isAffirmative contentTypeField = true ∧
      setting.Keeps tree (round rules tree).1 := by
  rw [round_fst]
  induction rules generalizing tree with
  | nil => exact ⟨h, .refl tree⟩
  | cons rule rest ih =>
      obtain ⟨hrule, hothers⟩ := List.forall_mem_cons.mp hrules
      have hafter : (after rule tree).isAffirmative contentTypeField = true ∧
          setting.Keeps tree (after rule tree) := by
        unfold after
        cases happlied : rule tree with
        | none => exact ⟨h, .refl tree⟩
        | some next => exact hrule tree next h happlied
      obtain ⟨haffirmative, hkeeps⟩ := ih hothers hafter.1
      exact ⟨haffirmative, hafter.2.trans hkeeps⟩

theorem keeps_settle {rules : List (Tree → Option Tree)}
    (hrules : ∀ rule ∈ rules, setting.RuleKeeps contentTypeField rule) (fuel : Nat) {tree : Tree}
    (h : tree.isAffirmative contentTypeField = true) :
    (settle rules fuel tree).isAffirmative contentTypeField = true ∧
      setting.Keeps tree (settle rules fuel tree) := by
  induction fuel generalizing tree with
  | zero => exact ⟨h, .refl tree⟩
  | succ fuel ih =>
      obtain ⟨haffirmative, hkeeps⟩ := keeps_round hrules h
      simp only [settle]
      split
      · obtain ⟨hlast, hrest⟩ := ih haffirmative
        exact ⟨hlast, hkeeps.trans hrest⟩
      · exact ⟨haffirmative, hkeeps⟩

mutual

/-- Simplifying leaves affirmative trees affirmative and keeps what they find. -/
theorem keeps_simplify (hadjacency : setting.adjacency = conventions.adjacency) :
    ∀ {tree : Tree}, tree.isAffirmative conventions.contentTypeField = true →
      (simplify conventions tree).isAffirmative conventions.contentTypeField = true ∧
        setting.Keeps tree (simplify conventions tree)
  | clause c, h => keeps_settle (ruleKeeps_rules hadjacency) maxRounds h
  | all parts tags, h => by
      obtain ⟨hparts, rfl⟩ := isAffirmative_all.mp h
      obtain ⟨hdone, hkeeps⟩ := keeps_simplifyAll hadjacency hparts
      obtain ⟨hforth, hback⟩ := exists_partners hkeeps
      obtain ⟨hlast, hsettled⟩ := keeps_settle (ruleKeeps_rules hadjacency) maxRounds
        (isAffirmative_all.mpr ⟨hdone, rfl⟩)
      exact ⟨hlast, (keeps_all hparts hdone hforth hback).trans hsettled⟩
  | any parts tags, h => by
      obtain ⟨hparts, rfl⟩ := isAffirmative_any.mp h
      obtain ⟨hdone, hkeeps⟩ := keeps_simplifyAll hadjacency hparts
      obtain ⟨hforth, hback⟩ := exists_partners hkeeps
      obtain ⟨hlast, hsettled⟩ := keeps_settle (ruleKeeps_rules hadjacency) maxRounds
        (isAffirmative_any.mpr ⟨hdone, rfl⟩)
      have htogether := keepTogether_of_each hforth hback
      exact ⟨hlast, (keeps_any hparts hdone htogether).trans hsettled⟩
  | adjacent parts tags, h => by
      obtain ⟨hparts, rfl⟩ := isAffirmative_adjacent.mp h
      obtain ⟨hdone, hkeeps⟩ := keeps_simplifyAll hadjacency hparts
      obtain ⟨hforth, hback⟩ := exists_partners hkeeps
      obtain ⟨hlast, hsettled⟩ := keeps_settle (ruleKeeps_rules hadjacency) maxRounds
        (isAffirmative_adjacent.mpr ⟨hdone, rfl⟩)
      have hconnected : setting.Keeps (setting.connected parts [])
          (setting.connected (simplifyAll conventions parts) []) := by
        unfold connected
        cases setting.adjacency
        · exact keeps_all hparts hdone hforth hback
        · exact keeps_any hparts hdone (keepTogether_of_each hforth hback)
      have hbefore := keeps_of_connect_eq (@connect_connected setting parts []).symm
      have hafter := keeps_of_connect_eq
        (@connect_connected setting (simplifyAll conventions parts) [])
      exact ⟨hlast, ((hbefore.trans hconnected).trans hafter).trans hsettled⟩
  | negated inner tags, h => by simp [isAffirmative] at h
  | sorted inner keys tags, h => by simp [isAffirmative] at h

theorem keeps_simplifyAll (hadjacency : setting.adjacency = conventions.adjacency) :
    ∀ {trees : List Tree},
      (∀ tree ∈ trees, tree.isAffirmative conventions.contentTypeField = true) →
      (∀ tree ∈ simplifyAll conventions trees,
        tree.isAffirmative conventions.contentTypeField = true) ∧
        List.Forall₂ setting.Keeps trees (simplifyAll conventions trees)
  | [], _ => ⟨by simp [simplifyAll], .nil⟩
  | tree :: rest, h => by
      obtain ⟨htree, hrest⟩ := List.forall_mem_cons.mp h
      obtain ⟨hfirst, hkeeps⟩ := keeps_simplify hadjacency htree
      obtain ⟨hothers, hall⟩ := keeps_simplifyAll hadjacency hrest
      exact ⟨List.forall_mem_cons.mpr ⟨hfirst, hothers⟩, .cons hkeeps hall⟩

end

end Setting

namespace Tree

mutual

theorem isNaNFree_of_isAffirmative {contentTypeField : String} : ∀ {tree : Tree},
    tree.isAffirmative contentTypeField = true → tree.isNaNFree = true
  | clause c, h => by
      obtain ⟨-, -, hvalue, htags⟩ := Clause.isAffirmative_iff.mp h
      simp [isNaNFree, Clause.isNaNFree, Value.isNaNFree_of_isRegular hvalue, htags,
        Json.membersNaNFree]
  | all parts tags, h | any parts tags, h | adjacent parts tags, h => by
      simp only [isAffirmative, Bool.and_eq_true, List.isEmpty_iff] at h
      simp [isNaNFree, areNaNFree_of_areAffirmative h.1, h.2, Json.membersNaNFree]
  | negated _ _, h | sorted _ _ _, h => by simp [isAffirmative] at h

theorem areNaNFree_of_areAffirmative {contentTypeField : String} : ∀ {trees : List Tree},
    areAffirmative contentTypeField trees = true → areNaNFree trees = true
  | [], _ => rfl
  | _ :: _, h => by
      simp only [areAffirmative, Bool.and_eq_true] at h
      simp [areNaNFree, isNaNFree_of_isAffirmative h.1, areNaNFree_of_areAffirmative h.2]

end

mutual

/-- Without adjacent parts there is nothing to connect. -/
theorem connect_eq_self (adjacency : Connective) : ∀ {tree : Tree},
    (∀ parts tags, ¬Within (adjacent parts tags) tree) → tree.connect adjacency = tree
  | clause _, _ => rfl
  | all parts tags, h => by
      have hparts : ∀ part ∈ parts, ∀ ps ts, ¬Within (adjacent ps ts) part :=
        fun part hpart ps ts hin => h ps ts (.part hpart hin)
      rw [connect, connectAll_eq_self adjacency hparts]
  | any parts tags, h => by
      have hparts : ∀ part ∈ parts, ∀ ps ts, ¬Within (adjacent ps ts) part :=
        fun part hpart ps ts hin => h ps ts (.part hpart hin)
      rw [connect, connectAll_eq_self adjacency hparts]
  | adjacent parts tags, h => absurd (.root _) (h parts tags)
  | negated tree tags, h => by
      rw [connect, connect_eq_self adjacency fun ps ts hin =>
        h ps ts (.part List.mem_cons_self hin)]
  | sorted tree keys tags, h => by
      rw [connect, connect_eq_self adjacency fun ps ts hin =>
        h ps ts (.part List.mem_cons_self hin)]

theorem connectAll_eq_self (adjacency : Connective) : ∀ {trees : List Tree},
    (∀ tree ∈ trees, ∀ parts tags, ¬Within (adjacent parts tags) tree) →
      connectAll adjacency trees = trees
  | [], _ => rfl
  | _ :: _, h => by
      obtain ⟨hfirst, hrest⟩ := List.forall_mem_cons.mp h
      rw [connectAll, connect_eq_self adjacency hfirst, connectAll_eq_self adjacency hrest]

end

/-- An affirmative tree is planned without an order, and as a lookup of what it finds. -/
theorem plan_connect_eq_ok {contentTypeField : String} (setting : Setting)
    (hscope : setting.scope = none) {tree : Tree}
    (h : tree.isAffirmative contentTypeField = true) {lookup : Lookup}
    {order : Option (List SortField)} :
    setting.context.plan (tree.connect setting.adjacency) = .ok (lookup, order) ↔
      setting.Plans tree lookup ∧ order = none := by
  have hplan : setting.context.plan (tree.connect setting.adjacency)
      = (do return (← setting.context.root (tree.connect setting.adjacency), none)) := by
    cases tree with
    | sorted inner keys tags => simp [isAffirmative] at h
    | adjacent parts tags => cases setting.adjacency <;> rfl
    | _ => rfl
  rw [hplan, bind_eq_ok]
  simp only [PlanContext.root, bind_eq_ok, ← hscope]
  constructor
  · rintro ⟨_, ⟨role, hnode, hroot⟩, hresult⟩
    have hplans := Setting.plans_of_node h hnode
    have hrole : role = .includes role.lookup := Except.ok.inj (hnode.symm.trans hplans)
    have hincludes : role.excludes = false := by
      rw [hrole]
      rfl
    simp only [hincludes, Bool.false_eq_true, if_false] at hroot
    obtain rfl := Except.ok.inj hroot
    obtain ⟨rfl, rfl⟩ := Prod.mk.inj (Except.ok.inj hresult)
    exact ⟨hplans, rfl⟩
  · rintro ⟨hplans, rfl⟩
    exact ⟨lookup, ⟨_, hplans, rfl⟩, rfl⟩

/--
**Simplifying keeps what a query finds.**  Take an affirmative query with its adjacent parts
connected by the default connective.  If it can be planned, then so can the simplified query,
and in every index both find the same documents.
-/
theorem matching_simplify (conventions : Conventions) (context : PlanContext)
    (index : InvertedIndex) (tree : Tree)
    (haffirmative : tree.isAffirmative conventions.contentTypeField = true) (lookup : Lookup)
    (order : Option (List SortField))
    (hplan : context.plan (tree.connect conventions.adjacency) = .ok (lookup, order)) :
    ∃ simplified, context.plan (simplify conventions tree) = .ok (simplified, order) ∧
      ∀ doc, doc ∈ index.matching simplified ↔ doc ∈ index.matching lookup := by
  obtain ⟨hsimple, hkeeps⟩ := @Setting.keeps_simplify
    ⟨conventions.adjacency, context, none, index⟩ conventions rfl tree haffirmative
  obtain ⟨hplans, rfl⟩ := (plan_connect_eq_ok
    ⟨conventions.adjacency, context, none, index⟩ rfl haffirmative).mp hplan
  obtain ⟨simplified, hsimplified⟩ := hkeeps.canPlan ⟨lookup, hplans⟩
  have hnormal := (@simplify_spec conventions tree
    (isNaNFree_of_isAffirmative haffirmative)).2.settled.normalForm
  have hconnected := connect_eq_self conventions.adjacency hnormal.resolved
  refine ⟨simplified, ?_, fun doc => ?_⟩
  · rw [← hconnected]
    exact (plan_connect_eq_ok ⟨conventions.adjacency, context, none, index⟩ rfl hsimple).mpr
      ⟨hsimplified, rfl⟩
  · rw [InvertedIndex.mem_matching, InvertedIndex.mem_matching]
    have hfinds := hkeeps.finds_iff ⟨lookup, hplans⟩ doc
    rw [hsimplified.finds_iff, hplans.finds_iff] at hfinds
    rw [hfinds]

/-- Alternatives on a field, one of them twice and not beside each other, and an adjacent part. -/
def scattered : Tree :=
  adjacent [any [compare "status" .equals (.word "open"), compare "size" .greater (.integer 2),
    compare "status" .oneOf (.list [.word "done", .word "open"])] [], anywhere .everything] []

/-- What the example is planned with: nothing is known of any field. -/
def bareContext : PlanContext := ⟨[], [], ⟨0, 0, 0⟩, 0, 0⟩

/-- An index of a document that the example finds. -/
def openIndex : InvertedIndex := (InvertedIndex.empty.insert [⟨.term "status" "open", []⟩]).1

theorem matching_simplify_scattered :
    scattered.isAffirmative "$contentType" = true ∧
      ∃ lookup, bareContext.plan (scattered.connect .and) = .ok (lookup, none) ∧
        openIndex.matching lookup = [0] ∧
        ∃ simplified,
          bareContext.plan (simplify ⟨.and, "$contentType"⟩ scattered) = .ok (simplified, none) ∧
          ∀ doc, doc ∈ openIndex.matching simplified ↔ doc ∈ openIndex.matching lookup :=
  have haffirmative : scattered.isAffirmative "$contentType" = true := by decide
  ⟨haffirmative, _, rfl, by decide +kernel, matching_simplify ⟨.and, "$contentType"⟩ bareContext
    openIndex scattered haffirmative _ none rfl⟩

end Tree

end DocIndex.Query
