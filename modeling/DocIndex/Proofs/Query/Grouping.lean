/-
What grouping clauses by field makes of the parts of a node.

A list of groups is `Grouped` if each group is a run of clauses on one field, or a single
other tree, and no two groups are on one field.  Grouping always gives such a list, and gives
it back when it is applied to the flattened list.  Merging the alternatives in a group keeps
the group one and leaves at most one clause of each kind in it, after which there is nothing
more to merge.  So grouping, with or without merging, is done after one application.
-/
import Mathlib.Tactic.Common
import DocIndex.Proofs.Query.Comparable
import DocIndex.Query.Tree.Simplify

namespace DocIndex.Query.Tree

/-! ### Groups -/

/-- The field that a group is on. -/
def groupField? (group : List Tree) : Option String := group.head?.bind field?

/-- A run of clauses on one field, or a tree that is no clause on a field. -/
def IsGroup (group : List Tree) : Prop :=
  (∃ tree, group = [tree] ∧ tree.field? = none) ∨
    ∃ name, group ≠ [] ∧ ∀ tree ∈ group, tree.field? = some name

/-- Groups of which no two are on one field. -/
structure Grouped (groups : List (List Tree)) : Prop where
  isGroup : ∀ group ∈ groups, IsGroup group
  distinct : groups.Pairwise fun a b =>
    ∀ name, groupField? a = some name → groupField? b ≠ some name

theorem groupField?_of_mem {group : List Tree} (h : IsGroup group) {tree : Tree}
    (htree : tree ∈ group) : tree.field? = groupField? group := by
  rcases h with ⟨only, rfl, hnone⟩ | ⟨name, hne, hall⟩
  · rw [List.mem_singleton.mp htree]
    rfl
  · obtain ⟨first, rest, rfl⟩ := List.exists_cons_of_ne_nil hne
    rw [hall tree htree, ← hall first List.mem_cons_self]
    rfl

theorem groupField?_append {group : List Tree} (hne : group ≠ []) (more : List Tree) :
    groupField? (group ++ more) = groupField? group := by
  obtain ⟨first, rest, rfl⟩ := List.exists_cons_of_ne_nil hne
  rfl

theorem IsGroup.ne_nil {group : List Tree} (h : IsGroup group) : group ≠ [] := by
  rcases h with ⟨tree, rfl, -⟩ | ⟨-, hne, -⟩
  · simp
  · exact hne

theorem isGroup_singleton (tree : Tree) : IsGroup [tree] := by
  cases h : tree.field? with
  | none => exact Or.inl ⟨tree, rfl, h⟩
  | some name => exact Or.inr ⟨name, by simp, by simpa using h⟩

/-! ### Adding a tree to its group -/

theorem addToGroups_of_new {groups : List (List Tree)} {tree : Tree}
    (h : ∀ group ∈ groups, ∀ name, tree.field? = some name → groupField? group ≠ some name) :
    addToGroups groups tree = groups ++ [[tree]] := by
  induction groups with
  | nil => rfl
  | cons group rest ih =>
      have hfirst := h group List.mem_cons_self
      have hother : (tree.field?.isSome && (group.head?.bind field?) == tree.field?) = false := by
        cases hname : tree.field? with
        | none => rfl
        | some name => simpa [groupField?] using hfirst name hname
      have hrest := ih fun g hg => h g (List.mem_cons_of_mem _ hg)
      simp [addToGroups, hother, hrest]

theorem addToGroups_of_old {before after : List (List Tree)} {group : List Tree} {tree : Tree}
    {name : String} (hname : tree.field? = some name)
    (hbefore : ∀ other ∈ before, groupField? other ≠ some name)
    (hgroup : groupField? group = some name) :
    addToGroups (before ++ group :: after) tree = before ++ (group ++ [tree]) :: after := by
  induction before with
  | nil =>
      have hhead : group.head?.bind field? = some name := hgroup
      simp [addToGroups, hname, hhead]
  | cons other rest ih =>
      have hne : other.head?.bind field? ≠ some name := hbefore other List.mem_cons_self
      have hrest := ih fun g hg => hbefore g (List.mem_cons_of_mem _ hg)
      simp [addToGroups, hname, hne, hrest]

theorem grouped_addToGroups {groups : List (List Tree)} (h : Grouped groups) (tree : Tree) :
    Grouped (addToGroups groups tree) := by
  by_cases hold : ∃ name, tree.field? = some name ∧ ∃ group ∈ groups, groupField? group = some name
  · obtain ⟨name, hname, group, hmem, hgroup⟩ := hold
    obtain ⟨before, after, rfl⟩ := List.append_of_mem hmem
    have hpair := List.pairwise_append.mp h.distinct
    have hbefore : ∀ other ∈ before, groupField? other ≠ some name := by
      intro other hother hsame
      exact hpair.2.2 other hother group List.mem_cons_self name hsame hgroup
    have hgrown : IsGroup group := h.isGroup group hmem
    have hfield := groupField?_append hgrown.ne_nil [tree]
    rw [addToGroups_of_old hname hbefore hgroup]
    refine ⟨fun g hg => ?_, List.pairwise_append.mpr ⟨hpair.1, ?_, ?_⟩⟩
    · rcases List.mem_append.mp hg with hg | hg
      · exact h.isGroup g (List.mem_append_left _ hg)
      rcases List.mem_cons.mp hg with rfl | hg
      · refine Or.inr ⟨name, by simp, fun t ht => ?_⟩
        rcases List.mem_append.mp ht with ht | ht
        · rw [groupField?_of_mem hgrown ht, hgroup]
        · rw [List.mem_singleton.mp ht, hname]
      · exact h.isGroup g (List.mem_append_right _ (List.mem_cons_of_mem _ hg))
    · have hcons := List.pairwise_cons.mp hpair.2.1
      refine List.pairwise_cons.mpr ⟨fun g hg => ?_, hcons.2⟩
      rw [hfield]
      exact hcons.1 g hg
    · intro a ha b hb
      rcases List.mem_cons.mp hb with rfl | hb
      · rw [hfield]
        exact hpair.2.2 a ha group List.mem_cons_self
      · exact hpair.2.2 a ha b (List.mem_cons_of_mem _ hb)
  · have hnew : ∀ group ∈ groups, ∀ name, tree.field? = some name →
        groupField? group ≠ some name := fun group hg name hname hsame =>
      hold ⟨name, hname, group, hg, hsame⟩
    rw [addToGroups_of_new hnew]
    refine ⟨fun g hg => ?_, List.pairwise_append.mpr ⟨h.distinct, by simp, ?_⟩⟩
    · rcases List.mem_append.mp hg with hg | hg
      · exact h.isGroup g hg
      · rw [List.mem_singleton.mp hg]
        exact isGroup_singleton tree
    · intro a ha b hb name hsame htree
      rw [List.mem_singleton.mp hb] at htree
      exact hnew a ha name htree hsame

/-- Grouping gives groups. -/
theorem grouped_groupByField (parts : List Tree) : Grouped (groupByField parts) := by
  suffices h : ∀ (parts : List Tree) (groups : List (List Tree)), Grouped groups →
      Grouped (parts.foldl addToGroups groups) from
    h parts [] ⟨by simp, List.Pairwise.nil⟩
  intro parts
  induction parts with
  | nil => intro groups h; exact h
  | cons tree rest ih => intro groups h; exact ih _ (grouped_addToGroups h tree)

/-- Grouping neither loses nor makes trees. -/
theorem mem_flatten_groupByField {parts : List Tree} {tree : Tree} :
    tree ∈ (groupByField parts).flatten ↔ tree ∈ parts := by
  have hadd : ∀ (groups : List (List Tree)) (new : Tree),
      tree ∈ (addToGroups groups new).flatten ↔ tree ∈ groups.flatten ∨ tree = new := by
    intro groups new
    induction groups with
    | nil => simp [addToGroups]
    | cons group rest ih =>
        simp only [addToGroups]
        split
        · simp only [List.flatten_cons, List.mem_append, List.mem_singleton]
          tauto
        · simp only [List.flatten_cons, List.mem_append, ih, or_assoc]
  suffices h : ∀ (parts : List Tree) (groups : List (List Tree)),
      tree ∈ (parts.foldl addToGroups groups).flatten ↔ tree ∈ groups.flatten ∨ tree ∈ parts by
    simpa [groupByField] using h parts []
  intro parts
  induction parts with
  | nil => simp
  | cons new rest ih =>
      intro groups
      rw [List.foldl_cons, ih, hadd, List.mem_cons, or_assoc]

/-! ### Grouping again -/

theorem foldl_addToGroups_run {name : String} {before : List (List Tree)}
    (hbefore : ∀ other ∈ before, groupField? other ≠ some name) (run : List Tree) :
    ∀ group : List Tree, groupField? group = some name → (∀ tree ∈ run, tree.field? = some name) →
      run.foldl addToGroups (before ++ [group]) = before ++ [group ++ run] := by
  induction run with
  | nil => simp
  | cons tree rest ih =>
      intro group hgroup hrun
      have hne : group ≠ [] := by
        rintro rfl
        simp [groupField?] at hgroup
      rw [List.foldl_cons, addToGroups_of_old (hrun tree List.mem_cons_self) hbefore hgroup,
        ih (group ++ [tree]) (by rw [groupField?_append hne, hgroup])
          fun t ht => hrun t (List.mem_cons_of_mem _ ht)]
      simp

theorem foldl_addToGroups_group {before : List (List Tree)} {group : List Tree}
    (hgroup : IsGroup group)
    (hbefore : ∀ other ∈ before, ∀ name, groupField? other = some name →
      groupField? group ≠ some name) :
    group.foldl addToGroups before = before ++ [group] := by
  obtain ⟨first, rest, rfl⟩ := List.exists_cons_of_ne_nil hgroup.ne_nil
  have hfield : first.field? = groupField? (first :: rest) := rfl
  rw [List.foldl_cons, addToGroups_of_new fun other hother name hname hsame =>
    hbefore other hother name hsame (hfield ▸ hname)]
  rcases hgroup with ⟨tree, heq, -⟩ | ⟨name, -, hall⟩
  · simp only [List.cons.injEq] at heq
    rw [heq.2]
    rfl
  · have hname : first.field? = some name := hall first List.mem_cons_self
    have hfirst : ∀ other ∈ before, groupField? other ≠ some name :=
      fun other hother hsame => hbefore other hother name hsame (hfield ▸ hname)
    exact foldl_addToGroups_run hfirst rest [first] hname
      fun t ht => hall t (List.mem_cons_of_mem _ ht)

/-- **Grouping what is grouped gives the same groups.** -/
theorem groupByField_flatten {groups : List (List Tree)} (h : Grouped groups) :
    groupByField groups.flatten = groups := by
  suffices hfold : ∀ (groups before : List (List Tree)), Grouped (before ++ groups) →
      groups.flatten.foldl addToGroups before = before ++ groups from
    hfold groups [] h
  intro groups
  induction groups with
  | nil => simp
  | cons group rest ih =>
      intro before hg
      have hpair := (List.pairwise_append.mp hg.distinct).2.2
      rw [List.flatten_cons, List.foldl_append, foldl_addToGroups_group
        (hg.isGroup group (by simp))
        fun other hother name hname => hpair other hother group List.mem_cons_self name hname]
      have hmove : before ++ group :: rest = before ++ [group] ++ rest := by simp
      rw [ih (before ++ [group]) (hmove ▸ hg), hmove]

/-! ### Merging the alternatives of one kind -/

/-- How many clauses of a kind there are. -/
def kindCount (kind : Operator → Bool) (trees : List Tree) : Nat :=
  (trees.filterMap (clauseOfKind? kind)).length

theorem clauseOfKind?_eq_some {kind : Operator → Bool} {tree : Tree} {c : Clause} :
    clauseOfKind? kind tree = some c ↔ tree = clause c ∧ kind c.op = true := by
  cases tree with
  | clause d =>
      by_cases h : kind d.op = true
      · simp only [clauseOfKind?, h, if_true, Option.some.injEq, clause.injEq]
        exact ⟨fun heq => ⟨heq, heq ▸ h⟩, And.left⟩
      · simp only [clauseOfKind?, h, if_false, clause.injEq, Bool.false_eq_true, reduceCtorEq,
          false_iff, not_and]
        rintro rfl
        exact h
  | all parts tags => simp [clauseOfKind?]
  | any parts tags => simp [clauseOfKind?]
  | adjacent parts tags => simp [clauseOfKind?]
  | negated tree tags => simp [clauseOfKind?]
  | sorted tree keys tags => simp [clauseOfKind?]

section Merging

variable {kind other : Operator → Bool} {op : Operator} {values : List Value}

theorem kindCount_withoutKind (kind : Operator → Bool) (trees : List Tree) :
    kindCount kind (withoutKind kind trees) = 0 := by
  simp only [kindCount, withoutKind, List.length_eq_zero_iff, List.filterMap_eq_nil_iff,
    List.mem_filter, Option.isNone_iff_eq_none]
  exact fun tree h => h.2

/-- Merging leaves one clause of the kind. -/
theorem kindCount_mergeAtFirst (hop : kind op = true) {trees : List Tree}
    (h : kindCount kind trees ≠ 0) : kindCount kind (mergeAtFirst kind op values trees) = 1 := by
  induction trees with
  | nil => simp [kindCount] at h
  | cons tree rest ih =>
      simp only [mergeAtFirst]
      split
      · have hzero := kindCount_withoutKind kind rest
        simp only [kindCount, List.length_eq_zero_iff] at hzero
        simp [kindCount, clauseOfKind?, hop, hzero]
      · rename_i hnone
        have hrest : kindCount kind rest ≠ 0 := by simpa [kindCount, hnone] using h
        simpa [kindCount, hnone] using ih hrest

/-- Merging leaves the clauses of other kinds alone. -/
theorem kindCount_mergeAtFirst_other (hop : other op = false)
    (hdisjoint : ∀ o, kind o = true → other o = false) (trees : List Tree) :
    kindCount other (mergeAtFirst kind op values trees) = kindCount other trees := by
  have hskip : ∀ (tree : Tree) (c : Clause), clauseOfKind? kind tree = some c →
      clauseOfKind? other tree = none := by
    intro tree c hc
    obtain ⟨rfl, hkind⟩ := clauseOfKind?_eq_some.mp hc
    simp [clauseOfKind?, hdisjoint _ hkind]
  have hwithout : ∀ trees : List Tree, (withoutKind kind trees).filterMap (clauseOfKind? other)
      = trees.filterMap (clauseOfKind? other) := by
    intro trees
    induction trees with
    | nil => rfl
    | cons tree rest ih =>
        cases hc : clauseOfKind? kind tree with
        | none =>
            have hkeep : withoutKind kind (tree :: rest) = tree :: withoutKind kind rest := by
              simp [withoutKind, hc]
            rw [hkeep, List.filterMap_cons, List.filterMap_cons, ih]
        | some c => simpa [withoutKind, hc, hskip tree c hc] using ih
  induction trees with
  | nil => rfl
  | cons tree rest ih =>
      simp only [mergeAtFirst]
      split
      · rename_i c hc
        have hmerged : clauseOfKind? other (clause { c with op := op, value := .list values })
            = none := by simp [clauseOfKind?, hop]
        simp [kindCount, hmerged, hwithout, hskip tree c hc]
      · unfold kindCount at ih ⊢
        rw [List.filterMap_cons, List.filterMap_cons]
        split <;> simp [ih]

theorem mem_mergeAtFirst {trees : List Tree} {tree : Tree}
    (h : tree ∈ mergeAtFirst kind op values trees) :
    tree ∈ trees ∨
      ∃ c, clause c ∈ trees ∧ tree = clause { c with op := op, value := .list values } := by
  induction trees with
  | nil => simp [mergeAtFirst] at h
  | cons first rest ih =>
      simp only [mergeAtFirst] at h
      split at h
      · rename_i c hc
        rcases List.mem_cons.mp h with rfl | hmem
        · exact Or.inr ⟨c, by rw [(clauseOfKind?_eq_some.mp hc).1]; exact List.mem_cons_self, rfl⟩
        · exact Or.inl (List.mem_cons_of_mem _ (List.mem_filter.mp hmem).1)
      · rcases List.mem_cons.mp h with rfl | hmem
        · exact Or.inl List.mem_cons_self
        rcases ih hmem with hrest | ⟨c, hc, heq⟩
        · exact Or.inl (List.mem_cons_of_mem _ hrest)
        · exact Or.inr ⟨c, List.mem_cons_of_mem _ hc, heq⟩

theorem mergeKind_of_few {group : List Tree} (h : kindCount kind group < 2) :
    mergeKind kind op group = group :=
  if_pos h

/-- The values that merged clauses list. -/
def mergedValues (kind : Operator → Bool) (group : List Tree) : List Value :=
  ((group.filterMap (clauseOfKind? kind)).flatMap fun c => c.value.scalars).foldl addValue []

theorem mergeKind_of_many {group : List Tree} (h : ¬kindCount kind group < 2) :
    mergeKind kind op group = mergeAtFirst kind op (mergedValues kind group) group :=
  if_neg h

theorem mem_of_mem_addValue {values : List Value} {value new : Value}
    (h : value ∈ addValue values new) : value ∈ values ∨ value = new := by
  unfold addValue at h
  split at h
  · exact Or.inl h
  · simpa using h

theorem mem_of_mem_foldl_addValue {value : Value} (more : List Value) : ∀ {values : List Value},
    value ∈ more.foldl addValue values → value ∈ values ∨ value ∈ more := by
  induction more with
  | nil => exact Or.inl
  | cons first rest ih =>
      intro values h
      rw [List.mem_cons, ← or_assoc]
      exact (ih h).imp_left mem_of_mem_addValue

theorem mem_mergedValues {kind : Operator → Bool} {group : List Tree} {value : Value}
    (h : value ∈ mergedValues kind group) :
    ∃ c, clause c ∈ group ∧ kind c.op = true ∧ value ∈ c.value.scalars := by
  rcases mem_of_mem_foldl_addValue _ h with hnone | hvalue
  · exact absurd hnone List.not_mem_nil
  obtain ⟨c, hc, hvalue⟩ := List.mem_flatMap.mp hvalue
  obtain ⟨tree, htree, hkind⟩ := List.mem_filterMap.mp hc
  obtain ⟨rfl, hop⟩ := clauseOfKind?_eq_some.mp hkind
  exact ⟨c, htree, hop, hvalue⟩

theorem kindCount_mergeKind (hop : kind op = true) (group : List Tree) :
    kindCount kind (mergeKind kind op group) < 2 := by
  by_cases h : kindCount kind group < 2
  · rw [mergeKind_of_few h]
    exact h
  · rw [mergeKind_of_many h, kindCount_mergeAtFirst hop (by omega)]
    omega

theorem kindCount_mergeKind_other (hop : other op = false)
    (hdisjoint : ∀ o, kind o = true → other o = false) (group : List Tree) :
    kindCount other (mergeKind kind op group) = kindCount other group := by
  by_cases h : kindCount kind group < 2
  · rw [mergeKind_of_few h]
  · rw [mergeKind_of_many h, kindCount_mergeAtFirst_other hop hdisjoint]

theorem groupField?_mergeAtFirst (trees : List Tree) :
    groupField? (mergeAtFirst kind op values trees) = groupField? trees := by
  cases trees with
  | nil => rfl
  | cons first rest =>
      simp only [mergeAtFirst]
      split
      · rename_i c hc
        rw [(clauseOfKind?_eq_some.mp hc).1]
        rfl
      · rfl

theorem groupField?_mergeKind (group : List Tree) :
    groupField? (mergeKind kind op group) = groupField? group := by
  by_cases h : kindCount kind group < 2
  · rw [mergeKind_of_few h]
  · rw [mergeKind_of_many h, groupField?_mergeAtFirst]

theorem isGroup_mergeKind {group : List Tree} (hgroup : IsGroup group) :
    IsGroup (mergeKind kind op group) := by
  by_cases h : kindCount kind group < 2
  · rw [mergeKind_of_few h]
    exact hgroup
  rw [mergeKind_of_many h]
  rcases hgroup with ⟨tree, rfl, -⟩ | ⟨name, hne, hall⟩
  · refine absurd ?_ h
    exact Nat.lt_succ_of_le (List.length_filterMap_le _ [tree])
  · refine Or.inr ⟨name, ?_, fun tree htree => ?_⟩
    · obtain ⟨first, rest, rfl⟩ := List.exists_cons_of_ne_nil hne
      simp only [mergeAtFirst]
      split <;> simp
    · rcases mem_mergeAtFirst htree with hmem | ⟨c, hc, rfl⟩
      · exact hall tree hmem
      · exact hall (clause c) hc

end Merging

/-! ### Merging the alternatives of a group -/

theorem negative_not_positive (op : Operator) (h : isNegative op = true) :
    isPositive op = false := by
  cases op <;> first | rfl | simp [isNegative] at h

theorem mergeAlternatives_few (group : List Tree) :
    kindCount isPositive (mergeAlternatives group) < 2 ∧
      kindCount isNegative (mergeAlternatives group) < 2 := by
  refine ⟨?_, kindCount_mergeKind rfl _⟩
  rw [mergeAlternatives, kindCount_mergeKind_other rfl negative_not_positive]
  exact kindCount_mergeKind rfl group

theorem mergeAlternatives_of_few {group : List Tree} (hpos : kindCount isPositive group < 2)
    (hneg : kindCount isNegative group < 2) : mergeAlternatives group = group := by
  rw [mergeAlternatives, mergeKind_of_few hpos, mergeKind_of_few hneg]

/-- Merging the alternatives of a group again changes nothing. -/
theorem mergeAlternatives_idem (group : List Tree) :
    mergeAlternatives (mergeAlternatives group) = mergeAlternatives group :=
  mergeAlternatives_of_few (mergeAlternatives_few group).1 (mergeAlternatives_few group).2

theorem grouped_map_mergeAlternatives {groups : List (List Tree)} (h : Grouped groups) :
    Grouped (groups.map mergeAlternatives) where
  isGroup := by
    intro group hgroup
    obtain ⟨old, hold, rfl⟩ := List.mem_map.mp hgroup
    exact isGroup_mergeKind (isGroup_mergeKind (h.isGroup old hold))
  distinct := by
    refine List.pairwise_map.mpr (h.distinct.imp fun {a b} hab => ?_)
    simpa only [mergeAlternatives, groupField?_mergeKind] using hab

/-- The parts of a node with clauses on one field together and their alternatives merged. -/
def regroup (parts : List Tree) : List Tree := (groupByField parts).flatMap mergeAlternatives

theorem regroup_eq (parts : List Tree) :
    regroup parts = ((groupByField parts).map mergeAlternatives).flatten :=
  List.flatMap_def

/-- **Regrouping again changes nothing.** -/
theorem regroup_idem (parts : List Tree) : regroup (regroup parts) = regroup parts := by
  have hagain : groupByField (regroup parts) = (groupByField parts).map mergeAlternatives := by
    rw [regroup_eq]
    exact groupByField_flatten (grouped_map_mergeAlternatives (grouped_groupByField parts))
  have hidem : ∀ group ∈ groupByField parts,
      (mergeAlternatives ∘ mergeAlternatives) group = mergeAlternatives group := by
    intro group _
    rw [Function.comp_apply, mergeAlternatives_idem]
  calc regroup (regroup parts)
      = (((groupByField parts).map mergeAlternatives).map mergeAlternatives).flatten := by
        rw [regroup_eq (regroup parts), hagain]
    _ = ((groupByField parts).map mergeAlternatives).flatten := by
        rw [List.map_map, List.map_congr_left hidem]
    _ = regroup parts := (regroup_eq parts).symm

theorem mem_mergeKind {kind : Operator → Bool} {op : Operator} {group : List Tree} {tree : Tree}
    (h : tree ∈ mergeKind kind op group) : tree ∈ group ∨ ∃ c, tree = clause c := by
  by_cases hfew : kindCount kind group < 2
  · rw [mergeKind_of_few hfew] at h
    exact Or.inl h
  · rw [mergeKind_of_many hfew] at h
    exact (mem_mergeAtFirst h).imp_right fun ⟨c, _, heq⟩ => ⟨_, heq⟩

/-- Regrouping makes nothing but clauses. -/
theorem mem_regroup {parts : List Tree} {tree : Tree} (h : tree ∈ regroup parts) :
    tree ∈ parts ∨ ∃ c, tree = clause c := by
  obtain ⟨group, hgroup, hin⟩ := List.mem_flatMap.mp h
  rcases mem_mergeKind hin with hin | hclause
  · rcases mem_mergeKind hin with hin | hclause
    · exact Or.inl (mem_flatten_groupByField.mp (List.mem_flatten.mpr ⟨group, hgroup, hin⟩))
    · exact Or.inr hclause
  · exact Or.inr hclause

/-! ### Contiguous fields and single alternatives -/

/-- The clauses on each field stand together. -/
def Together (parts : List Tree) : Prop :=
  ∀ name, ∃ before run after, parts = before ++ run ++ after ∧
    (∀ tree ∈ run, tree.field? = some name) ∧ ∀ tree ∈ before ++ after, tree.field? ≠ some name

/-- Whether a tree is a clause of a kind on a field. -/
def isOn (name : String) (kind : Operator → Bool) : Tree → Bool
  | clause c => c.field == some name && kind c.op
  | _ => false

/-- Each field has at most one clause of a kind. -/
def AtMostOne (kind : Operator → Bool) (parts : List Tree) : Prop :=
  ∀ name, parts.countP (isOn name kind) ≤ 1

theorem field?_of_isOn {name : String} {kind : Operator → Bool} {tree : Tree}
    (h : isOn name kind tree = true) : tree.field? = some name := by
  cases tree with
  | clause c =>
      simp only [isOn, Bool.and_eq_true, beq_iff_eq] at h
      exact h.1
  | all parts tags => simp [isOn] at h
  | any parts tags => simp [isOn] at h
  | adjacent parts tags => simp [isOn] at h
  | negated tree tags => simp [isOn] at h
  | sorted tree keys tags => simp [isOn] at h

theorem countP_isOn_le (name : String) (kind : Operator → Bool) (trees : List Tree) :
    trees.countP (isOn name kind) ≤ kindCount kind trees := by
  induction trees with
  | nil => simp
  | cons tree rest ih =>
      have hcount : kindCount kind (tree :: rest)
          = kindCount kind rest + if (clauseOfKind? kind tree).isSome then 1 else 0 := by
        unfold kindCount
        cases h : clauseOfKind? kind tree <;> simp [h]
      have hfirst : isOn name kind tree = true → (clauseOfKind? kind tree).isSome = true := by
        intro hon
        cases tree <;> simp_all [isOn, clauseOfKind?]
      rw [List.countP_cons, hcount]
      by_cases hon : isOn name kind tree = true
      · rw [if_pos hon, if_pos (hfirst hon)]
        omega
      · rw [if_neg hon]
        omega

theorem countP_isOn_eq_zero {name : String} (kind : Operator → Bool) {trees : List Tree}
    (h : ∀ tree ∈ trees, tree.field? ≠ some name) : trees.countP (isOn name kind) = 0 :=
  List.countP_eq_zero.mpr fun tree htree hon => h tree htree (field?_of_isOn hon)

/-- Only one group is on a field. -/
theorem Grouped.split {groups : List (List Tree)} (h : Grouped groups) (name : String) :
    (∀ tree ∈ groups.flatten, tree.field? ≠ some name) ∨
      ∃ before group after, groups = before ++ group :: after ∧
        (∀ tree ∈ group, tree.field? = some name) ∧
        ∀ tree ∈ before.flatten ++ after.flatten, tree.field? ≠ some name := by
  by_cases hon : ∃ group ∈ groups, groupField? group = some name
  · obtain ⟨group, hmem, hgroup⟩ := hon
    obtain ⟨before, after, rfl⟩ := List.append_of_mem hmem
    have hpair := List.pairwise_append.mp h.distinct
    have hcons := List.pairwise_cons.mp hpair.2.1
    refine Or.inr ⟨before, group, after, rfl, fun tree htree => ?_, fun tree htree => ?_⟩
    · rw [groupField?_of_mem (h.isGroup group hmem) htree, hgroup]
    · rcases List.mem_append.mp htree with htree | htree
      · obtain ⟨other, hother, hin⟩ := List.mem_flatten.mp htree
        rw [groupField?_of_mem (h.isGroup other (List.mem_append_left _ hother)) hin]
        exact fun hsame => hpair.2.2 other hother group List.mem_cons_self name hsame hgroup
      · obtain ⟨other, hother, hin⟩ := List.mem_flatten.mp htree
        have hlater := List.mem_append_right before (List.mem_cons_of_mem group hother)
        rw [groupField?_of_mem (h.isGroup other hlater) hin]
        exact hcons.1 other hother name hgroup
  · refine Or.inl fun tree htree hname => hon ?_
    obtain ⟨group, hgroup, hin⟩ := List.mem_flatten.mp htree
    exact ⟨group, hgroup, by rw [← groupField?_of_mem (h.isGroup group hgroup) hin, hname]⟩

theorem Grouped.together {groups : List (List Tree)} (h : Grouped groups) :
    Together groups.flatten := by
  intro name
  rcases h.split name with hnone | ⟨before, group, after, rfl, hrun, hothers⟩
  · exact ⟨groups.flatten, [], [], by simp, by simp, by simpa using hnone⟩
  · exact ⟨before.flatten, group, after.flatten, by simp, hrun, hothers⟩

theorem Grouped.atMostOne {groups : List (List Tree)} (h : Grouped groups)
    {kind : Operator → Bool} (hfew : ∀ group ∈ groups, kindCount kind group < 2) :
    AtMostOne kind groups.flatten := by
  intro name
  rcases h.split name with hnone | ⟨before, group, after, rfl, -, hothers⟩
  · rw [countP_isOn_eq_zero kind hnone]
    exact Nat.zero_le 1
  · have hgroup := hfew group (by simp)
    have hle := countP_isOn_le name kind group
    have hzero := countP_isOn_eq_zero kind hothers
    simp only [List.countP_append] at hzero
    simp only [List.flatten_append, List.flatten_cons, List.countP_append]
    omega

theorem together_regroup (parts : List Tree) : Together (regroup parts) := by
  rw [regroup_eq]
  exact (grouped_map_mergeAlternatives (grouped_groupByField parts)).together

theorem atMostOne_regroup (parts : List Tree) :
    AtMostOne isPositive (regroup parts) ∧ AtMostOne isNegative (regroup parts) := by
  have hgrouped := grouped_map_mergeAlternatives (grouped_groupByField parts)
  have hmerged : ∀ group ∈ (groupByField parts).map mergeAlternatives,
      ∃ old, mergeAlternatives old = group := fun group hgroup => by
    obtain ⟨old, -, rfl⟩ := List.mem_map.mp hgroup
    exact ⟨old, rfl⟩
  rw [regroup_eq]
  constructor
  · refine hgrouped.atMostOne fun group hgroup => ?_
    obtain ⟨old, rfl⟩ := hmerged group hgroup
    exact (mergeAlternatives_few old).1
  · refine hgrouped.atMostOne fun group hgroup => ?_
    obtain ⟨old, rfl⟩ := hmerged group hgroup
    exact (mergeAlternatives_few old).2

/-! ### Trees that are equal are grouped alike -/

/-- The field and the operator of a clause. -/
def shape : Tree → Option (Option String × Operator)
  | clause c => some (c.field, c.op)
  | _ => none

theorem shape_eq_of_same {a b : Tree} (h : same a b = true) : shape a = shape b := by
  cases a <;> cases b <;> simp_all [same, shape, Clause.same]

theorem map_shape_eq_of_sameAll : ∀ {as bs : List Tree}, sameAll as bs = true →
    as.map shape = bs.map shape
  | [], [], _ => rfl
  | [], _ :: _, h => by simp [sameAll] at h
  | _ :: _, [], h => by simp [sameAll] at h
  | a :: as, b :: bs, h => by
      simp only [sameAll, Bool.and_eq_true] at h
      rw [List.map_cons, List.map_cons, shape_eq_of_same h.1, map_shape_eq_of_sameAll h.2]

theorem field?_eq_shape (tree : Tree) : tree.field? = (shape tree).bind Prod.fst := by
  cases tree <;> rfl

theorem isOn_eq_shape (name : String) (kind : Operator → Bool) (tree : Tree) :
    isOn name kind tree = (shape tree).any fun s => s.1 == some name && kind s.2 := by
  cases tree <;> rfl

theorem Together.of_sameAll {as bs : List Tree} (hsame : sameAll as bs = true)
    (h : Together as) : Together bs := by
  intro name
  obtain ⟨before, run, after, rfl, hrun, hothers⟩ := h name
  have hmap := (map_shape_eq_of_sameAll hsame).symm
  rw [List.map_append, List.map_append] at hmap
  obtain ⟨front, after', rfl, hfront, hafter⟩ := List.map_eq_append_iff.mp hmap
  obtain ⟨before', run', rfl, hbefore, hrun'⟩ := List.map_eq_append_iff.mp hfront
  have hfields : ∀ {xs ys : List Tree}, xs.map shape = ys.map shape →
      ∀ {P : Option String → Prop}, (∀ tree ∈ ys, P tree.field?) → ∀ tree ∈ xs, P tree.field? := by
    intro xs ys hxy P hys tree htree
    have hmem : shape tree ∈ ys.map shape := hxy ▸ List.mem_map_of_mem htree
    obtain ⟨other, hother, heq⟩ := List.mem_map.mp hmem
    rw [field?_eq_shape, ← heq, ← field?_eq_shape]
    exact hys other hother
  refine ⟨before', run', after', rfl, ?_, ?_⟩
  · exact hfields hrun' (P := fun field => field = some name) hrun
  · have hboth : (before' ++ after').map shape = (before ++ after).map shape := by
      rw [List.map_append, List.map_append, hbefore, hafter]
    exact hfields hboth (P := fun field => field ≠ some name) hothers

theorem AtMostOne.of_sameAll {kind : Operator → Bool} {as bs : List Tree}
    (hsame : sameAll as bs = true) (h : AtMostOne kind as) : AtMostOne kind bs := by
  intro name
  have hcount : ∀ trees : List Tree, trees.countP (isOn name kind)
      = (trees.map shape).countP fun s => s.any fun s => s.1 == some name && kind s.2 := by
    intro trees
    rw [List.countP_map]
    exact congrArg (List.countP · trees) (funext fun tree => isOn_eq_shape name kind tree)
  rw [hcount, ← map_shape_eq_of_sameAll hsame, ← hcount]
  exact h name

/-! ### Grouping keeps trees comparable -/

theorem nanFree_foldl_addValue (more : List Value) : ∀ values : List Value,
    (∀ v ∈ values, v.isNaNFree = true) → (∀ v ∈ more, v.isNaNFree = true) →
      ∀ v ∈ more.foldl addValue values, v.isNaNFree = true := by
  induction more with
  | nil => intro values hvalues _; exact hvalues
  | cons first rest ih =>
      intro values hvalues hmore
      refine ih _ (fun v hv => ?_) fun v hv => hmore v (List.mem_cons_of_mem _ hv)
      unfold addValue at hv
      split at hv
      · exact hvalues v hv
      · rcases List.mem_append.mp hv with hv | hv
        · exact hvalues v hv
        · rw [List.mem_singleton.mp hv]
          exact hmore first List.mem_cons_self

theorem nanFree_mergeKind {kind : Operator → Bool} {op : Operator} {group : List Tree}
    (h : ∀ tree ∈ group, tree.isNaNFree = true) :
    ∀ tree ∈ mergeKind kind op group, tree.isNaNFree = true := by
  by_cases hfew : kindCount kind group < 2
  · rw [mergeKind_of_few hfew]
    exact h
  rw [mergeKind_of_many hfew]
  have hvalues : ∀ v ∈ mergedValues kind group, v.isNaNFree = true := by
    refine nanFree_foldl_addValue _ [] (by simp) fun v hv => ?_
    obtain ⟨c, hc, hv⟩ := List.mem_flatMap.mp hv
    obtain ⟨tree, htree, hkind⟩ := List.mem_filterMap.mp hc
    have hclause := h tree htree
    rw [(clauseOfKind?_eq_some.mp hkind).1] at hclause
    simp only [isNaNFree, Clause.isNaNFree, Bool.and_eq_true] at hclause
    exact Value.areNaNFree_iff.mp (Value.scalars_nanFree hclause.1) v hv
  intro tree htree
  rcases mem_mergeAtFirst htree with hmem | ⟨c, hc, rfl⟩
  · exact h tree hmem
  · have hclause := h _ hc
    simp only [isNaNFree, Clause.isNaNFree, Bool.and_eq_true] at hclause ⊢
    exact ⟨Value.areNaNFree_iff.mpr hvalues, hclause.2⟩

theorem nanFree_regroup {parts : List Tree} (h : ∀ tree ∈ parts, tree.isNaNFree = true) :
    ∀ tree ∈ regroup parts, tree.isNaNFree = true := by
  intro tree htree
  obtain ⟨group, hgroup, hin⟩ := List.mem_flatMap.mp htree
  refine nanFree_mergeKind (nanFree_mergeKind fun t ht => h t ?_) tree hin
  exact mem_flatten_groupByField.mp (List.mem_flatten.mpr ⟨group, hgroup, ht⟩)

end DocIndex.Query.Tree
