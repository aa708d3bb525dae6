/-
Simplifying ends, and ends in a normal form.

The rules are repeated at a node until none of them applies, with no bound on how often, and
`Settles` is that loop.  It ends because the parts of the node are settled already: resolving
adjacency, cancelling a negation and unwrapping a part lead to a settled tree or to a
composite, and grouping and scoping are each done after one application and do not undo one
another.  So one round leaves a node to which no rule applies (`settled_round`), and a second
one finds that out; the three rounds that `simplify` allows are more than enough.

All properties of the normal form are read off from the rules that no longer apply.  This
works for the grouping rule because it compares what it would make with what is there, and
trees that compare as equal have their clauses on the same fields in the same places.
-/
import DocIndex.Proofs.Query.Grouping
import DocIndex.Proofs.Table

namespace DocIndex.Query

namespace Tree

/-! ### Nodes to which no rule applies -/

/-- The trees right below the root. -/
def parts : Tree → List Tree
  | clause _ => []
  | all parts _ | any parts _ | adjacent parts _ => parts
  | negated tree _ => [tree]
  | sorted tree _ _ => [tree]

/-- The nodes of a tree, each as the tree below it. -/
inductive Within : Tree → Tree → Prop
  | root (tree : Tree) : Within tree tree
  | part {node part tree : Tree} (hpart : part ∈ tree.parts) (h : Within node part) :
      Within node tree

/-- All nodes of a tree have a property. -/
def Everywhere (p : Tree → Prop) (tree : Tree) : Prop := ∀ node, Within node tree → p node

/-- All nodes below the root of a tree have a property. -/
def Below (p : Tree → Prop) (tree : Tree) : Prop := ∀ part ∈ tree.parts, Everywhere p part

/-- No rule applies to a node. -/
def Done (conventions : Conventions) (node : Tree) : Prop :=
  ∀ rule ∈ rules conventions, rule node = none

/-- No rule applies anywhere in a tree. -/
def Settled (conventions : Conventions) (tree : Tree) : Prop :=
  ∀ node, Within node tree → Done conventions node

/-- The rules at a node, repeated until a round of them changes nothing. -/
inductive Settles (rules : List (Tree → Option Tree)) : Tree → Tree → Prop
  | done {tree next : Tree} (h : round rules tree = (next, false)) : Settles rules tree next
  | again {tree next last : Tree} (h : round rules tree = (next, true))
      (hrest : Settles rules next last) : Settles rules tree last

/--
What a tree is simplified to when the rules are repeated at every node without a bound, from
the leaves upwards.
-/
inductive Simplifies (conventions : Conventions) : Tree → Tree → Prop
  | clause {c : Clause} {last : Tree} (h : Settles (rules conventions) (clause c) last) :
      Simplifies conventions (clause c) last
  | all {parts done : List Tree} {tags : Tags} {last : Tree}
      (hparts : List.Forall₂ (Simplifies conventions) parts done)
      (h : Settles (rules conventions) (all done tags) last) :
      Simplifies conventions (all parts tags) last
  | any {parts done : List Tree} {tags : Tags} {last : Tree}
      (hparts : List.Forall₂ (Simplifies conventions) parts done)
      (h : Settles (rules conventions) (any done tags) last) :
      Simplifies conventions (any parts tags) last
  | adjacent {parts done : List Tree} {tags : Tags} {last : Tree}
      (hparts : List.Forall₂ (Simplifies conventions) parts done)
      (h : Settles (rules conventions) (adjacent done tags) last) :
      Simplifies conventions (adjacent parts tags) last
  | negated {tree done : Tree} {tags : Tags} {last : Tree}
      (htree : Simplifies conventions tree done)
      (h : Settles (rules conventions) (negated done tags) last) :
      Simplifies conventions (negated tree tags) last
  | sorted {tree done : Tree} {keys : List SortKey} {tags : Tags}
      (htree : Simplifies conventions tree done) :
      Simplifies conventions (sorted tree keys tags) (sorted done keys tags)

variable {conventions : Conventions}

theorem everywhere_iff {p : Tree → Prop} {tree : Tree} :
    Everywhere p tree ↔ p tree ∧ Below p tree := by
  constructor
  · intro h
    exact ⟨h tree (.root tree), fun part hpart node hnode => h node (.part hpart hnode)⟩
  · rintro ⟨hroot, hparts⟩ node hnode
    cases hnode with
    | root => exact hroot
    | part hpart hin => exact hparts _ hpart node hin

theorem done_iff {node : Tree} : Done conventions node ↔
    resolveAdjacency conventions.adjacency node = none ∧ cancelNegations node = none ∧
      groupFields node = none ∧ unwrapSingle node = none ∧
      scopeContentTypes conventions.contentTypeField node = none := by
  simp [Done, rules]

theorem settled_iff {tree : Tree} : Settled conventions tree ↔
    Done conventions tree ∧ ∀ part ∈ tree.parts, Settled conventions part :=
  everywhere_iff

theorem settled_clause (c : Clause) : Settled conventions (clause c) :=
  settled_iff.mpr ⟨done_iff.mpr ⟨rfl, rfl, rfl, rfl, rfl⟩, by simp [parts]⟩

/-! ### One round -/

/-- The tree after a rule, which is the same if the rule does not apply. -/
def after (rule : Tree → Option Tree) (tree : Tree) : Tree := (rule tree).getD tree

theorem after_of_none {rule : Tree → Option Tree} {tree : Tree} (h : rule tree = none) :
    after rule tree = tree := by
  rw [after, h]
  rfl

/-- The tree after one more rule was tried in a round, and whether any of them applied. -/
def tryRule (state : Tree × Bool) (rule : Tree → Option Tree) : Tree × Bool :=
  match rule state.1 with
  | some next => (next, true)
  | none => state

theorem round_eq (rules : List (Tree → Option Tree)) (tree : Tree) :
    round rules tree = rules.foldl tryRule (tree, false) := rfl

theorem round_fst (rules : List (Tree → Option Tree)) (tree : Tree) :
    (round rules tree).1 = rules.foldl (fun tree rule => after rule tree) tree := by
  suffices h : ∀ (rules : List (Tree → Option Tree)) (state : Tree × Bool),
      (rules.foldl tryRule state).1 = rules.foldl (fun tree rule => after rule tree) state.1 by
    rw [round_eq, h]
  intro rules
  induction rules with
  | nil => intro state; rfl
  | cons rule rest ih =>
      intro state
      rw [List.foldl_cons, List.foldl_cons, ih]
      cases h : rule state.1 <;> simp [tryRule, after, h]

theorem round_of_done {tree : Tree} (h : Done conventions tree) :
    round (rules conventions) tree = (tree, false) := by
  obtain ⟨h₁, h₂, h₃, h₄, h₅⟩ := done_iff.mp h
  simp [round, rules, h₁, h₂, h₃, h₄, h₅]

/-- The tree that a round leaves. -/
def afterRound (conventions : Conventions) (tree : Tree) : Tree :=
  after (scopeContentTypes conventions.contentTypeField) (after unwrapSingle (after groupFields
    (after cancelNegations (after (resolveAdjacency conventions.adjacency) tree))))

theorem round_rules (tree : Tree) :
    (round (rules conventions) tree).1 = afterRound conventions tree := by
  rw [round_fst]
  rfl

/-- If no rule applies after a round, the loop ends there, and so does the bounded one. -/
theorem settles_of_done {tree : Tree} (h : Done conventions (afterRound conventions tree)) :
    Settles (rules conventions) tree (afterRound conventions tree) ∧
      settle (rules conventions) maxRounds tree = afterRound conventions tree := by
  have hsecond := round_of_done h
  obtain ⟨next, changed, hfirst⟩ :
      ∃ next changed, round (rules conventions) tree = (next, changed) :=
    ⟨_, _, rfl⟩
  have hnext : next = afterRound conventions tree := by rw [← round_rules, hfirst]
  subst hnext
  cases changed with
  | false => exact ⟨.done hfirst, by simp [settle, maxRounds, hfirst]⟩
  | true => exact ⟨.again hfirst (.done hsecond), by simp [settle, maxRounds, hfirst, hsecond]⟩

/-! ### A round at a node with settled parts -/

/-- A tree to which nothing is left to be done, with no NaN in it. -/
structure Simplified (conventions : Conventions) (tree : Tree) : Prop where
  settled : Settled conventions tree
  nanFree : tree.isNaNFree = true

theorem Settled.done {tree : Tree} (h : Settled conventions tree) : Done conventions tree :=
  (settled_iff.mp h).1

theorem Settled.parts {tree : Tree} (h : Settled conventions tree) :
    ∀ part ∈ tree.parts, Settled conventions part :=
  (settled_iff.mp h).2

/-- Grouping below a conjunction is done after one application. -/
theorem group_all {parts : List Tree} (tags : Tags)
    (hnan : ∀ tree ∈ parts, tree.isNaNFree = true) :
    ∃ grouped, after groupFields (all parts tags) = all grouped tags ∧
      (∀ tags, groupFields (all grouped tags) = none) ∧ ∀ tree ∈ grouped, tree ∈ parts := by
  by_cases hsame : sameAll (groupByField parts).flatten parts = true
  · refine ⟨parts, after_of_none ?_, fun tags => ?_, fun tree htree => htree⟩
    · simp [groupFields, hsame]
    · simp [groupFields, hsame]
  · have hagain := groupByField_flatten (grouped_groupByField parts)
    have hself : sameAll (groupByField parts).flatten (groupByField parts).flatten = true :=
      sameAll_self (areNaNFree_iff.mpr fun tree htree =>
        hnan tree (mem_flatten_groupByField.mp htree))
    refine ⟨(groupByField parts).flatten, ?_, fun tags => ?_,
      fun tree htree => mem_flatten_groupByField.mp htree⟩
    · simp [after, groupFields, hsame]
    · simp [groupFields, hagain, hself]

theorem groupFields_any (parts : List Tree) (tags : Tags) : groupFields (any parts tags)
    = if sameAll (regroup parts) parts then none else some (any (regroup parts) tags) := rfl

/-- Grouping below a disjunction is done after one application. -/
theorem group_any {parts : List Tree} (tags : Tags)
    (hnan : ∀ tree ∈ parts, tree.isNaNFree = true) :
    ∃ grouped, after groupFields (any parts tags) = any grouped tags ∧
      groupFields (any grouped tags) = none ∧ (∀ tree ∈ grouped, tree.isNaNFree = true) ∧
      ∀ tree ∈ grouped, tree ∈ parts ∨ ∃ c, tree = clause c := by
  by_cases hsame : sameAll (regroup parts) parts = true
  · have hnone : groupFields (any parts tags) = none := by rw [groupFields_any, if_pos hsame]
    exact ⟨parts, after_of_none hnone, hnone, hnan, fun tree htree => Or.inl htree⟩
  · have hfree := nanFree_regroup hnan
    have hself : sameAll (regroup (regroup parts)) (regroup parts) = true := by
      rw [regroup_idem]
      exact sameAll_self (areNaNFree_iff.mpr hfree)
    refine ⟨regroup parts, ?_, ?_, hfree, fun tree htree => mem_regroup htree⟩
    · rw [after, groupFields_any, if_neg hsame]
      rfl
    · rw [groupFields_any, if_pos hself]

theorem nanFree_setContentTypes {tags : Tags} (h : Json.membersNaNFree tags = true)
    (names : List String) : Json.membersNaNFree (tags.setContentTypes names) = true := by
  have hnames : Json.areNaNFree (names.map Json.text) = true := by
    induction names with
    | nil => rfl
    | cons name rest ih => simpa [Json.areNaNFree, Json.isNaNFree] using ih
  refine Json.membersNaNFree_iff.mpr fun entry hentry => ?_
  rcases Table.mem_insert hentry with rfl | hold
  · exact hnames
  · exact Json.membersNaNFree_iff.mp h entry hold

theorem contentTypes?_setContentTypes (tags : Tags) (names : List String) :
    (tags.setContentTypes names).contentTypes? = some names := by
  have hnames : (names.map Json.text).filterMap Json.text? = names := by
    rw [List.filterMap_map]
    exact List.filterMap_some
  rw [Tags.contentTypes?, Tags.setContentTypes, Table.find?_insert_self]
  exact congrArg some hnames

/-- The content types that the parts of a conjunction ask for, each once. -/
def askedContentTypes (field : String) (parts : List Tree) : List String :=
  (parts.flatMap (contentTypesOf field)).foldl
    (fun found name => if found.contains name then found else found ++ [name]) []

theorem scopeContentTypes_all (field : String) (parts : List Tree) (tags : Tags) :
    scopeContentTypes field (all parts tags) =
      if (askedContentTypes field parts).isEmpty ||
          tags.contentTypes? == some (askedContentTypes field parts) then none
      else some (all parts (tags.setContentTypes (askedContentTypes field parts))) := rfl

/-- Scoping a conjunction is done after one application. -/
theorem scope_all (field : String) (parts : List Tree) {tags : Tags}
    (hnan : Json.membersNaNFree tags = true) :
    ∃ tags', after (scopeContentTypes field) (all parts tags) = all parts tags' ∧
      scopeContentTypes field (all parts tags') = none ∧ Json.membersNaNFree tags' = true := by
  by_cases hnone : scopeContentTypes field (all parts tags) = none
  · exact ⟨tags, after_of_none hnone, hnone, hnan⟩
  · rw [scopeContentTypes_all] at hnone
    have happlies := fun h => hnone (if_pos h)
    refine ⟨tags.setContentTypes (askedContentTypes field parts), ?_, ?_,
      nanFree_setContentTypes hnan _⟩
    · rw [after, scopeContentTypes_all, if_neg happlies]
      rfl
    · simp [scopeContentTypes_all, contentTypes?_setContentTypes]

theorem unwrapSingle_eq_none_or (parts : List Tree) (tags : Tags) :
    (∃ only, parts = [only]) ∨
      unwrapSingle (all parts tags) = none ∧ unwrapSingle (any parts tags) = none := by
  match parts with
  | [] => exact Or.inr ⟨rfl, rfl⟩
  | [only] => exact Or.inl ⟨only, rfl⟩
  | _ :: _ :: _ => exact Or.inr ⟨rfl, rfl⟩

theorem simplified_of_mem {parts : List Tree} (hnan : areNaNFree parts = true)
    (hparts : ∀ part ∈ parts, Settled conventions part) :
    ∀ part ∈ parts, Simplified conventions part :=
  fun part hpart => ⟨hparts part hpart, areNaNFree_iff.mp hnan part hpart⟩

theorem Simplified.unchanged {tree : Tree} (h : Simplified conventions tree)
    (rule : Tree → Option Tree) (hrule : rule ∈ rules conventions) : after rule tree = tree :=
  after_of_none (h.settled.done rule hrule)

/-- Grouping, unwrapping and scoping leave nothing to do at a conjunction. -/
theorem simplified_all {parts : List Tree} {tags : Tags}
    (hparts : ∀ part ∈ parts, Simplified conventions part)
    (htags : Json.membersNaNFree tags = true) :
    Simplified conventions (after (scopeContentTypes conventions.contentTypeField)
      (after unwrapSingle (after groupFields (all parts tags)))) := by
  obtain ⟨grouped, hgroup, hdone, hmem⟩ := group_all tags fun t ht => (hparts t ht).nanFree
  have hgrouped : ∀ part ∈ grouped, Simplified conventions part := fun t ht => hparts t (hmem t ht)
  rw [hgroup]
  rcases unwrapSingle_eq_none_or grouped tags with ⟨only, rfl⟩ | ⟨hunwrap, -⟩
  · have honly := hgrouped only List.mem_cons_self
    have hafter : after unwrapSingle (all [only] tags) = only := rfl
    rw [hafter, honly.unchanged _ (by simp [rules])]
    exact honly
  · obtain ⟨tags', hscope, hscoped, hnan⟩ :=
      scope_all conventions.contentTypeField grouped htags
    rw [after_of_none hunwrap, hscope]
    have hunwrap' : unwrapSingle (all grouped tags') = none := by
      rcases unwrapSingle_eq_none_or grouped tags' with ⟨only, rfl⟩ | ⟨h, -⟩
      · simp [unwrapSingle] at hunwrap
      · exact h
    refine ⟨settled_iff.mpr ⟨done_iff.mpr ⟨rfl, rfl, hdone tags', hunwrap', hscoped⟩, ?_⟩, ?_⟩
    · exact fun part hpart => (hgrouped part hpart).settled
    · simp only [isNaNFree, hnan, Bool.and_true]
      exact areNaNFree_iff.mpr fun t ht => (hgrouped t ht).nanFree

/-- Grouping and unwrapping leave nothing to do at a disjunction. -/
theorem simplified_any {parts : List Tree} {tags : Tags}
    (hparts : ∀ part ∈ parts, Simplified conventions part)
    (htags : Json.membersNaNFree tags = true) :
    Simplified conventions (after (scopeContentTypes conventions.contentTypeField)
      (after unwrapSingle (after groupFields (any parts tags)))) := by
  obtain ⟨grouped, hgroup, hdone, hnan, hmem⟩ :=
    group_any tags fun t ht => (hparts t ht).nanFree
  have hgrouped : ∀ part ∈ grouped, Simplified conventions part := by
    intro part hpart
    rcases hmem part hpart with hold | ⟨c, rfl⟩
    · exact hparts part hold
    · exact ⟨settled_clause c, hnan _ hpart⟩
  rw [hgroup]
  rcases unwrapSingle_eq_none_or grouped tags with ⟨only, rfl⟩ | ⟨-, hunwrap⟩
  · have honly := hgrouped only List.mem_cons_self
    have hafter : after unwrapSingle (any [only] tags) = only := rfl
    rw [hafter, honly.unchanged _ (by simp [rules])]
    exact honly
  · have hscope : scopeContentTypes conventions.contentTypeField (any grouped tags) = none := rfl
    rw [after_of_none hunwrap, after_of_none hscope]
    refine ⟨settled_iff.mpr ⟨done_iff.mpr ⟨rfl, rfl, hdone, hunwrap, rfl⟩, ?_⟩, ?_⟩
    · exact fun part hpart => (hgrouped part hpart).settled
    · simp only [isNaNFree, htags, Bool.and_true]
      exact areNaNFree_iff.mpr hnan

/-- A tree with simplified parts is simplified by one round. -/
theorem simplified_afterRound {tree : Tree} (hnan : tree.isNaNFree = true)
    (hparts : ∀ part ∈ tree.parts, Settled conventions part) :
    Simplified conventions (afterRound conventions tree) := by
  cases tree with
  | clause c => exact ⟨settled_clause c, hnan⟩
  | all parts tags =>
      simp only [isNaNFree, Bool.and_eq_true] at hnan
      exact simplified_all (simplified_of_mem hnan.1 hparts) hnan.2
  | any parts tags =>
      simp only [isNaNFree, Bool.and_eq_true] at hnan
      exact simplified_any (simplified_of_mem hnan.1 hparts) hnan.2
  | adjacent parts tags =>
      simp only [isNaNFree, Bool.and_eq_true] at hnan
      have hall := simplified_of_mem hnan.1 hparts
      obtain ⟨connective, field⟩ := conventions
      cases connective with
      | and => exact simplified_all hall hnan.2
      | or => exact simplified_any hall hnan.2
  | negated tree tags =>
      by_cases hdouble : ∃ inner innerTags, tree = negated inner innerTags
      · obtain ⟨inner, innerTags, rfl⟩ := hdouble
        have hinner : Simplified conventions inner := by
          simp only [isNaNFree, Bool.and_eq_true] at hnan
          exact ⟨(hparts _ List.mem_cons_self).parts inner List.mem_cons_self, hnan.1.1⟩
        have hround : afterRound conventions (negated (negated inner innerTags) tags)
            = after (scopeContentTypes conventions.contentTypeField)
                (after unwrapSingle (after groupFields inner)) := rfl
        rw [hround, hinner.unchanged groupFields (by simp [rules]),
          hinner.unchanged unwrapSingle (by simp [rules]), hinner.unchanged _ (by simp [rules])]
        exact hinner
      · have hcancel : cancelNegations (negated tree tags) = none := by
          unfold cancelNegations
          split
          · rename_i heq
            exact absurd ⟨_, _, (negated.inj heq).1⟩ hdouble
          · rfl
        have hdone : Done conventions (negated tree tags) :=
          done_iff.mpr ⟨rfl, hcancel, rfl, rfl, rfl⟩
        have hround : afterRound conventions (negated tree tags) = negated tree tags := by
          rw [← round_rules, round_of_done hdone]
        rw [hround]
        exact ⟨settled_iff.mpr ⟨hdone, hparts⟩, hnan⟩
  | sorted tree keys tags =>
      exact ⟨settled_iff.mpr ⟨done_iff.mpr ⟨rfl, rfl, rfl, rfl, rfl⟩, hparts⟩, hnan⟩

/-! ### What rounds give to every node -/

theorem everywhere_clause {p : Tree → Prop} {c : Clause} (h : p (clause c)) :
    Everywhere p (clause c) :=
  everywhere_iff.mpr ⟨h, fun _ hpart => absurd hpart List.not_mem_nil⟩

/-- A rule leaves a conjunction or a disjunction, or a node of the tree that it was tried at. -/
theorem after_root {rule : Tree → Option Tree} (hrule : rule ∈ rules conventions) (tree : Tree) :
    (∃ parts tags, after rule tree = all parts tags ∨ after rule tree = any parts tags) ∨
      Within (after rule tree) tree := by
  cases happlies : rule tree with
  | none =>
      rw [after_of_none happlies]
      exact .inr (.root tree)
  | some next =>
      rw [after, happlies, Option.getD_some]
      simp only [rules, List.mem_cons, List.not_mem_nil, or_false] at hrule
      rcases hrule with rfl | rfl | rfl | rfl | rfl
      · unfold resolveAdjacency at happlies
        split at happlies
        · split at happlies <;> obtain rfl := Option.some.inj happlies
          · exact .inl ⟨_, _, .inl rfl⟩
          · exact .inl ⟨_, _, .inr rfl⟩
        · cases happlies
      · unfold cancelNegations at happlies
        split at happlies
        · obtain rfl := Option.some.inj happlies
          exact .inr (.part List.mem_cons_self (.part List.mem_cons_self (.root _)))
        · cases happlies
      · unfold groupFields at happlies
        split at happlies
        · obtain ⟨-, heq⟩ := Option.ite_none_left_eq_some.mp happlies
          exact .inl ⟨_, _, .inl (Option.some.inj heq).symm⟩
        · obtain ⟨-, heq⟩ := Option.ite_none_left_eq_some.mp happlies
          exact .inl ⟨_, _, .inr (Option.some.inj heq).symm⟩
        · cases happlies
      · unfold unwrapSingle at happlies
        split at happlies
        case h_4 => cases happlies
        all_goals
          obtain rfl := Option.some.inj happlies
          exact .inr (.part List.mem_cons_self (.root _))
      · unfold scopeContentTypes at happlies
        split at happlies
        · obtain ⟨-, heq⟩ := Option.ite_none_left_eq_some.mp happlies
          exact .inl ⟨_, _, .inl (Option.some.inj heq).symm⟩
        · cases happlies

/-- A rule makes new clauses at most; all other nodes that it leaves below the root were there. -/
theorem below_after {p : Tree → Prop}
    (hmerged : ∀ {parts : List Tree}, (∀ part ∈ parts, Everywhere p part) →
      ∀ {c : Clause}, clause c ∈ regroup parts → p (clause c))
    {rule : Tree → Option Tree} (hrule : rule ∈ rules conventions) {tree : Tree}
    (h : Below p tree) : Below p (after rule tree) := by
  cases happlies : rule tree with
  | none => rwa [after_of_none happlies]
  | some next =>
      rw [after, happlies, Option.getD_some]
      simp only [rules, List.mem_cons, List.not_mem_nil, or_false] at hrule
      rcases hrule with rfl | rfl | rfl | rfl | rfl
      · unfold resolveAdjacency at happlies
        split at happlies
        · split at happlies <;>
          · obtain rfl := Option.some.inj happlies
            exact h
        · cases happlies
      · unfold cancelNegations at happlies
        split at happlies
        · obtain rfl := Option.some.inj happlies
          have hinner := (everywhere_iff.mp (h _ List.mem_cons_self)).2
          exact (everywhere_iff.mp (hinner _ List.mem_cons_self)).2
        · cases happlies
      · unfold groupFields at happlies
        split at happlies
        · obtain ⟨-, heq⟩ := Option.ite_none_left_eq_some.mp happlies
          obtain rfl := Option.some.inj heq
          exact fun part hpart => h part (mem_flatten_groupByField.mp hpart)
        · obtain ⟨-, heq⟩ := Option.ite_none_left_eq_some.mp happlies
          obtain rfl := Option.some.inj heq
          intro part hpart
          rcases mem_regroup hpart with hold | ⟨c, rfl⟩
          · exact h part hold
          · exact everywhere_clause (hmerged h hpart)
        · cases happlies
      · unfold unwrapSingle at happlies
        split at happlies
        case h_4 => cases happlies
        all_goals
          obtain rfl := Option.some.inj happlies
          exact (everywhere_iff.mp (h _ List.mem_cons_self)).2
      · unfold scopeContentTypes at happlies
        split at happlies
        · obtain ⟨-, heq⟩ := Option.ite_none_left_eq_some.mp happlies
          obtain rfl := Option.some.inj heq
          exact h
        · cases happlies

/-- A round gives a property to all nodes of a tree if those below its root have it. -/
def GivenByRounds (conventions : Conventions) (p : Tree → Prop) : Prop :=
  ∀ node, (∀ c, node ≠ clause c) → Below p node → Everywhere p (afterRound conventions node)

theorem settle_clause (c : Clause) (fuel : Nat) :
    settle (rules conventions) fuel (clause c) = clause c := by
  cases fuel with
  | zero => rfl
  | succ fuel => simp [settle, round_of_done (settled_clause c).done]

namespace GivenByRounds

variable {p : Tree → Prop}

theorem settle (h : GivenByRounds conventions p) {tree : Tree} (htree : Everywhere p tree)
    (fuel : Nat) : Everywhere p (settle (rules conventions) fuel tree) := by
  induction fuel generalizing tree with
  | zero => exact htree
  | succ fuel ih =>
      by_cases hclause : ∃ c, tree = clause c
      · obtain ⟨c, rfl⟩ := hclause
        rw [settle_clause]
        exact htree
      · have hround := h tree (fun c hc => hclause ⟨c, hc⟩) (everywhere_iff.mp htree).2
        rw [← round_rules] at hround
        simp only [Tree.settle]
        split
        · exact ih hround
        · exact hround

/-- At least one round is made. -/
theorem settle_of_below (h : GivenByRounds conventions p) {tree : Tree}
    (hnode : ∀ c, tree ≠ clause c) (hparts : Below p tree) :
    Everywhere p (Tree.settle (rules conventions) maxRounds tree) := by
  have hround := h tree hnode hparts
  rw [← round_rules] at hround
  simp only [maxRounds, Tree.settle]
  split
  · exact h.settle hround 2
  · exact hround

mutual

/-- What rounds give, all nodes of a simplified tree have, if the clauses had it before. -/
theorem simplify (h : GivenByRounds conventions p) : ∀ {tree : Tree},
    (∀ c, Within (clause c) tree → p (clause c)) → Everywhere p (Tree.simplify conventions tree)
  | clause c, hclauses => h.settle (everywhere_clause (hclauses c (.root _))) maxRounds
  | all _ _, hclauses =>
      h.settle_of_below nofun (simplifyAll h fun part hpart c hc => hclauses c (.part hpart hc))
  | any _ _, hclauses =>
      h.settle_of_below nofun (simplifyAll h fun part hpart c hc => hclauses c (.part hpart hc))
  | adjacent _ _, hclauses =>
      h.settle_of_below nofun (simplifyAll h fun part hpart c hc => hclauses c (.part hpart hc))
  | negated _ _, hclauses =>
      h.settle_of_below nofun (List.forall_mem_singleton.mpr
        (simplify h fun c hc => hclauses c (.part List.mem_cons_self hc)))
  | sorted inner keys tags, hclauses => by
      have hparts : Below p (sorted (Tree.simplify conventions inner) keys tags) :=
        List.forall_mem_singleton.mpr
          (simplify h fun c hc => hclauses c (.part List.mem_cons_self hc))
      exact h (sorted _ keys tags) nofun hparts

theorem simplifyAll (h : GivenByRounds conventions p) : ∀ {trees : List Tree},
    (∀ tree ∈ trees, ∀ c, Within (clause c) tree → p (clause c)) →
      ∀ tree ∈ Tree.simplifyAll conventions trees, Everywhere p tree
  | [], _ => fun _ htree => absurd htree List.not_mem_nil
  | tree :: rest, hclauses => by
      obtain ⟨hfirst, hrest⟩ := List.forall_mem_cons.mp hclauses
      exact List.forall_mem_cons.mpr ⟨simplify h hfirst, simplifyAll h hrest⟩

end

end GivenByRounds

/-! ### The whole tree -/

theorem settles_unique {rules : List (Tree → Option Tree)} {tree first second : Tree}
    (hfirst : Settles rules tree first) (hsecond : Settles rules tree second) :
    first = second := by
  induction hfirst with
  | done h =>
      cases hsecond with
      | done h' => exact (Prod.mk.inj (h.symm.trans h')).1
      | again h' _ => exact absurd (Prod.mk.inj (h.symm.trans h')).2 (by simp)
  | again h _ ih =>
      cases hsecond with
      | done h' => exact absurd (Prod.mk.inj (h.symm.trans h')).2 (by simp)
      | again h' hrest =>
          obtain rfl := (Prod.mk.inj (h.symm.trans h')).1
          exact ih hrest

/-- At a node with simplified parts the bounded loop does what the unbounded one does. -/
theorem settle_spec (conventions : Conventions) {node : Tree} (hnan : node.isNaNFree = true)
    (hparts : ∀ part ∈ node.parts, Settled conventions part) :
    Settles (rules conventions) node (settle (rules conventions) maxRounds node) ∧
      Simplified conventions (settle (rules conventions) maxRounds node) := by
  have hround := simplified_afterRound hnan hparts
  obtain ⟨hloop, heq⟩ := settles_of_done hround.settled.done
  rw [heq]
  exact ⟨hloop, hround⟩

theorem areNaNFree_of_simplified {trees : List Tree}
    (h : ∀ tree ∈ trees, Simplified conventions tree) : areNaNFree trees = true :=
  areNaNFree_iff.mpr fun tree htree => (h tree htree).nanFree

mutual

/-- Simplifying a tree without a NaN ends, with nothing left to be done. -/
theorem simplify_spec : ∀ {tree : Tree}, tree.isNaNFree = true →
    Simplifies conventions tree (simplify conventions tree) ∧
      Simplified conventions (simplify conventions tree)
  | clause c, h => by
      obtain ⟨hloop, hdone⟩ := settle_spec conventions h (by simp [parts])
      exact ⟨.clause hloop, hdone⟩
  | all trees tags, h => by
      simp only [isNaNFree, Bool.and_eq_true] at h
      obtain ⟨hparts, hall⟩ := simplifyAll_spec h.1
      have hnode : (all (simplifyAll conventions trees) tags).isNaNFree = true := by
        simp [isNaNFree, areNaNFree_of_simplified hall, h.2]
      obtain ⟨hloop, hdone⟩ :=
        settle_spec conventions hnode fun part hpart => (hall part hpart).settled
      exact ⟨.all hparts hloop, hdone⟩
  | any trees tags, h => by
      simp only [isNaNFree, Bool.and_eq_true] at h
      obtain ⟨hparts, hall⟩ := simplifyAll_spec h.1
      have hnode : (any (simplifyAll conventions trees) tags).isNaNFree = true := by
        simp [isNaNFree, areNaNFree_of_simplified hall, h.2]
      obtain ⟨hloop, hdone⟩ :=
        settle_spec conventions hnode fun part hpart => (hall part hpart).settled
      exact ⟨.any hparts hloop, hdone⟩
  | adjacent trees tags, h => by
      simp only [isNaNFree, Bool.and_eq_true] at h
      obtain ⟨hparts, hall⟩ := simplifyAll_spec h.1
      have hnode : (adjacent (simplifyAll conventions trees) tags).isNaNFree = true := by
        simp [isNaNFree, areNaNFree_of_simplified hall, h.2]
      obtain ⟨hloop, hdone⟩ :=
        settle_spec conventions hnode fun part hpart => (hall part hpart).settled
      exact ⟨.adjacent hparts hloop, hdone⟩
  | negated tree tags, h => by
      simp only [isNaNFree, Bool.and_eq_true] at h
      obtain ⟨htree, hinner⟩ := simplify_spec h.1
      have hnode : (negated (simplify conventions tree) tags).isNaNFree = true := by
        simp [isNaNFree, hinner.nanFree, h.2]
      obtain ⟨hloop, hdone⟩ := settle_spec conventions hnode fun part hpart => by
        rw [List.mem_singleton.mp hpart]
        exact hinner.settled
      exact ⟨.negated htree hloop, hdone⟩
  | sorted tree keys tags, h => by
      simp only [isNaNFree, Bool.and_eq_true] at h
      obtain ⟨htree, hinner⟩ := simplify_spec h.1
      have hdone : Done conventions (sorted (simplify conventions tree) keys tags) :=
        done_iff.mpr ⟨rfl, rfl, rfl, rfl, rfl⟩
      refine ⟨.sorted htree, settled_iff.mpr ⟨hdone, fun part hpart => ?_⟩, ?_⟩
      · rw [List.mem_singleton.mp hpart]
        exact hinner.settled
      · simp [simplify, isNaNFree, hinner.nanFree, h.2]

theorem simplifyAll_spec : ∀ {trees : List Tree}, areNaNFree trees = true →
    List.Forall₂ (Simplifies conventions) trees (simplifyAll conventions trees) ∧
      ∀ tree ∈ simplifyAll conventions trees, Simplified conventions tree
  | [], _ => ⟨.nil, by simp [simplifyAll]⟩
  | tree :: rest, h => by
      simp only [areNaNFree, Bool.and_eq_true] at h
      obtain ⟨hfirst, hsimple⟩ := simplify_spec h.1
      obtain ⟨hrest, hall⟩ := simplifyAll_spec h.2
      refine ⟨.cons hfirst hrest, fun t ht => ?_⟩
      rcases List.mem_cons.mp ht with rfl | ht
      · exact hsimple
      · exact hall t ht

end

theorem settle_of_done {node : Tree} (h : Done conventions node) :
    settle (rules conventions) maxRounds node = node := by
  simp [settle, maxRounds, round_of_done h]

mutual

/-- Where there is nothing to do, simplifying does nothing. -/
theorem simplify_of_settled : ∀ {tree : Tree}, Settled conventions tree →
    simplify conventions tree = tree
  | clause _, h => settle_of_done h.done
  | all trees tags, h => by
      rw [simplify, simplifyAll_of_settled trees h.parts, settle_of_done h.done]
  | any trees tags, h => by
      rw [simplify, simplifyAll_of_settled trees h.parts, settle_of_done h.done]
  | adjacent trees tags, h => by
      rw [simplify, simplifyAll_of_settled trees h.parts, settle_of_done h.done]
  | negated tree tags, h => by
      rw [simplify, simplify_of_settled (h.parts tree List.mem_cons_self), settle_of_done h.done]
  | sorted tree keys tags, h => by
      rw [simplify, simplify_of_settled (h.parts tree List.mem_cons_self)]

theorem simplifyAll_of_settled : ∀ trees : List Tree,
    (∀ tree ∈ trees, Settled conventions tree) → simplifyAll conventions trees = trees
  | [], _ => rfl
  | tree :: rest, h => by
      rw [simplifyAll, simplify_of_settled (h tree List.mem_cons_self),
        simplifyAll_of_settled rest fun t ht => h t (List.mem_cons_of_mem _ ht)]

end

mutual

/-- The loops leave no choice. -/
theorem simplifies_unique : ∀ {tree first second : Tree}, Simplifies conventions tree first →
    Simplifies conventions tree second → first = second
  | clause _, _, _, .clause h, .clause h' => settles_unique h h'
  | all _ _, _, _, .all hparts h, .all hparts' h' => by
      obtain rfl := simplifiesAll_unique hparts hparts'
      exact settles_unique h h'
  | any _ _, _, _, .any hparts h, .any hparts' h' => by
      obtain rfl := simplifiesAll_unique hparts hparts'
      exact settles_unique h h'
  | adjacent _ _, _, _, .adjacent hparts h, .adjacent hparts' h' => by
      obtain rfl := simplifiesAll_unique hparts hparts'
      exact settles_unique h h'
  | negated _ _, _, _, .negated htree h, .negated htree' h' => by
      obtain rfl := simplifies_unique htree htree'
      exact settles_unique h h'
  | sorted _ _ _, _, _, .sorted htree, .sorted htree' => by
      rw [simplifies_unique htree htree']

theorem simplifiesAll_unique : ∀ {trees firsts seconds : List Tree},
    List.Forall₂ (Simplifies conventions) trees firsts →
    List.Forall₂ (Simplifies conventions) trees seconds → firsts = seconds
  | [], _, _, .nil, .nil => rfl
  | _ :: _, _, _, .cons h hrest, .cons h' hrest' => by
      rw [simplifies_unique h h', simplifiesAll_unique hrest hrest']

end

/-! ### What a settled tree looks like -/

/-- The trees that simplifying leads to. -/
structure NormalForm (conventions : Conventions) (tree : Tree) : Prop where
  /-- How adjacent queries are connected is resolved everywhere. -/
  resolved : ∀ parts tags, ¬Within (adjacent parts tags) tree
  /-- No negation is right below a negation. -/
  cancelled : ∀ inner tags outerTags, ¬Within (negated (negated inner tags) outerTags) tree
  /-- No conjunction has exactly one part. -/
  unwrappedAll : ∀ only tags, ¬Within (all [only] tags) tree
  /-- No disjunction has exactly one part. -/
  unwrappedAny : ∀ only tags, ¬Within (any [only] tags) tree
  /-- The clauses on a field stand together in every conjunction. -/
  togetherAll : ∀ parts tags, Within (all parts tags) tree → Together parts
  /-- The clauses on a field stand together in every disjunction. -/
  togetherAny : ∀ parts tags, Within (any parts tags) tree → Together parts
  /-- In a disjunction a field has at most one clause that lists values for it. -/
  onePositive : ∀ parts tags, Within (any parts tags) tree → AtMostOne isPositive parts
  /-- In a disjunction a field has at most one clause that excludes values for it. -/
  oneNegative : ∀ parts tags, Within (any parts tags) tree → AtMostOne isNegative parts
  /-- No rule applies at any node. -/
  noRule : ∀ node, Within node tree → ∀ rule ∈ rules conventions, rule node = none

theorem Settled.normalForm {tree : Tree} (h : Settled conventions tree) :
    NormalForm conventions tree := by
  have hall : ∀ parts tags, Within (all parts tags) tree →
      sameAll (groupByField parts).flatten parts = true := by
    intro parts tags hnode
    have hgroup := (done_iff.mp (h _ hnode)).2.2.1
    by_contra hsame
    simp [groupFields, hsame] at hgroup
  have hany : ∀ parts tags, Within (any parts tags) tree →
      sameAll (regroup parts) parts = true := by
    intro parts tags hnode
    have hgroup := (done_iff.mp (h _ hnode)).2.2.1
    by_contra hsame
    simp [groupFields_any, hsame] at hgroup
  constructor
  case resolved =>
    intro parts tags hnode
    have hresolve := (done_iff.mp (h _ hnode)).1
    cases hadj : conventions.adjacency <;> simp [resolveAdjacency, hadj] at hresolve
  case cancelled =>
    intro inner tags outerTags hnode
    have hcancel := (done_iff.mp (h _ hnode)).2.1
    simp [cancelNegations] at hcancel
  case unwrappedAll =>
    intro only tags hnode
    have hunwrap := (done_iff.mp (h _ hnode)).2.2.2.1
    simp [unwrapSingle] at hunwrap
  case unwrappedAny =>
    intro only tags hnode
    have hunwrap := (done_iff.mp (h _ hnode)).2.2.2.1
    simp [unwrapSingle] at hunwrap
  case togetherAll =>
    intro parts tags hnode
    exact (grouped_groupByField parts).together.of_sameAll (hall parts tags hnode)
  case togetherAny =>
    intro parts tags hnode
    exact (together_regroup parts).of_sameAll (hany parts tags hnode)
  case onePositive =>
    intro parts tags hnode
    exact (atMostOne_regroup parts).1.of_sameAll (hany parts tags hnode)
  case oneNegative =>
    intro parts tags hnode
    exact (atMostOne_regroup parts).2.of_sameAll (hany parts tags hnode)
  case noRule => exact h

/--
**Simplifying ends in a normal form.**  For a tree without a NaN the unbounded loops end, in
the tree that `simplify` gives and in no other; it is a normal form, and simplifying it again
changes nothing.
-/
theorem simplify_normalForm (conventions : Conventions) (tree : Tree)
    (hnan : tree.isNaNFree = true) :
    (∀ last, Simplifies conventions tree last ↔ last = simplify conventions tree) ∧
      NormalForm conventions (simplify conventions tree) ∧
      simplify conventions (simplify conventions tree) = simplify conventions tree := by
  obtain ⟨hends, hsimple⟩ := @simplify_spec conventions tree hnan
  refine ⟨fun last => ⟨fun h => simplifies_unique h hends, ?_⟩, hsimple.settled.normalForm,
    simplify_of_settled hsimple.settled⟩
  rintro rfl
  exact hends

/-- A query of two adjacent groups, one of them doubly negated, in which every rule has work. -/
def tangled : Tree :=
  adjacent [compare "a" .equals (.word "x"),
    negated (negated (any [compare "b" .plain (.integer 1), anywhere (.word "y"),
      compare "b" .equals (.integer 2)] []) []) [],
    compare "$contentType" .equals (.word "note"), compare "a" .less (.number ⟨0x4000000000000000⟩)]
    []

theorem simplify_normalForm_tangled : tangled.isNaNFree = true ∧
    NormalForm ⟨.and, "$contentType"⟩ (simplify ⟨.and, "$contentType"⟩ tangled) :=
  have hnan : tangled.isNaNFree = true := by decide
  ⟨hnan, (simplify_normalForm ⟨.and, "$contentType"⟩ tangled hnan).2.1⟩

end Tree

end DocIndex.Query
