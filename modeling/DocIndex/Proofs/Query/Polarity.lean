/-
What a query with negations finds.

A node is positive if its role includes the documents it is about, and negative if its role
excludes them.  A negation turns one into the other, a disjunction is made of positive nodes,
and a conjunction needs a positive part from which its negative parts can take away.  Whether
a tree is made this way can be read off the tree, before anything is planned.

What such a tree is about is told by its clauses.  Each clause is planned on its own, with
the content types that hold where it stands, and the documents it finds are combined by
intersection, union and difference.  Deleted documents take part in the answers of lookups,
so planning agrees with this meaning among live documents alone (`Fits`), and that is enough
because no connective brings a document in that its parts do not have.
-/
import Mathlib.Data.Set.Basic
import DocIndex.Proofs.Except
import DocIndex.Proofs.Index.Evaluation
import DocIndex.Query.Plan

namespace DocIndex.Query

/-! ### Polarity -/

/-- Whether a node includes the documents that it is about, or excludes them. -/
inductive Polarity where
  | positive
  | negative
deriving DecidableEq

/-- The other polarity. -/
def Polarity.flip : Polarity → Polarity
  | .positive => .negative
  | .negative => .positive

/-- Whether the roles of this polarity exclude. -/
def Polarity.excludes : Polarity → Bool
  | .positive => false
  | .negative => true

@[simp] theorem Polarity.excludes_flip (polarity : Polarity) :
    polarity.flip.excludes = !polarity.excludes := by
  cases polarity <;> rfl

/-- The operator that holds for the values for which a negative one does not. -/
def Operator.affirmed : Operator → Operator
  | .notEquals => .equals
  | .noneOf => .oneOf
  | .notSimilar => .similar
  | op => op

namespace Clause

/-- The clause with the operator affirmed. -/
def affirmed (c : Clause) : Clause := { c with op := c.op.affirmed }

/-- The polarity of a clause; any field may only be asked for a value. -/
def polarity? (c : Clause) : Option Polarity :=
  match c.field, c.op with
  | none, .plain => some .positive
  | none, _ => none
  | some _, .notEquals | some _, .notSimilar => some .negative
  | some _, _ => some .positive

end Clause

namespace Tree

mutual

/-- The polarity of a tree, if its negations are all where their meaning is a difference. -/
def polarity? : Tree → Option Polarity
  | clause c => c.polarity?
  | all parts _ => (polarities? parts).bind fun polarities =>
      if .positive ∈ polarities then some .positive else none
  | any parts _ => (polarities? parts).bind fun polarities =>
      if polarities ≠ [] ∧ .negative ∉ polarities then some .positive else none
  | negated tree _ => (polarity? tree).map Polarity.flip
  | adjacent _ _ | sorted _ _ _ => none

/-- The polarities of several trees, if all of them have one. -/
def polarities? : List Tree → Option (List Polarity)
  | [] => some []
  | tree :: rest => (polarity? tree).bind fun polarity =>
      (polarities? rest).map fun polarities => polarity :: polarities

end

mutual

/-- The clauses of a tree with the content types that hold where each of them stands. -/
def leaves (scope : Scope) : Tree → List (Clause × Scope)
  | clause c => [(c, scope)]
  | all parts tags => leavesOfAll (tags.contentTypes? <|> scope) parts
  | any parts _ | adjacent parts _ => leavesOfAll scope parts
  | negated tree _ => leaves scope tree
  | sorted tree _ _ => leaves scope tree

/-- The clauses of several trees. -/
def leavesOfAll (scope : Scope) : List Tree → List (Clause × Scope)
  | [] => []
  | tree :: rest => leaves scope tree ++ leavesOfAll scope rest

end

theorem polarities?_eq_some {trees : List Tree} {polarities : List Polarity} :
    polarities? trees = some polarities ↔ trees.map polarity? = polarities.map some := by
  induction trees generalizing polarities with
  | nil => cases polarities <;> simp [polarities?]
  | cons tree rest ih =>
      simp only [polarities?, Option.bind_eq_some_iff, Option.map_eq_some_iff, ih]
      constructor
      · rintro ⟨polarity, htree, others, hrest, rfl⟩
        rw [List.map_cons, List.map_cons, htree, hrest]
      · intro h
        obtain ⟨polarity, others, rfl⟩ := List.exists_cons_of_ne_nil
          (l := polarities) (by rintro rfl; simp at h)
        obtain ⟨htree, hrest⟩ := List.cons.inj h
        exact ⟨polarity, htree, others, hrest, rfl⟩

theorem mem_polarities? {trees : List Tree} {polarities : List Polarity}
    (h : polarities? trees = some polarities) {polarity : Polarity} :
    polarity ∈ polarities ↔ ∃ tree ∈ trees, tree.polarity? = some polarity := by
  rw [← List.mem_map, polarities?_eq_some.mp h]
  simp

variable {parts : List Tree} {tags : Tags} {polarity : Polarity}

theorem exists_polarity? {polarities : List Polarity} (h : polarities? parts = some polarities) :
    ∀ part ∈ parts, ∃ polarity ∈ polarities, part.polarity? = some polarity := by
  intro part hpart
  obtain ⟨polarity, hmem, heq⟩ := List.mem_map.mp
    (polarities?_eq_some.mp h ▸ List.mem_map_of_mem hpart)
  exact ⟨polarity, hmem, heq.symm⟩

/-- The parts of a conjunction with a polarity have one, and some part is positive. -/
theorem polarity?_all (h : (all parts tags).polarity? = some polarity) :
    polarity = .positive ∧ (∀ part ∈ parts, ∃ side, part.polarity? = some side) ∧
      ∃ part ∈ parts, part.polarity? = some .positive := by
  obtain ⟨polarities, hparts, hside⟩ := Option.bind_eq_some_iff.mp h
  obtain ⟨hmem, hpolarity⟩ := Option.ite_none_right_eq_some.mp hside
  refine ⟨(Option.some.inj hpolarity).symm, fun part hpart => ?_, (mem_polarities? hparts).mp hmem⟩
  obtain ⟨side, -, hpart⟩ := exists_polarity? hparts part hpart
  exact ⟨side, hpart⟩

/-- The parts of a disjunction with a polarity are positive. -/
theorem polarity?_any (h : (any parts tags).polarity? = some polarity) :
    polarity = .positive ∧ ∀ part ∈ parts, part.polarity? = some .positive := by
  obtain ⟨polarities, hparts, hside⟩ := Option.bind_eq_some_iff.mp h
  obtain ⟨⟨-, hnone⟩, hpolarity⟩ := Option.ite_none_right_eq_some.mp hside
  refine ⟨(Option.some.inj hpolarity).symm, fun part hpart => ?_⟩
  obtain ⟨side, hmem, hpart⟩ := exists_polarity? hparts part hpart
  cases side with
  | positive => exact hpart
  | negative => exact absurd hmem hnone

end Tree

/-! ### Meaning -/

/-- An index and what a query on it is planned with. -/
structure Searching where
  context : PlanContext
  index : InvertedIndex

namespace Searching

variable (searching : Searching)

/-- The live documents. -/
def live : Set DocId := {doc | doc ∈ searching.index.live}

/-- The documents that a clause finds by its own lookup. -/
def found (c : Clause) (scope : Scope) : Set DocId :=
  {doc | ∃ role, searching.context.clause c scope = .ok role ∧
    doc ∈ searching.index.matching role.lookup}

/-- What a clause is about: none of a list is found where one of it is not. -/
def aboutClause (c : Clause) (scope : Scope) : Set DocId :=
  match c.field, c.op with
  | some _, .noneOf => searching.live \ searching.found c.affirmed scope
  | _, _ => searching.found c.affirmed scope

mutual

/-- The documents that a positive tree holds for, or that a negative one takes away. -/
def about (scope : Scope) : Tree → Set DocId
  | .clause c => searching.aboutClause c scope
  | .all parts tags =>
    common (tags.contentTypes? <|> scope) parts \ takenAway (tags.contentTypes? <|> scope) parts
  | .any parts _ => united scope parts
  | .negated tree _ => about scope tree
  | .adjacent _ _ | .sorted _ _ _ => ∅

/-- The documents that all positive trees of a list are about. -/
def common (scope : Scope) : List Tree → Set DocId
  | [] => Set.univ
  | tree :: rest =>
    if tree.polarity? = some .positive then about scope tree ∩ common scope rest
    else common scope rest

/-- The documents that some negative tree of a list is about. -/
def takenAway (scope : Scope) : List Tree → Set DocId
  | [] => ∅
  | tree :: rest =>
    if tree.polarity? = some .negative then about scope tree ∪ takenAway scope rest
    else takenAway scope rest

/-- The documents that some tree of a list is about. -/
def united (scope : Scope) : List Tree → Set DocId
  | [] => ∅
  | tree :: rest => about scope tree ∪ united scope rest

end

/-- A role has the side of a polarity and finds, among the live documents, the given ones. -/
structure Fits (role : Role) (polarity : Polarity) (docs : Set DocId) : Prop where
  excludes : role.excludes = polarity.excludes
  finds : ∀ doc ∈ searching.index.live, doc ∈ searching.index.evaluate role.lookup ↔ doc ∈ docs

variable {searching} {scope : Scope}

/-! ### Clauses -/

theorem mem_found {c : Clause} {role : Role} (h : searching.context.clause c scope = .ok role)
    (doc : DocId) : doc ∈ searching.found c scope ↔
      doc ∈ searching.index.evaluate role.lookup ∧ doc ∈ searching.index.live := by
  simp only [found, h, Except.ok.injEq, exists_eq_left', Set.mem_ofPred_eq,
    InvertedIndex.mem_matching]

/-- A role that looks up what a clause looks up fits what the clause finds. -/
theorem fits_found {c : Clause} {own role : Role} {polarity : Polarity}
    (hown : searching.context.clause c scope = .ok own) (hlookup : role.lookup = own.lookup)
    (hexcludes : role.excludes = polarity.excludes) :
    searching.Fits role polarity (searching.found c scope) := by
  refine ⟨hexcludes, fun doc hlive => ?_⟩
  rw [mem_found hown doc, hlookup, and_iff_left hlive]

/-- Values of a list are looked up alike by the operators that take one. -/
theorem anyOf_eq_ok {context : PlanContext} {field : String} {op other : Operator} {value : Value}
    {lookup : Lookup} (h : context.anyOf field op value scope = .ok lookup) :
    context.anyOf field other value scope = .ok lookup := by
  cases value with
  | list values => exact h
  | _ => cases h

/-- An operator on a field and the affirmed one look up the same, except for a list's values. -/
theorem clause_affirmed {context : PlanContext} {field : String} {op : Operator} {value : Value}
    {tags : Tags} {role : Role} {polarity : Polarity} (hop : op ≠ .noneOf)
    (hpolarity : (⟨some field, op, value, tags⟩ : Clause).polarity? = some polarity)
    (hclause : context.clause ⟨some field, op, value, tags⟩ scope = .ok role) :
    context.clause ⟨some field, op.affirmed, value, tags⟩ scope = .ok (.includes role.lookup) ∧
      role.excludes = polarity.excludes := by
  cases op
  case noneOf => exact absurd rfl hop
  all_goals
    obtain ⟨lookup, hlookup, hrole⟩ := bind_eq_ok.mp hclause
    obtain rfl := Except.ok.inj hrole
    obtain rfl := Option.some.inj hpolarity
    exact ⟨bind_eq_ok.mpr ⟨lookup, hlookup, rfl⟩, rfl⟩

/-- None of a list is found in exactly the live documents in which one of it is not. -/
theorem fits_noneOf {field : String} {value : Value} {tags : Tags} {role : Role}
    (hclause : searching.context.clause ⟨some field, .noneOf, value, tags⟩ scope = .ok role) :
    searching.Fits role .positive
      (searching.aboutClause ⟨some field, .noneOf, value, tags⟩ scope) := by
  obtain ⟨excluded, hexcluded, hrole⟩ := bind_eq_ok.mp hclause
  obtain rfl := Except.ok.inj hrole
  have honeOf : searching.context.clause ⟨some field, .oneOf, value, tags⟩ scope
      = .ok (.includes excluded) := bind_eq_ok.mpr ⟨excluded, anyOf_eq_ok hexcluded, rfl⟩
  refine ⟨rfl, fun doc hlive => ?_⟩
  have heverything : doc ∈ searching.index.evaluate .everything := hlive
  have hfound := mem_found honeOf doc
  simp only [Role.includes, aboutClause, live, Clause.affirmed, Operator.affirmed, Set.mem_sdiff,
    Set.mem_ofPred_eq, InvertedIndex.mem_evaluate_combine (List.cons_ne_nil _ _),
    List.forall_mem_singleton] at hfound ⊢
  rw [hfound]
  tauto

/-- The role of a clause fits what the clause is about. -/
theorem fits_clause {c : Clause} {role : Role} {polarity : Polarity}
    (hpolarity : c.polarity? = some polarity)
    (hclause : searching.context.clause c scope = .ok role) :
    searching.Fits role polarity (searching.aboutClause c scope) := by
  obtain ⟨field, op, value, tags⟩ := c
  cases field with
  | some field =>
      by_cases hop : op = .noneOf
      · subst hop
        obtain rfl := Option.some.inj hpolarity
        exact fits_noneOf hclause
      · obtain ⟨hown, hexcludes⟩ := clause_affirmed hop hpolarity hclause
        have habout : searching.aboutClause ⟨some field, op, value, tags⟩ scope
            = searching.found ⟨some field, op.affirmed, value, tags⟩ scope := by
          cases op <;> first | rfl | exact absurd rfl hop
        rw [habout]
        exact fits_found hown rfl hexcludes
  | none =>
      cases op
      case plain =>
        obtain rfl := Option.some.inj hpolarity
        refine fits_found hclause rfl ?_
        cases value
        case everything =>
          obtain rfl := Except.ok.inj hclause
          rfl
        all_goals
          obtain ⟨_, -, hrole⟩ := bind_eq_ok.mp hclause
          obtain rfl := Except.ok.inj hrole
          rfl
      all_goals cases hpolarity

/-! ### Connectives -/

/-- The role of a tree fits what the tree is about. -/
def FitsTree (searching : Searching) (scope : Scope) (tree : Tree) (role : Role) : Prop :=
  ∃ polarity, tree.polarity? = some polarity ∧
    searching.Fits role polarity (searching.about scope tree)

variable {trees : List Tree} {roles : List Role} {doc : DocId}

/-- Among live documents, the lookups that include find what all positive parts are about. -/
theorem mem_common (h : List.Forall₂ (searching.FitsTree scope) trees roles)
    (hlive : doc ∈ searching.index.live) :
    (∀ lookup ∈ (PlanContext.split roles).1, doc ∈ searching.index.evaluate lookup) ↔
      doc ∈ searching.common scope trees := by
  induction h with
  | nil => simp [PlanContext.split, common]
  | @cons tree role _ _ hfirst _ ih =>
      obtain ⟨polarity, hpolarity, hfits⟩ := hfirst
      cases polarity <;>
        simp_all [PlanContext.split, common, hfits.excludes, Polarity.excludes,
          ← hfits.finds doc hlive]

/-- Among live documents, the lookups that exclude find what some negative part is about. -/
theorem mem_takenAway (h : List.Forall₂ (searching.FitsTree scope) trees roles)
    (hlive : doc ∈ searching.index.live) :
    (∃ lookup ∈ (PlanContext.split roles).2, doc ∈ searching.index.evaluate lookup) ↔
      doc ∈ searching.takenAway scope trees := by
  induction h with
  | nil => simp [PlanContext.split, takenAway]
  | @cons tree role _ _ hfirst _ ih =>
      obtain ⟨polarity, hpolarity, hfits⟩ := hfirst
      cases polarity <;>
        simp_all [PlanContext.split, takenAway, hfits.excludes, Polarity.excludes,
          ← hfits.finds doc hlive]

/-- Among live documents, the lookups of positive parts find what some part is about. -/
theorem mem_united (h : List.Forall₂ (searching.FitsTree scope) trees roles)
    (hpositive : ∀ tree ∈ trees, tree.polarity? = some .positive)
    (hlive : doc ∈ searching.index.live) :
    (∃ lookup ∈ (PlanContext.split roles).1, doc ∈ searching.index.evaluate lookup) ↔
      doc ∈ searching.united scope trees := by
  induction h with
  | nil => simp [PlanContext.split, united]
  | @cons tree role _ _ hfirst _ ih =>
      obtain ⟨polarity, hpolarity, hfits⟩ := hfirst
      obtain ⟨htree, hrest⟩ := List.forall_mem_cons.mp hpositive
      obtain rfl : polarity = .positive := Option.some.inj (hpolarity.symm.trans htree)
      have ih := ih hrest
      simp_all [PlanContext.split, united, hfits.excludes, Polarity.excludes,
        ← hfits.finds doc hlive]

/-- A positive part is looked up by something that includes. -/
theorem split_includes_ne_nil (h : List.Forall₂ (searching.FitsTree scope) trees roles)
    (hpositive : ∃ tree ∈ trees, tree.polarity? = some .positive) :
    (PlanContext.split roles).1 ≠ [] := by
  induction h with
  | nil => simp at hpositive
  | @cons tree role _ _ hfirst _ ih =>
      obtain ⟨polarity, hpolarity, hfits⟩ := hfirst
      rcases (List.exists_mem_cons_iff _ _ _).mp hpositive with htree | hrest
      · obtain rfl : polarity = .positive := Option.some.inj (hpolarity.symm.trans htree)
        simp [PlanContext.split, hfits.excludes, Polarity.excludes]
      · have hkept := ih hrest
        cases hside : role.excludes <;> simp_all [PlanContext.split]

/-- Positive parts are looked up by nothing that excludes. -/
theorem split_excludes_eq_nil (h : List.Forall₂ (searching.FitsTree scope) trees roles)
    (hpositive : ∀ tree ∈ trees, tree.polarity? = some .positive) :
    (PlanContext.split roles).2 = [] := by
  induction h with
  | nil => rfl
  | @cons tree role _ _ hfirst _ ih =>
      obtain ⟨polarity, hpolarity, hfits⟩ := hfirst
      obtain ⟨htree, hrest⟩ := List.forall_mem_cons.mp hpositive
      obtain rfl : polarity = .positive := Option.some.inj (hpolarity.symm.trans htree)
      have hnone := ih hrest
      simp_all [PlanContext.split, hfits.excludes, Polarity.excludes]

/-- A conjunction with a positive part takes the negative ones away from the positive ones. -/
theorem fits_all (h : List.Forall₂ (searching.FitsTree scope) trees roles)
    (hpositive : ∃ tree ∈ trees, tree.polarity? = some .positive) :
    searching.Fits
      (.includes (.combine (PlanContext.split roles).1 [] (PlanContext.split roles).2)) .positive
      (searching.common scope trees \ searching.takenAway scope trees) := by
  refine ⟨rfl, fun doc hlive => ?_⟩
  have hmust := split_includes_ne_nil h hpositive
  rw [Role.includes, InvertedIndex.mem_evaluate_combine hmust, mem_common h hlive, Set.mem_sdiff,
    ← mem_takenAway h hlive]
  push Not
  rfl

/-- A disjunction of positive parts unites them. -/
theorem fits_any (h : List.Forall₂ (searching.FitsTree scope) trees roles)
    (hpositive : ∀ tree ∈ trees, tree.polarity? = some .positive) :
    searching.Fits
      (.includes (.combine [] (PlanContext.split roles).1 (PlanContext.split roles).2)) .positive
      (searching.united scope trees) := by
  refine ⟨rfl, fun doc hlive => ?_⟩
  rw [Role.includes, split_excludes_eq_nil h hpositive, InvertedIndex.mem_evaluate_combine_nil,
    mem_united h hpositive hlive]
  simp

/-- A negation changes the side and leaves the documents. -/
theorem Fits.negated {role : Role} {polarity : Polarity} {docs : Set DocId}
    (h : searching.Fits role polarity docs) :
    searching.Fits { role with excludes := !role.excludes } polarity.flip docs :=
  ⟨by rw [h.excludes, Polarity.excludes_flip], h.finds⟩

/-! ### Trees -/

mutual

/-- A tree with a polarity is planned if its clauses are, with a role that fits it. -/
theorem node_fits : ∀ {tree : Tree} {scope : Scope} {polarity : Polarity},
    tree.polarity? = some polarity →
    (∀ leaf ∈ tree.leaves scope, ∃ role, searching.context.clause leaf.1 leaf.2 = .ok role) →
      ∃ role, searching.context.node scope tree = .ok role ∧
        searching.Fits role polarity (searching.about scope tree)
  | .clause c, scope, polarity, hpolarity, hleaves => by
      obtain ⟨role, hrole⟩ := hleaves (c, scope) (List.mem_singleton_self _)
      exact ⟨role, hrole, fits_clause hpolarity hrole⟩
  | .all parts tags, scope, polarity, hpolarity, hleaves => by
      obtain ⟨rfl, hparts, hpositive⟩ := Tree.polarity?_all hpolarity
      obtain ⟨roles, hroles, hfits⟩ := nodes_fit hparts hleaves
      exact ⟨_, bind_eq_ok.mpr ⟨roles, hroles, rfl⟩, fits_all hfits hpositive⟩
  | .any parts tags, scope, polarity, hpolarity, hleaves => by
      obtain ⟨rfl, hpositive⟩ := Tree.polarity?_any hpolarity
      obtain ⟨roles, hroles, hfits⟩ := nodes_fit (fun part hpart => ⟨_, hpositive part hpart⟩) hleaves
      exact ⟨_, bind_eq_ok.mpr ⟨roles, hroles, rfl⟩, fits_any hfits hpositive⟩
  | .negated tree tags, scope, polarity, hpolarity, hleaves => by
      obtain ⟨inner, hinner, rfl⟩ := Option.map_eq_some_iff.mp hpolarity
      obtain ⟨role, hrole, hfits⟩ := node_fits hinner hleaves
      exact ⟨_, bind_eq_ok.mpr ⟨role, hrole, rfl⟩, hfits.negated⟩
  | .adjacent _ _, _, _, hpolarity, _ => nomatch hpolarity
  | .sorted _ _ _, _, _, hpolarity, _ => nomatch hpolarity

/-- Trees with polarities are planned if their clauses are, with roles that fit them. -/
theorem nodes_fit : ∀ {trees : List Tree} {scope : Scope},
    (∀ tree ∈ trees, ∃ polarity, tree.polarity? = some polarity) →
    (∀ leaf ∈ Tree.leavesOfAll scope trees,
      ∃ role, searching.context.clause leaf.1 leaf.2 = .ok role) →
      ∃ roles, searching.context.nodes scope trees = .ok roles ∧
        List.Forall₂ (searching.FitsTree scope) trees roles
  | [], scope, _, _ => ⟨[], rfl, .nil⟩
  | tree :: rest, scope, hpolarities, hleaves => by
      obtain ⟨⟨polarity, hpolarity⟩, hothers⟩ := List.forall_mem_cons.mp hpolarities
      obtain ⟨hfirst, hrest⟩ := List.forall_mem_append.mp hleaves
      obtain ⟨role, hrole, hfits⟩ := node_fits hpolarity hfirst
      obtain ⟨roles, hroles, hall⟩ := nodes_fit hothers hrest
      exact ⟨role :: roles, bind_eq_ok.mpr ⟨role, hrole, bind_eq_ok.mpr ⟨roles, hroles, rfl⟩⟩,
        .cons ⟨polarity, hpolarity, hfits⟩ hall⟩

end

/-- What a clause is about is live. -/
theorem aboutClause_subset_live (c : Clause) (scope : Scope) :
    searching.aboutClause c scope ⊆ searching.live := by
  have hfound : searching.found c.affirmed scope ⊆ searching.live := by
    rintro doc ⟨role, -, hdoc⟩
    exact (InvertedIndex.mem_matching.mp hdoc).2
  unfold aboutClause
  split
  · exact Set.sdiff_subset
  · exact hfound

theorem common_subset {tree : Tree} (htree : tree ∈ trees)
    (hpositive : tree.polarity? = some .positive) :
    searching.common scope trees ⊆ searching.about scope tree := by
  induction trees with
  | nil => simp at htree
  | cons first rest ih =>
      rw [common]
      rcases List.mem_cons.mp htree with rfl | hrest
      · rw [if_pos hpositive]
        exact Set.inter_subset_left
      · split
        · exact Set.inter_subset_right.trans (ih hrest)
        · exact ih hrest

theorem united_subset {docs : Set DocId}
    (h : ∀ tree ∈ trees, searching.about scope tree ⊆ docs) :
    searching.united scope trees ⊆ docs := by
  induction trees with
  | nil => exact Set.empty_subset _
  | cons first rest ih =>
      obtain ⟨hfirst, hrest⟩ := List.forall_mem_cons.mp h
      exact Set.union_subset hfirst (ih hrest)

mutual

/-- What a tree with a polarity is about is live. -/
theorem about_subset_live : ∀ (tree : Tree) (scope : Scope) {polarity : Polarity},
    tree.polarity? = some polarity → searching.about scope tree ⊆ searching.live
  | .clause c, scope, _, _ => aboutClause_subset_live c scope
  | .all parts tags, scope, _, hpolarity => by
      obtain ⟨-, -, part, hpart, hpositive⟩ := Tree.polarity?_all hpolarity
      have hlive := all_about_subset_live parts (tags.contentTypes? <|> scope) part hpart hpositive
      exact Set.sdiff_subset.trans ((common_subset hpart hpositive).trans hlive)
  | .any parts tags, scope, _, hpolarity => by
      obtain ⟨-, hpositive⟩ := Tree.polarity?_any hpolarity
      exact united_subset fun part hpart =>
        all_about_subset_live parts scope part hpart (hpositive part hpart)
  | .negated tree tags, scope, _, hpolarity => by
      obtain ⟨inner, hinner, -⟩ := Option.map_eq_some_iff.mp hpolarity
      exact about_subset_live tree scope hinner
  | .adjacent _ _, _, _, hpolarity => nomatch hpolarity
  | .sorted _ _ _, _, _, hpolarity => nomatch hpolarity

/-- What the trees of a list with a polarity are about is live. -/
theorem all_about_subset_live : ∀ (trees : List Tree) (scope : Scope) {polarity : Polarity},
    ∀ tree ∈ trees, tree.polarity? = some polarity →
      searching.about scope tree ⊆ searching.live
  | [], _, _, _, htree, _ => nomatch htree
  | first :: rest, scope, _, tree, htree, hpolarity => by
      rcases List.mem_cons.mp htree with heq | hrest
      · rw [heq] at hpolarity ⊢
        exact about_subset_live first scope hpolarity
      · exact all_about_subset_live rest scope tree hrest hpolarity

end

/--
**A query with negations finds what its clauses say.**  Take a positive tree each of whose
clauses can be planned on its own.  Then the tree is planned without an order, and in every
index its lookup finds the documents that the tree is about.
-/
theorem matching_plan_of_positive (searching : Searching) (tree : Tree)
    (hpositive : tree.polarity? = some .positive)
    (hleaves : ∀ leaf ∈ tree.leaves none,
      ∃ role, searching.context.clause leaf.1 leaf.2 = .ok role) :
    ∃ lookup, searching.context.plan tree = .ok (lookup, none) ∧
      {doc | doc ∈ searching.index.matching lookup} = searching.about none tree := by
  obtain ⟨role, hrole, hfits⟩ := node_fits hpositive hleaves
  have hroot : searching.context.root tree = .ok role.lookup := by
    refine bind_eq_ok.mpr ⟨role, hrole, ?_⟩
    rw [hfits.excludes]
    rfl
  have hplan : searching.context.plan tree
      = (do return (← searching.context.root tree, none)) := by
    cases tree with
    | sorted inner keys tags => cases hpositive
    | _ => rfl
  refine ⟨role.lookup, by rw [hplan, hroot]; rfl, Set.ext fun doc => ?_⟩
  rw [Set.mem_ofPred_eq, InvertedIndex.mem_matching]
  constructor
  · rintro ⟨hfound, hlive⟩
    exact (hfits.finds doc hlive).mp hfound
  · intro habout
    have hlive : doc ∈ searching.index.live := about_subset_live tree none hpositive habout
    exact ⟨(hfits.finds doc hlive).mpr habout, hlive⟩

/-- Sizes are words in notes and numbers in tickets. -/
def sizes : FieldCatalog :=
  [("note", [⟨"size", .text, "size", .term, "Term", none⟩]),
    ("ticket", [⟨"size", .integer, "size", .long, "Number", none⟩])]

/-- An open note and an open ticket of size 3, an open document of no size, and a deleted one. -/
def desk : Searching where
  context := ⟨sizes, [], ⟨0, 0, 0⟩, 0, 0⟩
  index :=
    let index := (InvertedIndex.empty.insert
      [⟨.term "status" "open", []⟩, ⟨.term "size" "3", []⟩]).1
    let index := (index.insert [⟨.term "status" "open", []⟩, ⟨.long "size" 3, []⟩]).1
    let index := (index.insert [⟨.term "status" "open", []⟩]).1
    let index := (index.insert [⟨.term "status" "open", []⟩, ⟨.term "id" "gone", []⟩]).1
    (index.deleteTerm "id" "gone").1

/-- Not other than open, or neither open nor done; and not a note of size 3. -/
def openButSmallNotes : Tree :=
  .all [
    .any [.negated (.compare "status" .notEquals (.word "open")) [],
      .compare "status" .noneOf (.list [.word "open", .word "done"])] [],
    .negated (.all [.compare "size" .equals (.integer 3)]
      (Tags.setContentTypes [] ["note"])) []] []

theorem matching_plan_openButSmallNotes :
    openButSmallNotes.polarity? = some .positive ∧
      (∀ leaf ∈ openButSmallNotes.leaves none,
        ∃ role, desk.context.clause leaf.1 leaf.2 = .ok role) ∧
      ∃ lookup, desk.context.plan openButSmallNotes = .ok (lookup, none) ∧
        desk.index.matching lookup = [1, 2] ∧
        {doc | doc ∈ desk.index.matching lookup} = desk.about none openButSmallNotes := by
  have hpositive : openButSmallNotes.polarity? = some .positive := by decide
  have hleaves : ∀ leaf ∈ openButSmallNotes.leaves none,
      ∃ role, desk.context.clause leaf.1 leaf.2 = .ok role :=
    List.forall_mem_cons.mpr ⟨⟨_, rfl⟩, List.forall_mem_cons.mpr ⟨⟨_, rfl⟩,
      List.forall_mem_cons.mpr ⟨⟨_, rfl⟩, List.forall_mem_nil _⟩⟩⟩
  obtain ⟨lookup, hplan, hmatching⟩ := matching_plan_of_positive desk openButSmallNotes hpositive
    hleaves
  refine ⟨hpositive, hleaves, lookup, hplan, ?_, hmatching⟩
  have hlookup : desk.context.plan openButSmallNotes = .ok (_, none) := rfl
  obtain rfl := (Prod.mk.inj (Except.ok.inj (hlookup.symm.trans hplan))).1
  decide +kernel

end Searching

end DocIndex.Query
