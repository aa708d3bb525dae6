/-
What a planned query finds, part by part.

An affirmative tree is made of conjunctions, disjunctions and clauses that include the
documents they hold for, with nothing in its tags.  Such a tree is planned if every part of it
is, and then a document is found by a conjunction if every part finds it, and by a disjunction
if some part does.  So the meaning of a node is known from the set of its parts, and neither
their order nor their number matters, as long as there are some.

The tree that is planned is the one with its adjacent parts connected, and all of this is said
of that tree: a node of adjacent parts means what the connected node means.
-/
import DocIndex.Proofs.Except
import DocIndex.Proofs.Index.Evaluation
import DocIndex.Query.Plan
import DocIndex.Query.Tree.Simplify

namespace DocIndex

namespace Double

/-- Whether a number is neither a NaN nor the negative zero. -/
def isRegular (x : Double) : Bool := !x.isNaN && !(x.negative && x.magnitude == 0)

/-- The bits of a number are its magnitude and its sign. -/
theorem bits_eq (x : Double) :
    x.bits.toNat = x.magnitude + if x.negative then signUnit else 0 := by
  have hlt := x.bits.toNat_lt
  cases hneg : x.negative with
  | false =>
      have hbelow : x.bits.toNat < signUnit := by simpa [negative] using hneg
      simp [magnitude, Nat.mod_eq_of_lt hbelow]
  | true =>
      have habove : signUnit ≤ x.bits.toNat := by simpa [negative] using hneg
      simp only [magnitude, signUnit, if_true] at habove ⊢
      omega

theorem eq_of_parts {x y : Double} (hnegative : x.negative = y.negative)
    (hmagnitude : x.magnitude = y.magnitude) : x = y := by
  have hbits : x.bits.toNat = y.bits.toNat := by rw [bits_eq x, bits_eq y, hnegative, hmagnitude]
  cases x
  cases y
  exact congrArg Double.mk (UInt64.toNat_inj.mp hbits)

/-- Numbers of one value are one number, or the two zeros. -/
theorem eq_or_zeros_of_same {x y : Double} (h : x.same y = true) :
    x = y ∨ x.magnitude = 0 ∧ y.magnitude = 0 ∧ x.negative ≠ y.negative := by
  have hkey : x.orderKey = y.orderKey := by
    by_cases hnan : (x.isNaN || y.isNaN) = true
    · simp [same, order?, hnan] at h
    · simp only [same, order?, hnan, Bool.false_eq_true, if_false, beq_iff_eq,
        Option.some.injEq] at h
      exact Std.LawfulEqOrd.eq_of_compare h
  by_cases hsign : x.negative = y.negative
  · refine .inl (eq_of_parts hsign ?_)
    simp only [orderKey, hsign] at hkey
    split at hkey <;> omega
  · have hsigns : (x.negative = true ∧ y.negative = false) ∨
        (x.negative = false ∧ y.negative = true) := by
      revert hsign
      cases x.negative <;> cases y.negative <;> decide
    rcases hsigns with ⟨hx, hy⟩ | ⟨hx, hy⟩
    all_goals
      simp only [orderKey, hx, hy, if_true, if_false, Bool.false_eq_true] at hkey
      exact .inr ⟨by omega, by omega, hsign⟩

/-- Among regular numbers, only a number itself has the same value. -/
theorem eq_of_same {x y : Double} (hx : x.isRegular = true) (hy : y.isRegular = true)
    (h : x.same y = true) : x = y := by
  rcases eq_or_zeros_of_same h with heq | ⟨hxzero, hyzero, hsign⟩
  · exact heq
  · refine absurd ?_ hsign
    simp_all [isRegular]

end Double

namespace Query

namespace Value

mutual

/-- Whether no number in the value is a NaN or the negative zero. -/
def isRegular : Value → Bool
  | number x => x.isRegular
  | list values => areRegular values
  | _ => true

/-- Whether no number in any of the values is a NaN or the negative zero. -/
def areRegular : List Value → Bool
  | [] => true
  | value :: rest => isRegular value && areRegular rest

end

theorem areRegular_iff {values : List Value} :
    areRegular values = true ↔ ∀ value ∈ values, value.isRegular = true := by
  induction values with
  | nil => simp [areRegular]
  | cons value rest ih => simp [areRegular, ih]

/-- Values that are the same are looked up alike. -/
theorem exact_eq_of_same (context : PlanContext) {v w : Value} (hv : v.isRegular = true)
    (hw : w.isRegular = true) (h : v.same w = true) (field : String) (scope : Scope) :
    context.exact field v scope = context.exact field w scope := by
  cases v <;> cases w <;> simp only [same, Bool.and_eq_true, beq_iff_eq, Bool.false_eq_true] at h
  case number.number x y =>
    rw [Double.eq_of_same hv hw h]
  case time.time a p b q =>
    obtain ⟨hinstant, rfl⟩ := h
    have hutc : a.utc = b.utc := by
      simp only [Moment.sameInstant, Bool.and_eq_true, beq_iff_eq] at hinstant
      simp only [Moment.utc, hinstant.1, hinstant.2]
    simp only [PlanContext.exact, instant?, hutc]
  case list.list => rfl
  case everything.everything => rfl
  all_goals rw [h]

end Value

/-! ### Affirmative trees -/

/-- Whether a clause with the operator includes the documents that it holds for. -/
def Operator.isAffirmative : Operator → Bool
  | .plain | .equals | .oneOf => true
  | .greater | .greaterOrEqual | .less | .lessOrEqual => true
  | .similar => true
  | .notEquals | .noneOf | .notSimilar => false

/-- Whether a clause includes documents, by anything but their content type. -/
def Clause.isAffirmative (contentTypeField : String) (c : Clause) : Bool :=
  c.op.isAffirmative && c.field != some contentTypeField && c.value.isRegular && c.tags.isEmpty

theorem Clause.isAffirmative_iff {contentTypeField : String} {c : Clause} :
    c.isAffirmative contentTypeField = true ↔ c.op.isAffirmative = true ∧
      c.field ≠ some contentTypeField ∧ c.value.isRegular = true ∧ c.tags = [] := by
  simp [Clause.isAffirmative, and_assoc]

namespace Tree

mutual

/-- Whether a tree without tags is made of affirmative clauses and connectives alone. -/
def isAffirmative (contentTypeField : String) : Tree → Bool
  | clause c => c.isAffirmative contentTypeField
  | all parts tags | any parts tags | adjacent parts tags =>
    areAffirmative contentTypeField parts && tags.isEmpty
  | negated _ _ | sorted _ _ _ => false

/-- Whether all trees of a list are affirmative. -/
def areAffirmative (contentTypeField : String) : List Tree → Bool
  | [] => true
  | tree :: rest => isAffirmative contentTypeField tree && areAffirmative contentTypeField rest

end

theorem areAffirmative_iff {contentTypeField : String} {trees : List Tree} :
    areAffirmative contentTypeField trees = true ↔
      ∀ tree ∈ trees, tree.isAffirmative contentTypeField = true := by
  induction trees with
  | nil => simp [areAffirmative]
  | cons tree rest ih => simp [areAffirmative, ih]

mutual

/-- The tree with adjacent parts connected everywhere. -/
def connect (adjacency : Connective) : Tree → Tree
  | clause c => clause c
  | all parts tags => all (connectAll adjacency parts) tags
  | any parts tags => any (connectAll adjacency parts) tags
  | adjacent parts tags =>
    match adjacency with
    | .and => all (connectAll adjacency parts) tags
    | .or => any (connectAll adjacency parts) tags
  | negated tree tags => negated (connect adjacency tree) tags
  | sorted tree keys tags => sorted (connect adjacency tree) keys tags

/-- The trees with adjacent parts connected everywhere. -/
def connectAll (adjacency : Connective) : List Tree → List Tree
  | [] => []
  | tree :: rest => connect adjacency tree :: connectAll adjacency rest

end

theorem connectAll_eq_map (adjacency : Connective) (trees : List Tree) :
    connectAll adjacency trees = trees.map (connect adjacency) := by
  induction trees with
  | nil => rfl
  | cons tree rest ih => rw [connectAll, ih, List.map_cons]

end Tree

/-! ### Planning several parts -/

namespace PlanContext

variable {context : PlanContext} {scope : Scope}

theorem nodes_eq_mapM (trees : List Tree) :
    context.nodes scope trees = trees.mapM (context.node scope) := by
  induction trees with
  | nil => rfl
  | cons tree rest ih => rw [nodes, List.mapM_cons, ih]

theorem split_includes (lookups : List Lookup) :
    split (lookups.map Role.includes) = (lookups, []) := by
  have hrole : Role.lookup ∘ Role.includes = id := rfl
  have hkeep : (lookups.map Role.includes).filter (fun r => !r.excludes)
      = lookups.map Role.includes :=
    List.filter_eq_self.mpr (by simp [Role.includes])
  have hdrop : (lookups.map Role.includes).filter (fun r => r.excludes) = [] :=
    List.filter_eq_nil_iff.mpr (by simp [Role.includes])
  rw [split, hkeep, hdrop, List.map_map, hrole, List.map_id, List.map_nil]

/-- Affirmative clauses include what they find. -/
theorem clause_includes {contentTypeField : String} {c : Clause}
    (h : c.isAffirmative contentTypeField = true) {role : Role}
    (hrole : context.clause c scope = .ok role) : role.excludes = false := by
  have hop : c.op.isAffirmative = true := (Clause.isAffirmative_iff.mp h).1
  unfold clause at hrole
  cases hfield : c.field with
  | none =>
      rw [hfield] at hrole
      simp only [anywhere] at hrole
      split at hrole
      · rw [← Except.ok.inj hrole]
        rfl
      · obtain ⟨_, -, hrole⟩ := bind_eq_ok.mp hrole
        rw [← Except.ok.inj hrole]
        cases hc : c.op <;> simp_all [Operator.isAffirmative]
  | some field =>
      rw [hfield] at hrole
      cases hc : c.op <;> rw [hc] at hop hrole <;> cases hop <;>
      · obtain ⟨_, -, hrole⟩ := bind_eq_ok.mp hrole
        rw [← Except.ok.inj hrole]
        rfl

/-- A clause alone is a query in normal form, and one that includes is planned as it is. -/
theorem plan_clause {c : Clause} {lookup : Lookup}
    (h : context.clause c none = .ok (.includes lookup)) (conventions : Conventions) :
    context.plan ((Tree.clause c).simplify conventions) = .ok (lookup, none) := by
  have hroot : context.root (.clause c) = .ok lookup := bind_eq_ok.mpr ⟨_, h, rfl⟩
  exact bind_eq_ok.mpr ⟨lookup, hroot, rfl⟩

end PlanContext

/-! ### What a tree means -/

/-- What the meaning of a tree depends on. -/
structure Setting where
  adjacency : Connective
  context : PlanContext
  scope : Scope
  index : InvertedIndex

namespace Setting

variable (setting : Setting)

/-- The tree is planned as a lookup of the documents that it holds for. -/
def Plans (tree : Tree) (lookup : Lookup) : Prop :=
  setting.context.node setting.scope (tree.connect setting.adjacency) = .ok (.includes lookup)

/-- The tree can be planned. -/
def CanPlan (tree : Tree) : Prop := ∃ lookup, setting.Plans tree lookup

/-- The tree can be planned and its lookup finds the document. -/
def Finds (tree : Tree) (doc : DocId) : Prop :=
  ∃ lookup, setting.Plans tree lookup ∧ doc ∈ setting.index.evaluate lookup

variable {setting} {contentTypeField : String} {parts : List Tree} {lookups : List Lookup}

theorem Plans.finds_iff {tree : Tree} {lookup : Lookup} (h : setting.Plans tree lookup)
    (doc : DocId) : setting.Finds tree doc ↔ doc ∈ setting.index.evaluate lookup := by
  constructor
  · rintro ⟨other, hother, hdoc⟩
    have hsame : lookup = other := by
      have hrole := Except.ok.inj (h.symm.trans hother)
      simpa [Role.includes] using hrole
    rwa [hsame]
  · exact fun hdoc => ⟨lookup, h, hdoc⟩

theorem forall_finds (h : List.Forall₂ setting.Plans parts lookups) (doc : DocId) :
    (∀ lookup ∈ lookups, doc ∈ setting.index.evaluate lookup) ↔
      ∀ part ∈ parts, setting.Finds part doc := by
  induction h with
  | nil => simp
  | cons hfirst _ ih => rw [List.forall_mem_cons, List.forall_mem_cons, ih, hfirst.finds_iff]

theorem exists_finds (h : List.Forall₂ setting.Plans parts lookups) (doc : DocId) :
    (∃ lookup ∈ lookups, doc ∈ setting.index.evaluate lookup) ↔
      ∃ part ∈ parts, setting.Finds part doc := by
  induction h with
  | nil => simp
  | cons hfirst _ ih =>
      rw [List.exists_mem_cons_iff, List.exists_mem_cons_iff, ih, hfirst.finds_iff]

/-- An affirmative tree includes what it finds. -/
theorem plans_of_node {tree : Tree} (h : tree.isAffirmative contentTypeField = true) {role : Role}
    (hrole : setting.context.node setting.scope (tree.connect setting.adjacency) = .ok role) :
    setting.Plans tree role.lookup := by
  have hincludes : role.excludes = false := by
    cases tree with
    | clause c =>
        rw [Tree.connect, PlanContext.node] at hrole
        exact PlanContext.clause_includes h hrole
    | all parts tags =>
        rw [Tree.connect, PlanContext.node] at hrole
        obtain ⟨_, -, hrole⟩ := bind_eq_ok.mp hrole
        rw [← Except.ok.inj hrole]
        rfl
    | any parts tags =>
        rw [Tree.connect, PlanContext.node] at hrole
        obtain ⟨_, -, hrole⟩ := bind_eq_ok.mp hrole
        rw [← Except.ok.inj hrole]
        rfl
    | adjacent parts tags =>
        cases hadj : setting.adjacency <;>
        · rw [hadj, Tree.connect, PlanContext.node] at hrole
          obtain ⟨_, -, hrole⟩ := bind_eq_ok.mp hrole
          rw [← Except.ok.inj hrole]
          rfl
    | negated inner tags => simp [Tree.isAffirmative] at h
    | sorted inner keys tags => simp [Tree.isAffirmative] at h
  have heta : role = .includes role.lookup := by
    cases role
    simp_all [Role.includes]
  rw [Plans, hrole, ← heta]

/-- Affirmative parts are planned one by one. -/
theorem nodes_plans (h : ∀ part ∈ parts, part.isAffirmative contentTypeField = true)
    {roles : List Role} :
    setting.context.nodes setting.scope (Tree.connectAll setting.adjacency parts) = .ok roles ↔
      ∃ lookups, roles = lookups.map Role.includes ∧ List.Forall₂ setting.Plans parts lookups := by
  rw [PlanContext.nodes_eq_mapM, mapM_eq_ok, Tree.connectAll_eq_map, List.forall₂_map_left_iff]
  constructor
  · intro hroles
    induction hroles with
    | nil => exact ⟨[], rfl, .nil⟩
    | cons hfirst _ ih =>
        obtain ⟨haffirmative, hothers⟩ := List.forall_mem_cons.mp h
        obtain ⟨lookups, rfl, hplans⟩ := ih hothers
        have hplan := plans_of_node haffirmative hfirst
        have hrole := Except.ok.inj (hfirst.symm.trans hplan)
        exact ⟨_ :: lookups, by rw [List.map_cons, ← hrole], .cons hplan hplans⟩
  · rintro ⟨lookups, rfl, hplans⟩
    exact List.forall₂_map_right_iff.mpr hplans

/-- A node is planned by joining the lookups of its parts. -/
theorem joined_plans (h : ∀ part ∈ parts, part.isAffirmative contentTypeField = true)
    (join : List Lookup × List Lookup → Lookup) {lookup : Lookup} :
    (do
        let roles ← setting.context.nodes setting.scope (Tree.connectAll setting.adjacency parts)
        return Role.includes (join (PlanContext.split roles))) = Except.ok (.includes lookup) ↔
      ∃ lookups, List.Forall₂ setting.Plans parts lookups ∧ lookup = join (lookups, []) := by
  rw [bind_eq_ok]
  simp only [nodes_plans h]
  constructor
  · rintro ⟨_, ⟨lookups, rfl, hplans⟩, hlookup⟩
    rw [PlanContext.split_includes] at hlookup
    have hrole := Except.ok.inj hlookup
    exact ⟨lookups, hplans, by simpa [Role.includes] using hrole.symm⟩
  · rintro ⟨lookups, hplans, rfl⟩
    refine ⟨_, ⟨lookups, rfl, hplans⟩, ?_⟩
    rw [PlanContext.split_includes]
    rfl

theorem plans_all (h : ∀ part ∈ parts, part.isAffirmative contentTypeField = true)
    {lookup : Lookup} : setting.Plans (.all parts []) lookup ↔
      ∃ lookups, List.Forall₂ setting.Plans parts lookups ∧ lookup = .combine lookups [] [] := by
  have hscope : (Tags.contentTypes? [] <|> setting.scope) = setting.scope := rfl
  rw [Plans, Tree.connect, PlanContext.node, hscope]
  exact joined_plans h fun parts => .combine parts.1 [] parts.2

theorem plans_any (h : ∀ part ∈ parts, part.isAffirmative contentTypeField = true)
    {lookup : Lookup} : setting.Plans (.any parts []) lookup ↔
      ∃ lookups, List.Forall₂ setting.Plans parts lookups ∧ lookup = .combine [] lookups [] := by
  rw [Plans, Tree.connect, PlanContext.node]
  exact joined_plans h fun parts => .combine [] parts.1 parts.2

/-- A conjunction is planned if its parts are. -/
theorem canPlan_all (h : ∀ part ∈ parts, part.isAffirmative contentTypeField = true) :
    setting.CanPlan (.all parts []) ↔ ∀ part ∈ parts, setting.CanPlan part := by
  unfold CanPlan
  simp only [plans_all h, ← exists_forall₂]
  exact ⟨fun ⟨_, lookups, hplans, _⟩ => ⟨lookups, hplans⟩,
    fun ⟨lookups, hplans⟩ => ⟨_, lookups, hplans, rfl⟩⟩

/-- A disjunction is planned if its parts are. -/
theorem canPlan_any (h : ∀ part ∈ parts, part.isAffirmative contentTypeField = true) :
    setting.CanPlan (.any parts []) ↔ ∀ part ∈ parts, setting.CanPlan part := by
  unfold CanPlan
  simp only [plans_any h, ← exists_forall₂]
  exact ⟨fun ⟨_, lookups, hplans, _⟩ => ⟨lookups, hplans⟩,
    fun ⟨lookups, hplans⟩ => ⟨_, lookups, hplans, rfl⟩⟩

/-- A conjunction of some parts finds what they all find, and one of no parts finds nothing. -/
theorem finds_all (h : ∀ part ∈ parts, part.isAffirmative contentTypeField = true)
    (hplan : ∀ part ∈ parts, setting.CanPlan part) (doc : DocId) :
    setting.Finds (.all parts []) doc ↔ parts ≠ [] ∧ ∀ part ∈ parts, setting.Finds part doc := by
  obtain ⟨lookups, hplans⟩ := exists_forall₂.mpr hplan
  rw [((plans_all h).mpr ⟨lookups, hplans, rfl⟩).finds_iff]
  cases hplans with
  | nil => simp [InvertedIndex.mem_evaluate_combine_nil]
  | cons hfirst hrest =>
      rw [InvertedIndex.mem_evaluate_combine (List.cons_ne_nil _ _),
        forall_finds (.cons hfirst hrest)]
      simp

/-- A disjunction finds what some part of it finds. -/
theorem finds_any (h : ∀ part ∈ parts, part.isAffirmative contentTypeField = true)
    (hplan : ∀ part ∈ parts, setting.CanPlan part) (doc : DocId) :
    setting.Finds (.any parts []) doc ↔ ∃ part ∈ parts, setting.Finds part doc := by
  obtain ⟨lookups, hplans⟩ := exists_forall₂.mpr hplan
  rw [((plans_any h).mpr ⟨lookups, hplans, rfl⟩).finds_iff,
    InvertedIndex.mem_evaluate_combine_nil, exists_finds hplans]
  simp

/-! ### Clauses that ask for values -/

variable (setting) in
/-- A field can be looked up for a value. -/
def CanLookUp (field : String) (value : Value) : Prop :=
  ∃ lookup, setting.context.exact field value setting.scope = .ok lookup

variable (setting) in
/-- A field can be looked up for a value, and the document has it. -/
def Has (field : String) (value : Value) (doc : DocId) : Prop :=
  ∃ lookup, setting.context.exact field value setting.scope = .ok lookup ∧
    doc ∈ setting.index.evaluate lookup

variable (setting) in
/-- A tree can be planned and finds the documents that have one of the values. -/
structure AsksFor (tree : Tree) (field : String) (values : List Value) : Prop where
  canLookUp : ∀ value ∈ values, setting.CanLookUp field value
  canPlan : setting.CanPlan tree
  finds_iff : ∀ doc, setting.Finds tree doc ↔ ∃ value ∈ values, setting.Has field value doc

variable {field : String}

theorem has_iff {value : Value} {lookup : Lookup}
    (h : setting.context.exact field value setting.scope = .ok lookup) (doc : DocId) :
    setting.Has field value doc ↔ doc ∈ setting.index.evaluate lookup := by
  simp [Has, h]

theorem exists_has {values : List Value}
    (h : List.Forall₂ (fun value lookup =>
      setting.context.exact field value setting.scope = .ok lookup) values lookups) (doc : DocId) :
    (∃ lookup ∈ lookups, doc ∈ setting.index.evaluate lookup) ↔
      ∃ value ∈ values, setting.Has field value doc := by
  induction h with
  | nil => simp
  | cons hfirst _ ih =>
      rw [List.exists_mem_cons_iff, List.exists_mem_cons_iff, ih, has_iff hfirst]

/-- A list of values that can each be looked up is asked for by one clause. -/
theorem asksFor_oneOf {values : List Value} {tags : Tags}
    (h : ∀ value ∈ values, setting.CanLookUp field value) :
    setting.AsksFor (.clause ⟨some field, .oneOf, .list values, tags⟩) field values := by
  obtain ⟨lookups, hlookups⟩ := exists_forall₂.mpr h
  have hplan : setting.Plans (.clause ⟨some field, .oneOf, .list values, tags⟩)
      (.anyOf lookups) := by
    rw [Plans, Tree.connect, PlanContext.node]
    simp only [PlanContext.clause, PlanContext.anyOf, mapM_eq_ok.mpr hlookups]
    rfl
  refine ⟨h, ⟨_, hplan⟩, fun doc => ?_⟩
  rw [hplan.finds_iff, InvertedIndex.mem_evaluate_anyOf, exists_has hlookups]

/-- Lists cannot be looked up as one value. -/
theorem scalars_of_canLookUp {value : Value} (h : setting.CanLookUp field value) :
    value.scalars = [value] := by
  obtain ⟨lookup, hlookup⟩ := h
  cases value <;> first | rfl | cases hlookup

theorem scalarsOfAll_of_canLookUp {values : List Value}
    (h : ∀ value ∈ values, setting.CanLookUp field value) :
    Value.scalarsOfAll values = values := by
  induction values with
  | nil => rfl
  | cons value rest ih =>
      obtain ⟨hfirst, hrest⟩ := List.forall_mem_cons.mp h
      rw [Value.scalarsOfAll, scalars_of_canLookUp hfirst, ih hrest, List.singleton_append]

/-- A clause that asks for values asks for its scalars. -/
theorem asksFor_of_positive {c : Clause} (hfield : c.field = some field)
    (hop : Tree.isPositive c.op = true) (hplan : setting.CanPlan (.clause c)) :
    setting.AsksFor (.clause c) field c.value.scalars := by
  obtain ⟨lookup, hlookup⟩ := id hplan
  have hclause : setting.context.clause c setting.scope = .ok (.includes lookup) := by
    rw [Plans, Tree.connect, PlanContext.node] at hlookup
    exact hlookup
  obtain ⟨_, op, value, tags⟩ := c
  obtain rfl := hfield
  have hsingle : (do return Role.includes (← setting.context.exact field value setting.scope))
      = Except.ok (Role.includes lookup) →
        setting.AsksFor (.clause ⟨some field, op, value, tags⟩) field value.scalars := by
    intro hrole
    obtain ⟨_, hexact, hret⟩ := bind_eq_ok.mp hrole
    obtain rfl : _ = lookup := by simpa [Role.includes] using Except.ok.inj hret
    rw [scalars_of_canLookUp ⟨_, hexact⟩]
    refine ⟨by simpa using ⟨_, hexact⟩, hplan, fun doc => ?_⟩
    rw [hlookup.finds_iff, List.exists_mem_cons_iff, has_iff hexact]
    simp
  cases op with
  | plain => exact hsingle hclause
  | equals => exact hsingle hclause
  | oneOf =>
      obtain ⟨_, hany, -⟩ := bind_eq_ok.mp hclause
      cases value with
      | list values =>
          obtain ⟨_, hlookups, -⟩ := bind_eq_ok.mp hany
          have hvalues := exists_mapM_ok.mp ⟨_, hlookups⟩
          rw [Value.scalars, scalarsOfAll_of_canLookUp hvalues]
          exact asksFor_oneOf hvalues
      | _ => cases hany
  | _ => cases hop

end Setting

end Query

end DocIndex
