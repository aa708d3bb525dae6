/-
Where lists stand, and that a plan never misses or meets one.

A list of values belongs to the operators that look for one of several values, and nowhere else.
The grammar puts it there.  Merging alternatives moves values, but it makes its lists of scalars
and puts them behind the same operators, so every simplified tree still has its lists in place;
and how adjacent queries are connected is decided in the first rule of each round.  So three of
the ways in which a clause or a node could fail to be planned never happen to the tree of a text.
-/
import DocIndex.Proofs.Query.Planning
import DocIndex.Proofs.Query.Rereading
import DocIndex.Proofs.Query.NormalForm

namespace DocIndex

namespace Query

/-! ### Lists in their place -/

/-- Whether an operator looks for one of several values. -/
def Operator.takesList : Operator → Bool
  | .oneOf | .noneOf => true
  | _ => false

/-- A clause with a list exactly if its operator takes one, on a field and without lists in it. -/
structure Clause.ListsInPlace (c : Clause) : Prop where
  placed : c.op.takesList = !c.value.isScalar
  named : c.value.isScalar = false → c.field.isSome = true
  flat : ∀ item ∈ c.value.items, item.isScalar = true

/-- A scalar behind an operator that takes one is in place, on a field or on none. -/
theorem Clause.listsInPlace_scalar {c : Clause} (hop : c.op.takesList = false)
    (hvalue : c.value.isScalar = true) : c.ListsInPlace where
  placed := by rw [hop, hvalue]; rfl
  named := fun hlist => by rw [hvalue] at hlist; cases hlist
  flat := by
    intro item hitem
    cases hc : c.value with
    | list values =>
        rw [hc] at hvalue
        cases hvalue
    | _ =>
        rw [hc] at hitem
        obtain rfl := List.mem_singleton.mp hitem
        rfl

/-- A list of scalars behind an operator that takes one is in place on a field. -/
theorem Clause.listsInPlace_list {field : Option String} {op : Operator} {values : List Value}
    {tags : Tags} (hfield : field.isSome = true) (hop : op.takesList = true)
    (hvalues : ∀ value ∈ values, value.isScalar = true) :
    Clause.ListsInPlace ⟨field, op, .list values, tags⟩ :=
  ⟨hop, fun _ => hfield, hvalues⟩

namespace Tree

/-- A node whose connective is decided, with its list in place if it is a clause. -/
def InPlace : Tree → Prop
  | clause c => c.ListsInPlace
  | adjacent _ _ => False
  | _ => True

/-! ### What the grammar puts in place -/

section Grammar

open Grammar

theorem isScalar_literal (literal : Literal) : literal.value.isScalar = true :=
  @Value.isScalar_of_mem_scalars literal.value _
    (by rw [Parser.scalars_literal]; exact List.mem_singleton_self _)

/-- Tokens whose operators take no list derive a tree that has its lists in place. -/
def Places (tokens : List Token) (tree : Tree) : Prop :=
  (∀ op, .operator op ∈ tokens → op.takesList = false) →
    ∀ c, Within (clause c) tree → c.ListsInPlace

theorem within_clause {node : Tree} {c : Clause} (h : Within node (clause c)) :
    node = clause c := by
  cases h with
  | root => rfl
  | part hpart _ => exact absurd hpart List.not_mem_nil

theorem Within.in_part {node tree : Tree} (h : Within node tree) (hne : tree ≠ node) :
    ∃ part ∈ tree.parts, Within node part := by
  cases h with
  | root => exact absurd rfl hne
  | part hpart hin => exact ⟨_, hpart, hin⟩

theorem keptByChains_places {node : List Tree → Tags → Tree}
    (hparts : ∀ trees tags, (node trees tags).parts = trees)
    (hnode : ∀ trees tags c, node trees tags ≠ clause c) (between : List Token) :
    KeptByChains Places between node := by
  intro α yield meaning item rest hitems hops c hc
  obtain ⟨part, hpart, hin⟩ := hc.in_part (hnode _ _ c)
  rw [Chain.tree, hparts, ← List.map_cons] at hpart
  obtain ⟨a, ha, rfl⟩ := List.mem_map.mp hpart
  exact hitems a ha (fun op hop => hops op ((Chain.yield_sublist ha).subset hop)) c hin

theorem places_comparison (field : String) (how : Comparison) (literal : Literal) :
    Places (.word field :: (how.tokens ++ literal.tokens))
      (.compare field how.op literal.value) := by
  intro hops c hc
  obtain rfl := clause.inj (within_clause hc)
  refine Clause.listsInPlace_scalar ?_ (isScalar_literal literal)
  cases how with
  | operator op => exact hops op (by simp [Comparison.tokens])
  | colon => rfl

theorem places_membership (field : String) (how : Membership) (values : Chain Literal) :
    Places (.word field :: (how.tokens ++ listTokens values))
      (.compare field how.op (.list (values.items.map Literal.value))) := by
  intro _ c hc
  obtain rfl := clause.inj (within_clause hc)
  refine Clause.listsInPlace_list rfl (by cases how <;> rfl) fun value hvalue => ?_
  obtain ⟨literal, -, rfl⟩ := List.mem_map.mp hvalue
  exact isScalar_literal literal

theorem compositional_places : Compositional Places where
  negated := by
    intro tokens tree h hops c hc
    obtain ⟨part, hpart, hin⟩ := hc.in_part nofun
    obtain rfl := List.mem_singleton.mp hpart
    exact h (fun op hop => hops op (List.mem_cons_of_mem _ hop)) c hin
  group := fun h hops => h fun op hop =>
    hops op (List.mem_cons_of_mem _ (List.mem_append_left _ hop))
  comparison := places_comparison
  membership := places_membership
  value := by
    intro literal _ c hc
    obtain rfl := clause.inj (within_clause hc)
    exact Clause.listsInPlace_scalar rfl (isScalar_literal literal)
  adjacent := keptByChains_places (fun _ _ => rfl) (fun _ _ _ h => by cases h) []
  all := keptByChains_places (fun _ _ => rfl) (fun _ _ _ h => by cases h) [.andWord]
  any := keptByChains_places (fun _ _ => rfl) (fun _ _ _ h => by cases h) [.orWord]

/-- An order adds no clause to a query. -/
theorem within_ordered {c : Clause} {tree : Tree} {order : Option (Chain SortItem)}
    (h : Within (clause c) (ordered tree order)) : Within (clause c) tree := by
  cases order with
  | none => exact h
  | some order =>
      obtain ⟨part, hpart, hin⟩ := h.in_part nofun
      obtain rfl := List.mem_singleton.mp hpart
      exact hin

theorem takesList_of_isSign {op : Operator} : Lexer.isSign op = true → op.takesList = false := by
  cases op <;> decide

/-- No operator that is read as a token takes a list. -/
theorem takesList_of_tokenize {text : String} {tokens : List PlacedToken}
    (h : tokenize text = .ok tokens) {op : Operator} (hop : .operator op ∈ Parser.kinds tokens) :
    op.takesList = false := by
  have hread : ∀ {text : List Char} {token : Token} {rest : List Char},
      Lexer.Reading text token rest → ∀ op, token = .operator op → op.takesList = false := by
    intro text token rest hreading op hop
    cases hreading with
    | phrase _ => cases hop
    | mark hmark =>
        subst hop
        simp [Lexer.marks] at hmark
    | sign hsign =>
        obtain rfl := Token.operator.inj hop
        exact takesList_of_isSign hsign
    | date hdate =>
        obtain ⟨m, precision, rfl, -⟩ := Lexer.readDate?_time hdate
        cases hop
    | run hrun =>
        rcases Lexer.readRun_cases hrun with ⟨t, htoken, -⟩ | ⟨n, htoken, -⟩ | ⟨x, htoken⟩ | htoken
        · cases htoken.symm.trans hop
        · cases htoken.symm.trans hop
        · cases htoken.symm.trans hop
        · rename_i run _ _ _
          rcases Lexer.keywordOrWord_cases run with hword | hkeyword
          · cases hword.symm.trans (htoken.symm.trans hop)
          · rw [← htoken, hop] at hkeyword
            simp [Lexer.keywords] at hkeyword
  exact Lexer.forall_of_scan hread h _ hop op rfl

/-- **What a text is parsed to has its lists in place.** -/
theorem listsInPlace_of_parse {text : String} {tree : Tree} (h : Tree.parse text = .ok tree) :
    ∀ c, Within (clause c) tree → c.ListsInPlace := by
  obtain ⟨tokens, htokens, hparse⟩ := bind_eq_ok.mp h
  obtain ⟨sentence, hsentence, rfl⟩ := ofTokens_eq_ok.mp hparse
  intro c hc
  cases sentence with
  | orderAlone order =>
      have hin : Within (clause c) everything := @within_ordered c everything (some order) hc
      obtain rfl := clause.inj (within_clause hin)
      exact Clause.listsInPlace_scalar rfl rfl
  | found query order =>
      refine compositional_places.disjunction query (fun op hop => ?_) c (within_ordered hc)
      refine takesList_of_tokenize htokens ?_
      rw [← hsentence]
      exact List.mem_append_left _ hop

end Grammar

/-! ### What the rules keep in place -/

/-- Clauses of a kind on one field are merged into one with a list in place. -/
theorem listsInPlace_mergeKind {kind : Operator → Bool} {op : Operator}
    (hop : op.takesList = true) {group : List Tree} (hgroup : IsGroup group)
    (h : ∀ c, clause c ∈ group → c.ListsInPlace) :
    ∀ c, clause c ∈ mergeKind kind op group → c.ListsInPlace := by
  intro c hc
  by_cases hfew : kindCount kind group < 2
  · rw [mergeKind_of_few hfew] at hc
    exact h c hc
  · rw [mergeKind_of_many hfew] at hc
    rcases mem_mergeAtFirst hc with hold | ⟨d, hd, heq⟩
    · exact h c hold
    · obtain rfl := clause.inj heq
      refine Clause.listsInPlace_list ?_ hop fun value hvalue => ?_
      · rcases hgroup with ⟨tree, rfl, -⟩ | ⟨name, -, hname⟩
        · have hone : kindCount kind [tree] ≤ [tree].length := List.length_filterMap_le _ _
          exact absurd (Nat.lt_succ_of_le hone) hfew
        · have hfield : d.field = some name := hname _ hd
          rw [hfield]
          rfl
      · obtain ⟨_, -, -, hscalar⟩ := mem_mergedValues hvalue
        exact Value.isScalar_of_mem_scalars hscalar

theorem listsInPlace_regroup {parts : List Tree}
    (h : ∀ part ∈ parts, Everywhere InPlace part) {c : Clause} (hc : clause c ∈ regroup parts) :
    c.ListsInPlace := by
  obtain ⟨group, hgroup, hin⟩ := List.mem_flatMap.mp hc
  have hisGroup := (grouped_groupByField parts).isGroup group hgroup
  have hold : ∀ c, clause c ∈ group → c.ListsInPlace := fun c hc =>
    h _ (mem_flatten_groupByField.mp (List.mem_flatten.mpr ⟨group, hgroup, hc⟩)) _ (.root _)
  exact listsInPlace_mergeKind rfl (isGroup_mergeKind hisGroup)
    (listsInPlace_mergeKind rfl hisGroup hold) c hin

/-- Every rule keeps a tree in place. -/
theorem inPlace_after {conventions : Conventions} {rule : Tree → Option Tree}
    (hrule : rule ∈ rules conventions) {tree : Tree} (h : Everywhere InPlace tree) :
    Everywhere InPlace (after rule tree) := by
  refine everywhere_iff.mpr
    ⟨?_, below_after (fun hparts _ hc => listsInPlace_regroup hparts hc) hrule
      (everywhere_iff.mp h).2⟩
  rcases after_root hrule tree with ⟨parts, tags, hall | hany⟩ | hnode
  · rw [hall]
    trivial
  · rw [hany]
    trivial
  · exact h _ hnode

/-- The first rule decides how adjacent queries are connected. -/
theorem inPlace_resolveAdjacency {conventions : Conventions} {tree : Tree}
    (hnode : ∀ c, tree ≠ clause c) (h : Below InPlace tree) :
    Everywhere InPlace (after (resolveAdjacency conventions.adjacency) tree) := by
  have hrule : resolveAdjacency conventions.adjacency ∈ rules conventions := by simp [rules]
  refine everywhere_iff.mpr ⟨?_, below_after (fun hparts _ hc => listsInPlace_regroup hparts hc)
    hrule h⟩
  cases tree with
  | clause c => exact absurd rfl (hnode c)
  | adjacent parts tags => cases hadj : conventions.adjacency <;> trivial
  | _ => trivial

theorem givenByRounds_inPlace (conventions : Conventions) :
    GivenByRounds conventions InPlace := by
  intro tree hnode h
  have hrules : ∀ rule ∈ rules conventions, ∀ {tree : Tree}, Everywhere InPlace tree →
      Everywhere InPlace (after rule tree) := fun rule hrule tree => inPlace_after hrule
  simp only [rules, List.forall_mem_cons] at hrules
  obtain ⟨-, hcancel, hgroup, hunwrap, hscope, -⟩ := hrules
  exact hscope (hunwrap (hgroup (hcancel (inPlace_resolveAdjacency hnode h))))

end Tree

end Query

/-! ### What a plan fails with -/

/-- An error that tells of a list out of its place, or of a connective that is not decided. -/
def Error.isMisplaced : Error → Bool
  | .undecidedAdjacency | .listRequired _ _ _ | .listNotAllowed _ => true
  | _ => false

namespace Query

/-- A computation that fails for other reasons, if it fails. -/
def WellPlaced {α : Type} (result : Except Error α) : Prop :=
  ∀ e, result = .error e → e.isMisplaced = false

namespace WellPlaced

variable {α β : Type}

theorem ok (a : α) : WellPlaced (.ok a : Except Error α) := nofun

theorem bind {first : Except Error α} {second : α → Except Error β} (h : WellPlaced first)
    (hsecond : ∀ a, WellPlaced (second a)) : WellPlaced (first >>= second) := by
  intro e he
  rcases bind_eq_error.mp he with hfirst | ⟨a, -, hrest⟩
  · exact h e hfirst
  · exact hsecond a e hrest

theorem mapM {step : α → Except Error β} {items : List α}
    (h : ∀ item ∈ items, WellPlaced (step item)) : WellPlaced (items.mapM step) := by
  intro e he
  obtain ⟨item, hitem, hstep⟩ := exists_of_mapM_eq_error he
  exact h item hitem e hstep

end WellPlaced

namespace PlanContext

variable {context : PlanContext} {scope : Scope} {field : String} {value : Value} {op : Operator}

/-- Only an analyzer can be missing for a text. -/
theorem wellPlaced_analysed (text : String) (slop : Nat) :
    WellPlaced (context.analysed field text slop scope) := by
  refine WellPlaced.bind ?_ fun terms => ?_
  · unfold textTerms
    split
    · exact .ok _
    · split
      · exact fun e he => by cases he; rfl
      · exact .ok _
  · split <;> exact .ok _

theorem wellPlaced_numberLookup (asKind : FieldKind → Numeric) :
    WellPlaced (context.numberLookup field value asKind scope) := by
  unfold numberLookup
  split
  · exact .ok _
  · exact wellPlaced_analysed _ _

/-- No scalar is a list where none is allowed. -/
theorem wellPlaced_exact (h : value.isScalar = true) :
    WellPlaced (context.exact field value scope) := by
  unfold exact
  split
  · split <;> exact .ok _
  · cases value with
    | word text => exact wellPlaced_analysed _ _
    | phrase text => exact wellPlaced_analysed _ _
    | wildcard pattern => exact .ok _
    | integer n => exact wellPlaced_numberLookup _
    | number x => exact wellPlaced_numberLookup _
    | everything =>
        simp only
        split <;> exact .ok _
    | list values => cases h
    | time m precision => exact fun e he => by cases he; rfl
    | relative t => exact fun e he => by cases he; rfl

theorem wellPlaced_range (side : Side) : WellPlaced (context.range field value side scope) := by
  unfold range
  split
  · exact .ok _
  · split
    case h_5 => exact fun e he => by cases he; rfl
    all_goals exact .ok _

theorem wellPlaced_similar : WellPlaced (context.similar field value scope) := by
  unfold similar
  split
  case h_5 => exact fun e he => by cases he; rfl
  all_goals exact .ok _

/-- A list of scalars is there where one is required. -/
theorem wellPlaced_anyOf (hlist : value.isScalar = false)
    (hflat : ∀ item ∈ value.items, item.isScalar = true) :
    WellPlaced (context.anyOf field op value scope) := by
  cases value with
  | list values =>
      exact .bind (.mapM fun item hitem => wellPlaced_exact (hflat item hitem)) fun _ => .ok _
  | _ => cases hlist

theorem wellPlaced_anywhere (h : value.isScalar = true) :
    WellPlaced (context.anywhere op value scope) := by
  unfold anywhere
  split
  · exact .ok _
  · exact .bind (.mapM fun _ _ => wellPlaced_exact h) fun _ => .ok _

/-- A clause with its list in place is not planned with a list missing or to spare. -/
theorem wellPlaced_clause {c : Clause} (h : c.ListsInPlace) :
    WellPlaced (context.clause c scope) := by
  obtain ⟨field?, op, value, tags⟩ := c
  obtain ⟨hplaced, hnamed, hflat⟩ := h
  cases field? with
  | none =>
      refine wellPlaced_anywhere ?_
      by_contra hlist
      cases hnamed (Bool.eq_false_iff.mpr hlist)
  | some field =>
      have hscalar : op.takesList = false → value.isScalar = true := fun hop => by
        rwa [hop, eq_comm, Bool.not_eq_false'] at hplaced
      have hlist : op.takesList = true → value.isScalar = false := fun hop => by
        rwa [hop, eq_comm, Bool.not_eq_true'] at hplaced
      cases op with
      | plain | equals | notEquals =>
          exact .bind (wellPlaced_exact (hscalar rfl)) fun _ => .ok _
      | oneOf | noneOf => exact .bind (wellPlaced_anyOf (hlist rfl) hflat) fun _ => .ok _
      | greater | greaterOrEqual | less | lessOrEqual =>
          exact .bind (wellPlaced_range _) fun _ => .ok _
      | similar | notSimilar => exact .bind wellPlaced_similar fun _ => .ok _

end PlanContext

namespace Tree

open PlanContext (wellPlaced_clause)

variable {context : PlanContext}

mutual

/-- A tree in place is not planned with anything out of place. -/
theorem wellPlaced_node : ∀ {tree : Tree}, Everywhere InPlace tree → ∀ scope,
    WellPlaced (context.node scope tree)
  | clause _, h, _ => wellPlaced_clause (h _ (.root _))
  | all _ _, h, _ => .bind (wellPlaced_nodes (everywhere_iff.mp h).2 _) fun _ => .ok _
  | any _ _, h, _ => .bind (wellPlaced_nodes (everywhere_iff.mp h).2 _) fun _ => .ok _
  | adjacent _ _, h, _ => (h _ (.root _)).elim
  | negated inner _, h, scope =>
      .bind (wellPlaced_node ((everywhere_iff.mp h).2 inner List.mem_cons_self) scope)
        fun _ => .ok _
  | sorted inner _ _, h, scope =>
      wellPlaced_node ((everywhere_iff.mp h).2 inner List.mem_cons_self) scope

theorem wellPlaced_nodes : ∀ {trees : List Tree}, (∀ tree ∈ trees, Everywhere InPlace tree) →
    ∀ scope, WellPlaced (context.nodes scope trees)
  | [], _, _ => .ok _
  | _ :: _, h, scope => by
      obtain ⟨hfirst, hrest⟩ := List.forall_mem_cons.mp h
      exact .bind (wellPlaced_node hfirst scope) fun _ =>
        .bind (wellPlaced_nodes hrest scope) fun _ => .ok _

end

theorem wellPlaced_plan {tree : Tree} (h : Everywhere InPlace tree) :
    WellPlaced (context.plan tree) := by
  have hroot : ∀ {tree : Tree}, Everywhere InPlace tree → WellPlaced (context.root tree) :=
    fun h => .bind (wellPlaced_node h none) fun _ => .ok _
  cases tree with
  | sorted inner keys tags =>
      exact .bind (hroot ((everywhere_iff.mp h).2 inner List.mem_cons_self)) fun _ => .ok _
  | _ => exact .bind (hroot h) fun _ => .ok _

/--
**Nothing is out of place in a simplified query.**  For every text that is parsed, how adjacent
queries are connected is decided everywhere in the simplified tree, lists of scalars stand behind
the operators that take one and nowhere else, and a plan of the tree never fails because of
either, whatever is known of the fields.
-/
theorem simplify_inPlace {text : String} {tree : Tree} (h : Tree.parse text = .ok tree)
    (conventions : Conventions) :
    (∀ parts tags, ¬Within (adjacent parts tags) (simplify conventions tree)) ∧
      (∀ c, Within (clause c) (simplify conventions tree) →
        if c.op.takesList then
          c.field.isSome = true ∧ ∃ items, c.value = .list items ∧
            ∀ item ∈ items, item.isScalar = true
        else c.value.isScalar = true) ∧
      ∀ (context : PlanContext) (e : Error),
        context.plan (simplify conventions tree) = .error e → e.isMisplaced = false := by
  have hsimple : Everywhere InPlace (simplify conventions tree) :=
    (givenByRounds_inPlace conventions).simplify (listsInPlace_of_parse h)
  refine ⟨fun _ _ hnode => hsimple _ hnode, ?_, fun context => wellPlaced_plan hsimple⟩
  intro c hc
  obtain ⟨hplaced, hnamed, hflat⟩ : c.ListsInPlace := hsimple _ hc
  by_cases hop : c.op.takesList = true
  · rw [if_pos hop]
    rw [hop] at hplaced
    cases hvalue : c.value with
    | list items =>
        rw [hvalue] at hnamed hflat
        exact ⟨hnamed rfl, items, rfl, hflat⟩
    | _ =>
        rw [hvalue] at hplaced
        cases hplaced
  · rw [if_neg hop]
    rw [Bool.eq_false_iff.mpr hop] at hplaced
    cases hvalue : c.value.isScalar with
    | true => rfl
    | false =>
        rw [hvalue] at hplaced
        cases hplaced

/-- Two clauses on one field beside two queries with nothing between them. -/
def alternativesText : String := "b = y OR b IN (z, 1) OR c d"

def alternatives : Tree :=
  .any [.compare "b" .equals (.word "y"), .compare "b" .oneOf (.list [.word "z", .integer 1]),
    .adjacent [.anywhere (.word "c"), .anywhere (.word "d")] []] []

theorem simplify_inPlace_alternatives :
    Tree.parse alternativesText = .ok alternatives ∧
      simplify ⟨.and, "$contentType"⟩ alternatives
        = .any [.compare "b" .oneOf (.list [.word "y", .word "z", .integer 1]),
            .all [.anywhere (.word "c"), .anywhere (.word "d")] []] [] ∧
      ∀ (context : PlanContext) (e : Error),
        context.plan (simplify ⟨.and, "$contentType"⟩ alternatives) = .error e →
          e.isMisplaced = false := by
  have htokens : tokenize alternativesText = .ok [⟨.word "b", 0⟩, ⟨.operator .equals, 2⟩,
      ⟨.word "y", 4⟩, ⟨.orWord, 6⟩, ⟨.word "b", 9⟩, ⟨.inWord, 11⟩, ⟨.openParen, 14⟩,
      ⟨.word "z", 15⟩, ⟨.comma, 16⟩, ⟨.integer 1, 18⟩, ⟨.closeParen, 19⟩, ⟨.orWord, 21⟩,
      ⟨.word "c", 24⟩, ⟨.word "d", 26⟩] := by decide +kernel
  have hparse : Tree.parse alternativesText = .ok alternatives :=
    bind_eq_ok.mpr ⟨_, htokens, rfl⟩
  exact ⟨hparse, rfl, (simplify_inPlace hparse ⟨.and, "$contentType"⟩).2.2⟩

end Tree

end Query

end DocIndex
