/-
The derivations of the grammar of queries.

    query    := ORDER BY order | or [ORDER BY order]
    order    := WORD [ASC | DESC] (',' WORD [ASC | DESC])*
    or       := and (OR and)*
    and      := adjacent (AND adjacent)*
    adjacent := unary unary*
    unary    := NOT unary | primary
    primary  := '(' or ')' | WORD op value | WORD [NOT] IN list | value
    list     := '(' value (',' value)* ')'

A derivation is a tree with a constructor for each alternative.  It has a yield, which are the
tokens that it derives, and a meaning, which is the query tree that it stands for.  No two
derivations have the same yield.  Within a longer text this depends on what follows: a word is
not yet a primary if an operator follows, and a chain is not at its end if its separator
follows.  So each kind of derivation comes with what may follow it, and then what is derived
from the front of a list, and what is left of it, are both determined.
-/
import DocIndex.Query.Tree.Parser

namespace DocIndex.Query.Grammar

open Query.Parser (valueOf? startsUnary)

/-! ### Derivations -/

/-- A token that stands for a value. -/
def Literal : Type := { token : Token // (valueOf? token).isSome = true }

/-- One or more items. -/
inductive Chain (α : Type) where
  | last (item : α)
  | more (item : α) (rest : Chain α)

/-- What stands between a field and the value it is compared with; a colon asks for equality. -/
inductive Comparison where
  | operator (op : Operator)
  | colon

/-- What stands between a field and a list of values. -/
inductive Membership where
  | within
  | outside

mutual

/-- `NOT unary | primary` -/
inductive Unary where
  | negated (inner : Unary)
  | plain (inner : Primary)

/-- `'(' or ')' | WORD op value | WORD [NOT] IN list | value` -/
inductive Primary where
  | group (inner : Chain (Chain (Chain Unary)))
  | comparison (field : String) (how : Comparison) (value : Literal)
  | membership (field : String) (how : Membership) (values : Chain Literal)
  | value (value : Literal)

end

/-- `unary unary*` -/
abbrev Adjacency := Chain Unary

/-- `adjacent (AND adjacent)*` -/
abbrev Conjunction := Chain Adjacency

/-- `and (OR and)*` -/
abbrev Disjunction := Chain Conjunction

/-- Which way a field is sorted, if the query says so. -/
inductive Direction where
  | unsaid
  | ascending
  | descending

/-- `WORD [ASC | DESC]` -/
structure SortItem where
  field : String
  direction : Direction

/-- `ORDER BY order | or [ORDER BY order]` -/
inductive Sentence where
  | orderAlone (order : Chain SortItem)
  | found (query : Disjunction) (order : Option (Chain SortItem))

/-! ### Yields -/

/-- The tokens of the items with the separator between them. -/
def Chain.tokens {α : Type} (separator : List Token) (yield : α → List Token) :
    Chain α → List Token
  | .last item => yield item
  | .more item rest => yield item ++ (separator ++ rest.tokens separator yield)

def Literal.tokens (literal : Literal) : List Token := [literal.1]

def Comparison.tokens : Comparison → List Token
  | .operator op => [.operator op]
  | .colon => [.colon]

def Membership.tokens : Membership → List Token
  | .within => [.inWord]
  | .outside => [.notWord, .inWord]

/-- The tokens of a list after its opening parenthesis. -/
def listEnd (values : Chain Literal) : List Token :=
  values.tokens [.comma] Literal.tokens ++ [.closeParen]

def listTokens (values : Chain Literal) : List Token := .openParen :: listEnd values

mutual

def Unary.tokens : Unary → List Token
  | .negated inner => .notWord :: inner.tokens
  | .plain inner => inner.tokens

def Primary.tokens : Primary → List Token
  | .group inner => .openParen :: (Disjunction.tokens inner ++ [.closeParen])
  | .comparison field how value => .word field :: (how.tokens ++ value.tokens)
  | .membership field how values => .word field :: (how.tokens ++ listTokens values)
  | .value value => value.tokens

def Disjunction.tokens : Disjunction → List Token
  | .last item => Conjunction.tokens item
  | .more item rest => Conjunction.tokens item ++ ([.orWord] ++ Disjunction.tokens rest)

def Conjunction.tokens : Conjunction → List Token
  | .last item => Adjacency.tokens item
  | .more item rest => Adjacency.tokens item ++ ([.andWord] ++ Conjunction.tokens rest)

def Adjacency.tokens : Adjacency → List Token
  | .last item => item.tokens
  | .more item rest => item.tokens ++ ([] ++ Adjacency.tokens rest)

end

def Direction.tokens : Direction → List Token
  | .unsaid => []
  | .ascending => [.ascWord]
  | .descending => [.descWord]

def SortItem.tokens (item : SortItem) : List Token := .word item.field :: item.direction.tokens

/-- The tokens of an order with its keywords. -/
def orderTokens (order : Chain SortItem) : List Token :=
  .orderWord :: .byWord :: order.tokens [.comma] SortItem.tokens

def Sentence.tokens : Sentence → List Token
  | .orderAlone order => orderTokens order
  | .found query order => Disjunction.tokens query ++ order.elim [] orderTokens

theorem Adjacency.tokens_eq (items : Adjacency) :
    Adjacency.tokens items = Chain.tokens [] Unary.tokens items := by
  induction items with
  | last item => rw [Adjacency.tokens, Chain.tokens]
  | more item rest ih => rw [Adjacency.tokens, Chain.tokens, ih]

theorem Conjunction.tokens_eq (items : Conjunction) :
    Conjunction.tokens items = Chain.tokens [.andWord] Adjacency.tokens items := by
  induction items with
  | last item => rw [Conjunction.tokens, Chain.tokens]
  | more item rest ih => rw [Conjunction.tokens, Chain.tokens, ih]

theorem Disjunction.tokens_eq (items : Disjunction) :
    Disjunction.tokens items = Chain.tokens [.orWord] Conjunction.tokens items := by
  induction items with
  | last item => rw [Disjunction.tokens, Chain.tokens]
  | more item rest ih => rw [Disjunction.tokens, Chain.tokens, ih]

/-! ### Meanings -/

/-- The items from the first to the last. -/
def Chain.items {α : Type} : Chain α → List α
  | .last item => [item]
  | .more item rest => item :: rest.items

/-- A single item adds no node, several are put under one. -/
def Chain.tree {α : Type} (node : List Tree → Tags → Tree) (meaning : α → Tree) : Chain α → Tree
  | .last item => meaning item
  | .more item rest => node (meaning item :: rest.items.map meaning) []

/-- The value that a literal stands for. -/
def Literal.value (literal : Literal) : Value := (valueOf? literal.1).get literal.2

def Comparison.op : Comparison → Operator
  | .operator op => op
  | .colon => .equals

def Membership.op : Membership → Operator
  | .within => .oneOf
  | .outside => .noneOf

mutual

def Unary.tree : Unary → Tree
  | .negated inner => .negated inner.tree []
  | .plain inner => inner.tree

/-- Parentheses add no node. -/
def Primary.tree : Primary → Tree
  | .group inner => Disjunction.tree inner
  | .comparison field how value => .compare field how.op value.value
  | .membership field how values => .compare field how.op (.list (values.items.map Literal.value))
  | .value value => .anywhere value.value

def Disjunction.tree : Disjunction → Tree
  | .last item => Conjunction.tree item
  | .more item rest => .any (Conjunction.tree item :: Disjunction.parts rest) []

def Disjunction.parts : Disjunction → List Tree
  | .last item => [Conjunction.tree item]
  | .more item rest => Conjunction.tree item :: Disjunction.parts rest

def Conjunction.tree : Conjunction → Tree
  | .last item => Adjacency.tree item
  | .more item rest => .all (Adjacency.tree item :: Conjunction.parts rest) []

def Conjunction.parts : Conjunction → List Tree
  | .last item => [Adjacency.tree item]
  | .more item rest => Adjacency.tree item :: Conjunction.parts rest

def Adjacency.tree : Adjacency → Tree
  | .last item => item.tree
  | .more item rest => .adjacent (item.tree :: Adjacency.parts rest) []

def Adjacency.parts : Adjacency → List Tree
  | .last item => [item.tree]
  | .more item rest => item.tree :: Adjacency.parts rest

end

/-- Fields go up unless the query says otherwise. -/
def SortItem.key (item : SortItem) : SortKey :=
  ⟨item.field, match item.direction with
    | .descending => true
    | .ascending | .unsaid => false⟩

/-- A query with the order after it, if there is one. -/
def ordered (tree : Tree) : Option (Chain SortItem) → Tree
  | none => tree
  | some order => .sorted tree (order.items.map SortItem.key) []

/-- An order alone sorts every document. -/
def Sentence.tree : Sentence → Tree
  | .orderAlone order => ordered .everything (some order)
  | .found query order => ordered (Disjunction.tree query) order

theorem Adjacency.tree_eq (items : Adjacency) :
    Adjacency.tree items = Chain.tree .adjacent Unary.tree items := by
  have hparts : ∀ rest, Adjacency.parts rest = rest.items.map Unary.tree := by
    intro rest
    induction rest with
    | last item => rw [Adjacency.parts, Chain.items, List.map_singleton]
    | more item rest ih => rw [Adjacency.parts, Chain.items, List.map_cons, ih]
  cases items with
  | last item => rw [Adjacency.tree, Chain.tree]
  | more item rest => rw [Adjacency.tree, Chain.tree, hparts]

theorem Conjunction.tree_eq (items : Conjunction) :
    Conjunction.tree items = Chain.tree .all Adjacency.tree items := by
  have hparts : ∀ rest, Conjunction.parts rest = rest.items.map Adjacency.tree := by
    intro rest
    induction rest with
    | last item => rw [Conjunction.parts, Chain.items, List.map_singleton]
    | more item rest ih => rw [Conjunction.parts, Chain.items, List.map_cons, ih]
  cases items with
  | last item => rw [Conjunction.tree, Chain.tree]
  | more item rest => rw [Conjunction.tree, Chain.tree, hparts]

theorem Disjunction.tree_eq (items : Disjunction) :
    Disjunction.tree items = Chain.tree .any Conjunction.tree items := by
  have hparts : ∀ rest, Disjunction.parts rest = rest.items.map Conjunction.tree := by
    intro rest
    induction rest with
    | last item => rw [Disjunction.parts, Chain.items, List.map_singleton]
    | more item rest ih => rw [Disjunction.parts, Chain.items, List.map_cons, ih]
  cases items with
  | last item => rw [Disjunction.tree, Chain.tree]
  | more item rest => rw [Disjunction.tree, Chain.tree, hparts]

/-! ### Induction on derivations -/

/-- A relation of tokens and meanings that passes from the items of a chain to its node. -/
def KeptByChains (P : List Token → Tree → Prop) (between : List Token)
    (node : List Tree → Tags → Tree) : Prop :=
  ∀ {α : Type} {yield : α → List Token} {meaning : α → Tree} (item : α) (rest : Chain α),
    (∀ a ∈ (Chain.more item rest).items, P (yield a) (meaning a)) →
    P ((Chain.more item rest).tokens between yield) ((Chain.more item rest).tree node meaning)

/-- A relation of tokens and meanings that every alternative of the grammar keeps. -/
structure Compositional (P : List Token → Tree → Prop) : Prop where
  negated : ∀ {tokens tree}, P tokens tree → P (.notWord :: tokens) (.negated tree [])
  group : ∀ {tokens tree}, P tokens tree → P (.openParen :: (tokens ++ [.closeParen])) tree
  comparison : ∀ (field : String) (how : Comparison) (literal : Literal),
    P (.word field :: (how.tokens ++ literal.tokens)) (.compare field how.op literal.value)
  membership : ∀ (field : String) (how : Membership) (values : Chain Literal),
    P (.word field :: (how.tokens ++ listTokens values))
      (.compare field how.op (.list (values.items.map Literal.value)))
  value : ∀ literal : Literal, P literal.tokens (.anywhere literal.value)
  adjacent : KeptByChains P [] .adjacent
  all : KeptByChains P [.andWord] .all
  any : KeptByChains P [.orWord] .any

namespace Compositional

variable {P : List Token → Tree → Prop}

theorem chain {between : List Token} {node : List Tree → Tags → Tree}
    (hnode : KeptByChains P between node) {α : Type} {yield : α → List Token} {meaning : α → Tree}
    (items : Chain α) (hitems : ∀ a ∈ items.items, P (yield a) (meaning a)) :
    P (items.tokens between yield) (items.tree node meaning) := by
  cases items with
  | last item => exact hitems item (List.mem_singleton_self item)
  | more item rest => exact hnode item rest hitems

mutual

theorem unary (h : Compositional P) : ∀ u : Unary, P u.tokens u.tree
  | .negated inner => by
      rw [Unary.tokens, Unary.tree]
      exact h.negated (unary h inner)
  | .plain inner => by
      rw [Unary.tokens, Unary.tree]
      exact primary h inner

theorem primary (h : Compositional P) : ∀ p : Primary, P p.tokens p.tree
  | .group inner => by
      rw [Primary.tokens, Primary.tree, Disjunction.tokens_eq, Disjunction.tree_eq]
      exact h.group (chain h.any inner (conjunctions h inner))
  | .comparison field how literal => by
      rw [Primary.tokens, Primary.tree]
      exact h.comparison field how literal
  | .membership field how values => by
      rw [Primary.tokens, Primary.tree]
      exact h.membership field how values
  | .value literal => by
      rw [Primary.tokens, Primary.tree]
      exact h.value literal

theorem conjunctions (h : Compositional P) : ∀ (d : Disjunction), ∀ c ∈ d.items,
    P (Conjunction.tokens c) (Conjunction.tree c)
  | .last item => by
      rw [Chain.items, List.forall_mem_singleton, Conjunction.tokens_eq, Conjunction.tree_eq]
      exact chain h.all item (adjacencies h item)
  | .more item rest => by
      rw [Chain.items, List.forall_mem_cons, Conjunction.tokens_eq, Conjunction.tree_eq]
      exact ⟨chain h.all item (adjacencies h item), conjunctions h rest⟩

theorem adjacencies (h : Compositional P) : ∀ (c : Conjunction), ∀ a ∈ c.items,
    P (Adjacency.tokens a) (Adjacency.tree a)
  | .last item => by
      rw [Chain.items, List.forall_mem_singleton, Adjacency.tokens_eq, Adjacency.tree_eq]
      exact chain h.adjacent item (unaries h item)
  | .more item rest => by
      rw [Chain.items, List.forall_mem_cons, Adjacency.tokens_eq, Adjacency.tree_eq]
      exact ⟨chain h.adjacent item (unaries h item), adjacencies h rest⟩

theorem unaries (h : Compositional P) : ∀ (a : Adjacency), ∀ u ∈ a.items, P u.tokens u.tree
  | .last item => by
      rw [Chain.items, List.forall_mem_singleton]
      exact unary h item
  | .more item rest => by
      rw [Chain.items, List.forall_mem_cons]
      exact ⟨unary h item, unaries h rest⟩

end

/-- What every alternative keeps holds of every query and its meaning. -/
theorem disjunction (h : Compositional P) (d : Disjunction) :
    P (Disjunction.tokens d) (Disjunction.tree d) := by
  rw [Disjunction.tokens_eq, Disjunction.tree_eq]
  exact chain h.any d (conjunctions h d)

end Compositional

/-! ### What may follow -/

/-- Whether a word before these tokens is a field and not a value. -/
def continuesField : List Token → Bool
  | .operator _ :: _ => true
  | .colon :: _ => true
  | .inWord :: _ => true
  | .notWord :: .inWord :: _ => true
  | _ => false

/-- A unary query is complete before these tokens. -/
def EndsUnary (rest : List Token) : Prop := continuesField rest = false

/-- Nothing stands beside the last of adjacent queries. -/
structure EndsAdjacency (rest : List Token) : Prop where
  unary : EndsUnary rest
  apart : ∀ token ∈ rest.head?, startsUnary token = false

structure EndsConjunction (rest : List Token) : Prop where
  adjacency : EndsAdjacency rest
  last : rest.head? ≠ some .andWord

structure EndsDisjunction (rest : List Token) : Prop where
  conjunction : EndsConjunction rest
  last : rest.head? ≠ some .orWord

/-- No further item of a list follows. -/
def EndsList (rest : List Token) : Prop := rest.head? ≠ some .comma

/-- A field to sort by is complete before these tokens. -/
def EndsSortItem (rest : List Token) : Prop :=
  rest.head? ≠ some .ascWord ∧ rest.head? ≠ some .descWord

/-- No further field to sort by follows. -/
structure EndsOrder (rest : List Token) : Prop where
  item : EndsSortItem rest
  last : EndsList rest

/-- Where an item ends and where a chain ends, with a separator between the items. -/
structure Joins {α : Type} (separator : List Token) (yield : α → List Token)
    (endsItem endsChain : List Token → Prop) : Prop where
  atEnd : ∀ {rest}, endsChain rest → endsItem rest
  between : ∀ item rest, endsItem (separator ++ (yield item ++ rest))
  apart : ∀ {rest}, endsChain rest → ∀ item others, rest ≠ separator ++ (yield item ++ others)

theorem Chain.exists_tokens {α : Type} (separator : List Token) (yield : α → List Token)
    (items : Chain α) : ∃ item rest, items.tokens separator yield = yield item ++ rest := by
  cases items with
  | last item => exact ⟨item, [], by rw [Chain.tokens, List.append_nil]⟩
  | more item rest => exact ⟨item, _, by rw [Chain.tokens]⟩

namespace Joins

variable {α : Type} {separator : List Token} {yield : α → List Token}
  {endsItem endsChain : List Token → Prop}

theorem before_more (h : Joins separator yield endsItem endsChain) (items : Chain α)
    (rest : List Token) : endsItem (separator ++ (items.tokens separator yield ++ rest)) := by
  obtain ⟨item, more, heq⟩ := items.exists_tokens separator yield
  rw [heq, List.append_assoc]
  exact h.between item _

theorem ne_more (h : Joins separator yield endsItem endsChain) {ending : List Token}
    (hends : endsChain ending) (items : Chain α) (rest : List Token) :
    ending ≠ separator ++ (items.tokens separator yield ++ rest) := by
  obtain ⟨item, more, heq⟩ := items.exists_tokens separator yield
  rw [heq, List.append_assoc]
  exact h.apart hends item _

end Joins

theorem startsUnary_of_valueOf? {token : Token} (h : (valueOf? token).isSome = true) :
    startsUnary token = true := by
  cases token <;> first | rfl | cases h

/-- Every yield starts with a token that can start a unary query. -/
def Starts {α : Type} (yield : α → List Token) : Prop :=
  ∀ a, ∃ token rest, yield a = token :: rest ∧ startsUnary token = true

theorem Starts.chain {α : Type} {yield : α → List Token} (h : Starts yield)
    (separator : List Token) : Starts (Chain.tokens separator yield) := by
  intro items
  obtain ⟨item, more, heq⟩ := items.exists_tokens separator yield
  obtain ⟨token, rest, hitem, hstarts⟩ := h item
  exact ⟨token, rest ++ more, by rw [heq, hitem, List.cons_append], hstarts⟩

theorem Unary.starts : Starts Unary.tokens := by
  intro u
  cases u with
  | negated inner => exact ⟨_, _, by rw [Unary.tokens], rfl⟩
  | plain inner =>
      cases inner with
      | group inner => exact ⟨_, _, by rw [Unary.tokens, Primary.tokens], rfl⟩
      | comparison field how value => exact ⟨_, _, by rw [Unary.tokens, Primary.tokens], rfl⟩
      | membership field how values => exact ⟨_, _, by rw [Unary.tokens, Primary.tokens], rfl⟩
      | value value =>
          exact ⟨_, _, by rw [Unary.tokens, Primary.tokens, Literal.tokens],
            startsUnary_of_valueOf? value.2⟩

theorem Adjacency.starts : Starts Adjacency.tokens := by
  rw [funext Adjacency.tokens_eq]
  exact Unary.starts.chain _

theorem Conjunction.starts : Starts Conjunction.tokens := by
  rw [funext Conjunction.tokens_eq]
  exact Adjacency.starts.chain _

theorem Disjunction.starts : Starts Disjunction.tokens := by
  rw [funext Disjunction.tokens_eq]
  exact Conjunction.starts.chain _

theorem endsUnary_of_startsUnary {token : Token} {rest : List Token}
    (h : startsUnary token = true) (hin : token = .notWord → rest.head? ≠ some .inWord) :
    EndsUnary (token :: rest) := by
  cases token with
  | notWord =>
      cases rest with
      | nil => rfl
      | cons next others => cases next <;> first | rfl | exact absurd rfl (hin rfl)
  | _ => first | rfl | cases h

/-- A unary query is complete where the next one starts. -/
theorem Unary.endsUnary (u : Unary) (rest : List Token) : EndsUnary (u.tokens ++ rest) := by
  cases u with
  | negated inner =>
      obtain ⟨token, others, heq, hstarts⟩ := Unary.starts inner
      rw [Unary.tokens, heq]
      refine endsUnary_of_startsUnary rfl ?_
      intro _ hin
      cases hin
      cases hstarts
  | plain inner =>
      rw [Unary.tokens]
      cases inner with
      | group inner => rfl
      | comparison field how value => rfl
      | membership field how values => rfl
      | value value =>
          refine endsUnary_of_startsUnary (startsUnary_of_valueOf? value.2) ?_
          intro hnot
          have hvalue := value.2
          rw [hnot] at hvalue
          cases hvalue

/-! ### Joints of chains -/

theorem joins_adjacency : Joins [] Unary.tokens EndsUnary EndsAdjacency where
  atEnd := fun h => h.unary
  between := fun u rest => u.endsUnary rest
  apart := by
    intro rest h u others heq
    obtain ⟨token, more, hu, hstarts⟩ := Unary.starts u
    rw [List.nil_append, hu] at heq
    rw [h.apart token (by rw [heq]; rfl)] at hstarts
    cases hstarts

theorem endsAdjacency_cons {token : Token} {rest : List Token} (hstarts : startsUnary token = false)
    (hfield : ∀ others, continuesField (token :: others) = false) :
    EndsAdjacency (token :: rest) :=
  ⟨hfield rest, fun t ht => by cases ht; exact hstarts⟩

theorem joins_conjunction : Joins [.andWord] Adjacency.tokens EndsAdjacency EndsConjunction where
  atEnd := fun h => h.adjacency
  between := fun _ _ => endsAdjacency_cons rfl fun _ => rfl
  apart := fun h _ _ heq => h.last (by rw [heq]; rfl)

theorem joins_disjunction :
    Joins [.orWord] Conjunction.tokens EndsConjunction EndsDisjunction where
  atEnd := fun h => h.conjunction
  between := fun _ _ => ⟨endsAdjacency_cons rfl fun _ => rfl, nofun⟩
  apart := fun h _ _ heq => h.last (by rw [heq]; rfl)

theorem joins_list : Joins [.comma] Literal.tokens (fun _ => True) EndsList where
  atEnd := fun _ => trivial
  between := fun _ _ => trivial
  apart := fun h _ _ heq => h (by rw [heq]; rfl)

theorem joins_order : Joins [.comma] SortItem.tokens EndsSortItem EndsOrder where
  atEnd := fun h => h.item
  between := fun _ _ => ⟨nofun, nofun⟩
  apart := fun h _ _ heq => h.last (by rw [heq]; rfl)

/-! ### One derivation -/

/--
Derivations with at most so many tokens are determined by what they yield before something that
may follow them.
-/
def Unambiguous {α : Type} (limit : Nat) (yield : α → List Token)
    (ends : List Token → Prop) : Prop :=
  ∀ ⦃a b r s⦄, yield a ++ r = yield b ++ s → (yield a).length ≤ limit → ends r → ends s →
    a = b ∧ r = s

/-- Chains of such items are determined by what they yield before something else. -/
theorem Unambiguous.chain {α : Type} {limit : Nat} {separator : List Token}
    {yield : α → List Token} {endsItem endsChain : List Token → Prop}
    (h : Unambiguous limit yield endsItem) (hjoins : Joins separator yield endsItem endsChain) :
    Unambiguous limit (Chain.tokens separator yield) endsChain := by
  intro a
  induction a with
  | last x =>
      intro b r s heq hlimit hr hs
      cases b with
      | last y =>
          obtain ⟨rfl, hrest⟩ := h heq hlimit (hjoins.atEnd hr) (hjoins.atEnd hs)
          exact ⟨rfl, hrest⟩
      | more y others =>
          simp only [Chain.tokens, List.append_assoc] at heq hlimit
          obtain ⟨-, hrest⟩ := h heq hlimit (hjoins.atEnd hr) (hjoins.before_more others s)
          exact absurd hrest (hjoins.ne_more hr others s)
  | more x rest ih =>
      intro b r s heq hlimit hr hs
      have hfirst : (yield x).length ≤ limit := by
        simp only [Chain.tokens, List.length_append] at hlimit
        omega
      cases b with
      | last y =>
          simp only [Chain.tokens, List.append_assoc] at heq
          obtain ⟨-, hrest⟩ := h heq hfirst (hjoins.before_more rest r) (hjoins.atEnd hs)
          exact absurd hrest.symm (hjoins.ne_more hs rest r)
      | more y others =>
          simp only [Chain.tokens, List.append_assoc, List.length_append] at heq hlimit
          obtain ⟨rfl, hrest⟩ :=
            h heq hfirst (hjoins.before_more rest r) (hjoins.before_more others s)
          obtain ⟨rfl, hafter⟩ := ih (List.append_cancel_left hrest) (by omega) hr hs
          exact ⟨rfl, hafter⟩

theorem Literal.unambiguous (limit : Nat) :
    Unambiguous limit Literal.tokens fun _ => True := by
  intro a b r s heq _ _ _
  obtain ⟨htoken, hrest⟩ := List.cons.inj heq
  exact ⟨Subtype.ext htoken, hrest⟩

/-! ### Looking ahead -/

/-- The alternatives for a primary. -/
inductive Alternative where
  | group
  | comparison
  | membership
  | value

/-- The alternative that the first three tokens leave. -/
def lookAhead : List Token → Alternative
  | .openParen :: _ => .group
  | .word _ :: .operator _ :: _ => .comparison
  | .word _ :: .colon :: _ => .comparison
  | .word _ :: .inWord :: _ => .membership
  | .word _ :: .notWord :: .inWord :: _ => .membership
  | _ => .value

def Primary.alternative : Primary → Alternative
  | .group _ => .group
  | .comparison _ _ _ => .comparison
  | .membership _ _ _ => .membership
  | .value _ => .value

theorem lookAhead_value (literal : Literal) {rest : List Token} (hends : EndsUnary rest) :
    lookAhead (literal.1 :: rest) = .value := by
  obtain ⟨token, hvalue⟩ := literal
  cases token with
  | word text =>
      show lookAhead (.word text :: rest) = .value
      unfold lookAhead
      split
      case h_6 => rfl
      all_goals
        rename_i heq
        cases heq <;> cases hends
  | _ => first | rfl | cases hvalue

/-- Three tokens are enough to tell which alternative was taken. -/
theorem Primary.lookAhead_tokens (p : Primary) {rest : List Token} (hends : EndsUnary rest) :
    lookAhead (p.tokens ++ rest) = p.alternative := by
  cases p with
  | group inner => rfl
  | comparison field how value => cases how <;> rfl
  | membership field how values => cases how <;> rfl
  | value value => exact lookAhead_value value hends

theorem Primary.ne_negation (p : Primary) (rest others : List Token) :
    p.tokens ++ rest ≠ .notWord :: others := by
  intro heq
  cases p with
  | group inner => cases heq
  | comparison field how value => cases heq
  | membership field how values => cases heq
  | value value =>
      have hvalue := value.2
      rw [(List.cons.inj heq).1] at hvalue
      cases hvalue

theorem Comparison.unambiguous (limit : Nat) :
    Unambiguous limit Comparison.tokens fun _ => True := by
  intro a b r s heq _ _ _
  cases a <;> cases b <;> cases heq <;> exact ⟨rfl, rfl⟩

theorem Membership.unambiguous (limit : Nat) :
    Unambiguous limit Membership.tokens fun _ => True := by
  intro a b r s heq _ _ _
  cases a <;> cases b <;> cases heq <;> exact ⟨rfl, rfl⟩

theorem endsList_close (rest : List Token) : EndsList (.closeParen :: rest) := nofun

theorem endsDisjunction_close (rest : List Token) : EndsDisjunction (.closeParen :: rest) :=
  ⟨⟨endsAdjacency_cons rfl fun _ => rfl, nofun⟩, nofun⟩

theorem Primary.unambiguous {limit : Nat}
    (h : Unambiguous limit Disjunction.tokens EndsDisjunction) :
    Unambiguous (limit + 1) Primary.tokens EndsUnary := by
  intro a b r s heq hlimit hr hs
  have hsame : a.alternative = b.alternative := by
    rw [← a.lookAhead_tokens hr, ← b.lookAhead_tokens hs, heq]
  cases a with
  | group d =>
      cases b with
      | group d' =>
          simp only [Primary.tokens, List.cons_append, List.append_assoc, List.nil_append,
            List.length_cons, List.length_append, List.length_nil] at heq hlimit
          obtain ⟨rfl, hrest⟩ := h (List.cons.inj heq).2 (by omega) (endsDisjunction_close r)
            (endsDisjunction_close s)
          exact ⟨rfl, (List.cons.inj hrest).2⟩
      | _ => cases hsame
  | comparison field how value =>
      cases b with
      | comparison field' how' value' =>
          simp only [Primary.tokens, List.cons_append, List.append_assoc] at heq
          obtain ⟨hfield, hafter⟩ := List.cons.inj heq
          obtain ⟨rfl, hvalue⟩ := Comparison.unambiguous _ hafter (Nat.le_refl _) trivial trivial
          obtain ⟨rfl, hrest⟩ := Literal.unambiguous _ hvalue (Nat.le_refl _) trivial trivial
          cases hfield
          exact ⟨rfl, hrest⟩
      | _ => cases hsame
  | membership field how values =>
      cases b with
      | membership field' how' values' =>
          simp only [Primary.tokens, listTokens, listEnd, List.cons_append, List.append_assoc,
            List.nil_append] at heq
          obtain ⟨hfield, hafter⟩ := List.cons.inj heq
          obtain ⟨rfl, hvalues⟩ := Membership.unambiguous _ hafter (Nat.le_refl _) trivial trivial
          obtain ⟨rfl, hclose⟩ := (Literal.unambiguous _).chain joins_list
            (List.cons.inj hvalues).2 (Nat.le_refl _) (endsList_close r) (endsList_close s)
          cases hfield
          exact ⟨rfl, (List.cons.inj hclose).2⟩
      | _ => cases hsame
  | value value =>
      cases b with
      | value value' =>
          obtain ⟨rfl, hrest⟩ := Literal.unambiguous _ heq (Nat.le_refl _) trivial trivial
          exact ⟨rfl, hrest⟩
      | _ => cases hsame

theorem Disjunction.unambiguous_of {limit : Nat} (h : Unambiguous limit Unary.tokens EndsUnary) :
    Unambiguous limit Disjunction.tokens EndsDisjunction := by
  have hadjacency := h.chain joins_adjacency
  rw [← funext Adjacency.tokens_eq] at hadjacency
  have hconjunction := hadjacency.chain joins_conjunction
  rw [← funext Conjunction.tokens_eq] at hconjunction
  have hdisjunction := hconjunction.chain joins_disjunction
  rwa [← funext Disjunction.tokens_eq] at hdisjunction

theorem Unary.unambiguous (limit : Nat) : Unambiguous limit Unary.tokens EndsUnary := by
  induction limit with
  | zero =>
      intro a b r s heq hlimit hr hs
      obtain ⟨token, rest, htokens, -⟩ := Unary.starts a
      rw [htokens, List.length_cons] at hlimit
      omega
  | succ limit ih =>
      intro a b r s heq hlimit hr hs
      cases a with
      | negated inner =>
          cases b with
          | negated inner' =>
              simp only [Unary.tokens, List.cons_append, List.length_cons] at heq hlimit
              obtain ⟨rfl, hrest⟩ := ih (List.cons.inj heq).2 (by omega) hr hs
              exact ⟨rfl, hrest⟩
          | plain p =>
              simp only [Unary.tokens] at heq
              exact absurd heq.symm (p.ne_negation _ _)
      | plain p =>
          cases b with
          | negated inner =>
              simp only [Unary.tokens] at heq
              exact absurd heq (p.ne_negation _ _)
          | plain p' =>
              simp only [Unary.tokens] at heq hlimit
              obtain ⟨rfl, hrest⟩ :=
                Primary.unambiguous (Disjunction.unambiguous_of ih) heq hlimit hr hs
              exact ⟨rfl, hrest⟩

/-- What is derived from the front of a list is determined by what may follow it. -/
theorem Disjunction.unambiguous (limit : Nat) :
    Unambiguous limit Disjunction.tokens EndsDisjunction :=
  Disjunction.unambiguous_of (Unary.unambiguous limit)

theorem SortItem.unambiguous (limit : Nat) :
    Unambiguous limit SortItem.tokens EndsSortItem := by
  intro a b r s heq _ hr hs
  obtain ⟨field, direction⟩ := a
  obtain ⟨field', direction'⟩ := b
  obtain ⟨hfield, hafter⟩ := List.cons.inj heq
  cases hfield
  cases direction with
  | unsaid =>
      cases direction' <;> cases hafter
      · exact ⟨rfl, rfl⟩
      · exact absurd rfl hr.1
      · exact absurd rfl hr.2
  | ascending =>
      cases direction' <;> cases hafter
      · exact absurd rfl hs.1
      · exact ⟨rfl, rfl⟩
  | descending =>
      cases direction' <;> cases hafter
      · exact absurd rfl hs.2
      · exact ⟨rfl, rfl⟩

theorem orderTokens_injective {a b : Chain SortItem} (h : orderTokens a = orderTokens b) :
    a = b := by
  have hends : EndsOrder [] := ⟨⟨nofun, nofun⟩, nofun⟩
  have hitems := (List.cons.inj (List.cons.inj h).2).2
  exact ((SortItem.unambiguous _).chain joins_order (congrArg (· ++ []) hitems) (Nat.le_refl _)
    hends hends).1

theorem endsDisjunction_order (order : Option (Chain SortItem)) :
    EndsDisjunction (order.elim [] orderTokens) := by
  cases order with
  | none => exact ⟨⟨⟨rfl, nofun⟩, nofun⟩, nofun⟩
  | some order => exact ⟨⟨endsAdjacency_cons rfl fun _ => rfl, nofun⟩, nofun⟩

/-- No query starts with an order. -/
theorem Disjunction.ne_order (query : Disjunction) (order : Chain SortItem) (rest : List Token) :
    Disjunction.tokens query ++ rest ≠ orderTokens order := by
  intro heq
  obtain ⟨token, more, htokens, hstarts⟩ := Disjunction.starts query
  rw [htokens] at heq
  rw [(List.cons.inj heq).1] at hstarts
  cases hstarts

theorem Sentence.tokens_ne_nil (sentence : Sentence) : sentence.tokens ≠ [] := by
  cases sentence with
  | orderAlone order => exact nofun
  | found query order =>
      obtain ⟨token, more, htokens, -⟩ := Disjunction.starts query
      rw [Sentence.tokens, htokens]
      exact nofun

/-- **No two derivations yield the same tokens.** -/
theorem Sentence.tokens_injective : Function.Injective Sentence.tokens := by
  intro a b h
  cases a with
  | orderAlone order =>
      cases b with
      | orderAlone order' => rw [orderTokens_injective h]
      | found query' order' => exact absurd h.symm (Disjunction.ne_order query' order _)
  | found query order =>
      cases b with
      | orderAlone order' => exact absurd h (Disjunction.ne_order query order' _)
      | found query' order' =>
          obtain ⟨rfl, horder⟩ := Disjunction.unambiguous _ h (Nat.le_refl _)
            (endsDisjunction_order order) (endsDisjunction_order order')
          cases order with
          | none => cases order' <;> first | rfl | cases horder
          | some _ =>
              cases order' with
              | none => cases horder
              | some _ => rw [orderTokens_injective horder]

end DocIndex.Query.Grammar
