/-
Queries read back from their text.

A query is printed with every node in parentheses that holds several parts, and so it is a single
unary query to the grammar, however the parts were connected where it was read.  What is printed
between two tokens is a blank, a comma or a parenthesis, so each of them is read again, and the
tokens are those of a derivation of the same tree.

An order that does not say its direction is printed with one, a colon as a sign of equality, and
an order alone behind the star that it stands for; none of this shows in the tree.
-/
import DocIndex.Proofs.Query.Spelling

namespace DocIndex.Query

/-! ### The scalars of a query -/

namespace Tree

mutual

/-- The scalars that the clauses of a query compare with, from left to right. -/
def scalars : Tree → List Value
  | clause c => c.value.scalars
  | all parts _ | any parts _ | adjacent parts _ => scalarsOfAll parts
  | negated tree _ => scalars tree
  | sorted tree _ _ => scalars tree

/-- The scalars of several queries. -/
def scalarsOfAll : List Tree → List Value
  | [] => []
  | tree :: rest => scalars tree ++ scalarsOfAll rest

end

theorem scalars_compare (field : String) (op : Operator) (v : Value) :
    (compare field op v).scalars = v.scalars := by
  rw [compare, scalars]

theorem scalars_anywhere (v : Value) : (anywhere v).scalars = v.scalars := by
  rw [anywhere, scalars]

theorem mem_scalarsOfAll {trees : List Tree} {v : Value} :
    v ∈ scalarsOfAll trees ↔ ∃ tree ∈ trees, v ∈ tree.scalars := by
  induction trees with
  | nil => simp [scalarsOfAll]
  | cons tree rest ih => simp [scalarsOfAll, ih]

end Tree

/-! ### Texts and their tokens -/

namespace Lexer

/-- A text has these tokens, wherever it stands. -/
def Yields (text : List Char) (tokens : List Token) : Prop :=
  ∃ placed, scan 0 0 text = .ok placed ∧ Parser.kinds placed = tokens

/-- A text has these tokens in front of whatever may stand behind a printed one. -/
def Spells (text : String) (tokens : List Token) : Prop :=
  ∀ rest others, Stops rest → Yields rest others → Yields (text.toList ++ rest) (tokens ++ others)

section Yields

variable {rest : List Char} {tokens : List Token}

theorem Yields.blank (h : Yields rest tokens) : Yields (' ' :: rest) tokens := by
  obtain ⟨placed, hscan, rfl⟩ := h
  obtain ⟨others, hothers, hkinds⟩ := scan_kinds hscan (0 + 1)
  exact ⟨others, (scan_blank (by decide) 0).trans hothers, hkinds⟩

theorem Yields.token {c : Char} {front : List Char} {token : Token} (h : Yields rest tokens)
    (hblank : Text.isBlank c = false)
    (hread : readToken c (front ++ rest) = .ok (token, rest)) :
    Yields (c :: (front ++ rest)) (token :: tokens) := by
  obtain ⟨placed, hscan, rfl⟩ := h
  obtain ⟨others, hothers, hkinds⟩ := scan_kinds hscan (0 + 1 + front.length)
  exact ⟨_, scan_token front hblank hread hothers, by rw [Parser.kinds_cons, hkinds]⟩

/-- A parenthesis or a comma is one wherever it stands. -/
theorem Yields.mark {c : Char} {token : Token} (h : Yields rest tokens)
    (hmark : (c, token) ∈ [('(', Token.openParen), (')', .closeParen), (',', .comma)]) :
    Yields (c :: rest) (token :: tokens) := by
  have hread : isWordChar c = false ∧ c ≠ '\x22' ∧ Text.isBlank c = false ∧
      ∀ rest, readOperator? (c :: rest) = none ∧
        readPunctuation? (c :: rest) = some (token, rest) := by
    simp only [List.mem_cons, Prod.mk.injEq, List.not_mem_nil, or_false] at hmark
    rcases hmark with ⟨rfl, rfl⟩ | ⟨rfl, rfl⟩ | ⟨rfl, rfl⟩ <;>
      exact ⟨by decide, by decide, by decide, fun _ => ⟨rfl, rfl⟩⟩
  obtain ⟨hc, hquote, hblank, hfound⟩ := hread
  refine @Yields.token rest tokens c [] token h hblank ?_
  obtain ⟨hoperator, hpunctuation⟩ := hfound rest
  rw [List.nil_append, readToken_sign hc hquote, hoperator, hpunctuation]
  rfl

/-- Every token of a text was found in it. -/
theorem forall_of_scan {P : Token → Prop}
    (hread : ∀ {text token rest}, Reading text token rest → P token)
    {text : List Char} {position pending : Nat} {placed : List PlacedToken}
    (h : scan position pending text = .ok placed) : ∀ token ∈ Parser.kinds placed, P token := by
  induction text generalizing position pending placed with
  | nil =>
      cases h
      exact nofun
  | cons c more ih =>
      cases pending with
      | succ pending => exact ih h
      | zero =>
          rw [scan] at h
          split at h
          · exact ih h
          · split at h
            · cases h
            · rename_i token after htoken
              obtain ⟨others, hothers, h⟩ := bind_eq_ok.mp h
              cases h
              exact List.forall_mem_cons.mpr ⟨hread (reading_of_readToken htoken), ih hothers⟩

end Yields

section Spells

variable {a b : String} {s t : List Token}

theorem ReadsAs.spells {token : Token} (h : ReadsAs a.toList token) : Spells a [token] := by
  intro rest others hstops hrest
  obtain ⟨c, more, htext, hblank, hread⟩ := h
  rw [htext, List.cons_append]
  exact hrest.token hblank (hread rest hstops)

/-- What begins with the end of a token spells its tokens behind any text. -/
theorem Spells.append (ha : Spells a s) (hb : Spells b t)
    (hstops : ∀ rest, Stops rest → Stops (b.toList ++ rest)) : Spells (a ++ b) (s ++ t) := by
  intro rest others hrest hyields
  rw [String.toList_append, List.append_assoc, List.append_assoc]
  exact ha _ _ (hstops rest hrest) (hb _ _ hrest hyields)

/-- A text between two others that separates their tokens. -/
def Separates (separator : String) (tokens : List Token) : Prop :=
  ∀ ⦃a b s t⦄, Spells a s → Spells b t → Spells (a ++ separator ++ b) (s ++ (tokens ++ t))

theorem separates_blank : Separates " " [] := by
  intro a b s t ha hb
  have hblank : Spells (" " ++ b) t := by
    intro rest others hrest hyields
    rw [String.toList_append, List.append_assoc]
    exact (hb rest others hrest hyields).blank
  rw [String.append_assoc]
  refine ha.append hblank fun rest _ => ?_
  rw [String.toList_append]
  exact fun c hc => .inl (Option.some.inj hc).symm

theorem separates_word {word : String} {token : Token} (h : Spells word [token]) :
    Separates (" " ++ word ++ " ") [token] := by
  intro a b s t ha hb
  have hall := separates_blank (separates_blank ha h) hb
  simpa only [String.append_assoc, List.append_assoc, List.nil_append] using hall

theorem separates_comma : Separates ", " [.comma] := by
  intro a b s t ha hb
  have hcomma : Spells (", " ++ b) (.comma :: t) := by
    intro rest others hrest hyields
    rw [String.toList_append, List.append_assoc]
    show Yields (',' :: ' ' :: (b.toList ++ rest)) _
    exact (hb rest others hrest hyields).blank.mark (by simp)
  rw [String.append_assoc]
  refine ha.append hcomma fun rest _ => ?_
  rw [String.toList_append]
  exact fun c hc => .inr (.inr (Option.some.inj hc).symm)

theorem Spells.parenthesised (h : Spells a s) :
    Spells ("(" ++ a ++ ")") (.openParen :: (s ++ [.closeParen])) := by
  have hclose : Spells ")" [.closeParen] := by
    intro rest others _ hyields
    show Yields (')' :: rest) _
    exact hyields.mark (by simp)
  have hinner : Spells (a ++ ")") (s ++ [.closeParen]) :=
    h.append hclose fun rest _ c hc => .inr (.inl (Option.some.inj hc).symm)
  intro rest others hrest hyields
  rw [String.append_assoc, String.toList_append, List.append_assoc]
  show Yields ('(' :: ((a ++ ")").toList ++ rest)) _
  exact (hinner rest others hrest hyields).mark (by simp)

end Spells

/-! ### Words of the grammar -/

theorem spells_word {word : String} (hrun : IsRun word.toList) (hne : word.toList ≠ [])
    (hdate : readDate? (word.toList ++ []) = none) :
    Spells word [(readRun word.toList).1] := by
  have hend : atBoundary [] = true := rfl
  exact (readsAs_run hrun hne hend hdate).spells

theorem spells_not : Spells "NOT" [.notWord] := spells_word (by decide) (by decide) rfl

theorem spells_in : Spells "IN" [.inWord] := spells_word (by decide) (by decide) rfl

theorem spells_asc : Spells "ASC" [.ascWord] := spells_word (by decide) (by decide) rfl

theorem spells_desc : Spells "DESC" [.descWord] := spells_word (by decide) (by decide) rfl

theorem separates_and : Separates " AND " [.andWord] :=
  @separates_word "AND" _ (spells_word (by decide) (by decide) rfl)

theorem separates_or : Separates " OR " [.orWord] :=
  @separates_word "OR" _ (spells_word (by decide) (by decide) rfl)

theorem separates_orderBy : Separates " ORDER BY " [.orderWord, .byWord] := by
  intro a b s t ha hb
  have horder : Spells "ORDER" [.orderWord] := spells_word (by decide) (by decide) rfl
  have hby : Spells "BY" [.byWord] := spells_word (by decide) (by decide) rfl
  have hall := separates_blank (separates_blank ha (separates_blank horder hby)) hb
  have hwords : " ORDER BY " = " " ++ ("ORDER" ++ " " ++ "BY") ++ " " := rfl
  rw [hwords]
  simpa only [String.append_assoc, List.append_assoc, List.nil_append, List.cons_append] using hall

end Lexer

/-! ### Chains in print -/

namespace Grammar

open Lexer (Spells Separates)

/-- Items in print with a separator between them, which the tokens have too. -/
theorem Chain.spells {α β : Type} {separator : String} {between : List Token}
    (hseparates : Separates separator between) {yield : α → List Token} {meaning : α → β}
    (write : β → String) (writeAll : List β → String) (hone : ∀ b, writeAll [b] = write b)
    (hmore : ∀ b c rest, writeAll (b :: c :: rest) = write b ++ separator ++ writeAll (c :: rest))
    {items : Chain α} (h : ∀ item ∈ items.items, Spells (write (meaning item)) (yield item)) :
    Spells (writeAll (items.items.map meaning)) (items.tokens between yield) := by
  induction items with
  | last item =>
      rw [Chain.items, List.map_singleton, hone, Chain.tokens]
      exact h item (List.mem_singleton_self item)
  | more item rest ih =>
      obtain ⟨hfirst, hrest⟩ := List.forall_mem_cons.mp h
      have hspells := hseparates hfirst (ih hrest)
      rw [Chain.items, List.map_cons, Chain.tokens]
      cases rest with
      | last next => exact (hmore _ _ _) ▸ hspells
      | more next others => exact (hmore _ _ _) ▸ hspells

/-- A chain whose items have the given meanings is made of such items. -/
theorem exists_chain {α β : Type} {meaning : α → β} {P : α → Prop} {first : β} {rest : List β}
    (h : ∀ b ∈ first :: rest, ∃ a, meaning a = b ∧ P a) :
    ∃ items : Chain α, items.items.map meaning = first :: rest ∧ ∀ a ∈ items.items, P a := by
  induction rest generalizing first with
  | nil =>
      obtain ⟨a, rfl, ha⟩ := h first (List.mem_singleton_self first)
      exact ⟨.last a, rfl, List.forall_mem_singleton.mpr ha⟩
  | cons second rest ih =>
      obtain ⟨⟨a, rfl, ha⟩, hrest⟩ := List.forall_mem_cons.mp h
      obtain ⟨items, hitems, hall⟩ := ih hrest
      exact ⟨.more a items, by rw [Chain.items, List.map_cons, hitems],
        List.forall_mem_cons.mpr ⟨ha, hall⟩⟩

theorem Chain.exists_items {α : Type} (items : Chain α) :
    ∃ first rest, items.items = first :: rest := by
  cases items <;> exact ⟨_, _, rfl⟩

/-- The tokens of an item are among those of the chain. -/
theorem Chain.yield_sublist {α : Type} {between : List Token} {yield : α → List Token}
    {items : Chain α} {item : α} (h : item ∈ items.items) :
    (yield item).Sublist (items.tokens between yield) := by
  induction items with
  | last other =>
      obtain rfl := List.mem_singleton.mp h
      exact List.Sublist.refl _
  | more other rest ih =>
      rw [Chain.tokens]
      rcases List.mem_cons.mp h with rfl | hrest
      · exact List.sublist_append_left _ _
      · exact (ih hrest).trans
          ((List.sublist_append_right _ _).trans (List.sublist_append_right _ _))

end Grammar

/-! ### Literals in print -/

/-- Neither a number nor a phrase with a backslash. -/
def Value.IsPlain (v : Value) : Prop :=
  (∀ x, v ≠ .number x) ∧ ∀ phrase, v = .phrase phrase → '\\' ∉ phrase.toList

/-- A query whose scalars are plain. -/
def Tree.IsPlain (tree : Tree) : Prop := ∀ v ∈ tree.scalars, v.IsPlain

namespace Grammar

open Lexer (Spells Separates Rereads spells_not spells_in separates_blank separates_comma)

theorem wordValue_write (text : String) : (Parser.wordValue text).write = text := by
  unfold Parser.wordValue
  split
  · rename_i hstar
    exact (beq_iff_eq.mp hstar).symm
  · split <;> rfl

/-- A plain literal is printed as its token. -/
theorem Literal.spells {literal : Literal} (hreads : Rereads literal.1)
    (hplain : literal.value.IsPlain) : Spells literal.value.write literal.tokens := by
  obtain ⟨token, hvalue⟩ := literal
  cases token with
  | word text =>
      show Spells (Parser.wordValue text).write _
      rw [wordValue_write]
      exact Lexer.ReadsAs.spells hreads
  | quoted phrase => exact (Lexer.readsAs_phrase (hplain.2 phrase rfl)).spells
  | integer n => exact Lexer.ReadsAs.spells hreads
  | number x => exact absurd rfl (hplain.1 x)
  | time m precision => exact Lexer.ReadsAs.spells hreads
  | relative t => exact Lexer.ReadsAs.spells hreads
  | _ => cases hvalue

/-- A list of plain literals is printed in parentheses. -/
theorem spells_list {values : Chain Literal} (hreads : ∀ literal ∈ values.items, Rereads literal.1)
    (hplain : ∀ literal ∈ values.items, literal.value.IsPlain) :
    Spells (Value.list (values.items.map Literal.value)).write (listTokens values) := by
  have hall := Chain.spells separates_comma Value.write Value.writeAll (fun _ => rfl)
    (fun _ _ _ => rfl) fun literal hliteral =>
      Literal.spells (hreads literal hliteral) (hplain literal hliteral)
  exact hall.parenthesised

end Grammar

namespace Tree

open Grammar
open Lexer (Spells Separates Rereads spells_word spells_not spells_in spells_asc spells_desc
  separates_blank separates_comma separates_and separates_or separates_orderBy)

/-- A query that is printed as a unary query which means it. -/
def ReadBack (tree : Tree) : Prop := ∃ u : Unary, u.tree = tree ∧ Spells tree.write u.tokens

variable {tree : Tree}

theorem readBack_anywhere {literal : Literal}
    (h : Spells literal.value.write literal.tokens) : (anywhere literal.value).ReadBack :=
  ⟨.plain (.value literal), by rw [Unary.tree, Primary.tree],
    by rw [Unary.tokens, Primary.tokens]; exact h⟩

theorem readBack_comparison {field : String} {op : Operator} {literal : Literal}
    (hfield : Spells field [.word field]) (hop : op ≠ .plain)
    (hsign : Spells op.symbol [.operator op])
    (hvalue : Spells literal.value.write literal.tokens) :
    (compare field op literal.value).ReadBack := by
  have hwrite : (compare field op literal.value).write
      = field ++ " " ++ op.symbol ++ " " ++ literal.value.write := if_neg hop
  refine ⟨.plain (.comparison field (.operator op) literal),
    by rw [Unary.tree, Primary.tree]; rfl, ?_⟩
  have hall := separates_blank (separates_blank hfield hsign) hvalue
  rw [hwrite, Unary.tokens, Primary.tokens]
  simpa only [List.nil_append, List.cons_append, Comparison.tokens] using hall

theorem readBack_membership {field : String} (how : Membership) {values : Chain Literal}
    (hfield : Spells field [.word field])
    (hvalues : Spells (Value.list (values.items.map Literal.value)).write (listTokens values)) :
    (compare field how.op (.list (values.items.map Literal.value))).ReadBack := by
  have hwords : how.op ≠ .plain ∧ Spells how.op.symbol how.tokens := by
    cases how with
    | within => exact ⟨by decide, spells_in⟩
    | outside => exact ⟨by decide, separates_blank spells_not spells_in⟩
  have hwrite : (compare field how.op (.list (values.items.map Literal.value))).write
      = field ++ " " ++ how.op.symbol ++ " " ++
        (Value.list (values.items.map Literal.value)).write := if_neg hwords.1
  refine ⟨.plain (.membership field how values), by rw [Unary.tree, Primary.tree], ?_⟩
  have hall := separates_blank (separates_blank hfield hwords.2) hvalues
  rw [hwrite, Unary.tokens, Primary.tokens]
  simpa only [List.nil_append, List.cons_append, List.append_assoc] using hall

theorem ReadBack.negated (h : tree.ReadBack) : (negated tree []).ReadBack := by
  obtain ⟨u, rfl, hspells⟩ := h
  refine ⟨.negated u, by rw [Unary.tree], ?_⟩
  have hwords : "NOT " = "NOT" ++ " " := rfl
  rw [write, hwords, Unary.tokens]
  exact separates_blank spells_not hspells

/-! ### Nodes in parentheses -/

/-- A level of the grammar at which queries that are read back may stand, each as one item. -/
def Holds {α : Type} (yield : α → List Token) (meaning : α → Tree) : Prop :=
  ∀ tree : Tree, tree.ReadBack → ∃ a, meaning a = tree ∧ Spells (meaning a).write (yield a)

theorem holds_unary : Holds Unary.tokens Unary.tree := by
  rintro _ ⟨u, rfl, hspells⟩
  exact ⟨u, rfl, hspells⟩

theorem holds_adjacency : Holds Adjacency.tokens Adjacency.tree := by
  rintro _ ⟨u, rfl, hspells⟩
  refine ⟨.last u, by rw [Adjacency.tree], ?_⟩
  rw [Adjacency.tree, Adjacency.tokens]
  exact hspells

theorem holds_conjunction : Holds Conjunction.tokens Conjunction.tree := by
  intro tree htree
  obtain ⟨a, rfl, hspells⟩ := holds_adjacency tree htree
  refine ⟨.last a, by rw [Conjunction.tree], ?_⟩
  rw [Conjunction.tree, Conjunction.tokens]
  exact hspells

/-- Several parts that are read back are printed as a chain of a level that holds them. -/
theorem Holds.chain {α : Type} {yield : α → List Token} {meaning : α → Tree}
    (h : Holds yield meaning) {separator : String} {between : List Token}
    (hseparates : Separates separator between) {node : List Tree → Tags → Tree}
    {first second : Tree} {rest : List Tree}
    (hparts : ∀ part ∈ first :: second :: rest, part.ReadBack) :
    ∃ items : Chain α, items.tree node meaning = node (first :: second :: rest) [] ∧
      Spells (writeAll separator (first :: second :: rest)) (items.tokens between yield) := by
  obtain ⟨items, hitems, hspells⟩ := exists_chain fun part hpart => h part (hparts part hpart)
  refine ⟨items, ?_, ?_⟩
  · rw [← Parser.collect_items, hitems]
    rfl
  · rw [← hitems]
    exact Chain.spells hseparates write (writeAll separator) (fun _ => rfl) (fun _ _ _ => rfl)
      hspells

/-- What stands in parentheses is read back. -/
theorem readBack_group {d : Disjunction} (htree : Disjunction.tree d = tree) {text : String}
    (hwrite : tree.write = "(" ++ text ++ ")") (h : Spells text (Disjunction.tokens d)) :
    tree.ReadBack := by
  refine ⟨.plain (.group d), by rw [Unary.tree, Primary.tree, htree], ?_⟩
  rw [hwrite, Unary.tokens, Primary.tokens]
  exact h.parenthesised

/-- A node that is printed as its parts in parentheses, with a separator between them. -/
structure IsNode (node : List Tree → Tags → Tree) (separator : String) : Prop where
  scalars : ∀ parts, (node parts []).scalars = scalarsOfAll parts
  write : ∀ parts, (node parts []).write = "(" ++ writeAll separator parts ++ ")"

theorem isNode_adjacent : IsNode adjacent " " := ⟨fun _ => by rw [scalars], fun _ => by rw [write]⟩

theorem isNode_all : IsNode all " AND " := ⟨fun _ => by rw [scalars], fun _ => by rw [write]⟩

theorem isNode_any : IsNode any " OR " := ⟨fun _ => by rw [scalars], fun _ => by rw [write]⟩

/-- Nodes that are read back if all of their parts are. -/
def Groups (node : List Tree → Tags → Tree) : Prop :=
  ∀ {first second rest}, (∀ part ∈ first :: second :: rest, part.ReadBack) →
    (node (first :: second :: rest) []).ReadBack

theorem groups_adjacent : Groups adjacent := by
  intro first second rest hparts
  obtain ⟨items, htree, hspells⟩ := holds_unary.chain separates_blank hparts
  refine readBack_group (d := .last (.last items)) ?_ (isNode_adjacent.write _) ?_
  · rw [Disjunction.tree, Conjunction.tree, Adjacency.tree_eq, htree]
  · rw [Disjunction.tokens, Conjunction.tokens, Adjacency.tokens_eq]
    exact hspells

theorem groups_all : Groups all := by
  intro first second rest hparts
  obtain ⟨items, htree, hspells⟩ := holds_adjacency.chain separates_and hparts
  refine readBack_group (d := .last items) ?_ (isNode_all.write _) ?_
  · rw [Disjunction.tree, Conjunction.tree_eq, htree]
  · rw [Disjunction.tokens, Conjunction.tokens_eq]
    exact hspells

theorem groups_any : Groups any := by
  intro first second rest hparts
  obtain ⟨items, htree, hspells⟩ := holds_conjunction.chain separates_or hparts
  refine readBack_group (d := items) ?_ (isNode_any.write _) ?_
  · rw [Disjunction.tree_eq, htree]
  · rw [Disjunction.tokens_eq]
    exact hspells

/-! ### What is derived is read back -/

/-- A plain meaning of tokens that are read again is read back. -/
def ReadsBack (tokens : List Token) (tree : Tree) : Prop :=
  (∀ token ∈ tokens, Rereads token) → tree.IsPlain → tree.ReadBack

theorem keptByChains_readsBack {node : List Tree → Tags → Tree} {separator : String}
    (hnode : IsNode node separator) (hgroups : Groups node) (between : List Token) :
    KeptByChains ReadsBack between node := by
  intro α yield meaning item rest hitems hreads hplain
  obtain ⟨second, others, hrest⟩ := rest.exists_items
  have hparts : ∀ part ∈ (Chain.more item rest).items.map meaning, part.ReadBack := by
    intro part hpart
    have hpartPlain : part.IsPlain := fun v hv => hplain v (by
      rw [Chain.tree, hnode.scalars]
      exact mem_scalarsOfAll.mpr ⟨part, hpart, hv⟩)
    obtain ⟨a, ha, rfl⟩ := List.mem_map.mp hpart
    exact hitems a ha (fun token htoken => hreads token
      ((Chain.yield_sublist ha).subset htoken)) hpartPlain
  rw [Chain.tree]
  rw [Chain.items, List.map_cons] at hparts
  rw [hrest, List.map_cons] at hparts ⊢
  exact hgroups hparts

theorem readsBack_comparison (field : String) (how : Comparison) (literal : Literal) :
    ReadsBack (.word field :: (how.tokens ++ literal.tokens))
      (.compare field how.op literal.value) := by
  intro hreads hplain
  obtain ⟨hfield, hrest⟩ := List.forall_mem_cons.mp hreads
  obtain ⟨hhow, hliteral⟩ := List.forall_mem_append.mp hrest
  have hsign : how.op ≠ .plain ∧ Spells how.op.symbol [.operator how.op] := by
    cases how with
    | operator op =>
        obtain ⟨hop, hsign⟩ := hhow (.operator op) (List.mem_singleton_self _)
        exact ⟨hop, hsign.spells⟩
    | colon => exact ⟨by decide, (Lexer.readsAs_operator rfl).spells⟩
  have hvalue : literal.value.IsPlain := hplain _ (by
    rw [scalars_compare, Parser.scalars_literal]
    exact List.mem_singleton_self _)
  exact readBack_comparison (Lexer.ReadsAs.spells hfield) hsign.1 hsign.2
    (Literal.spells (hliteral _ (List.mem_singleton_self _)) hvalue)

theorem readsBack_membership (field : String) (how : Membership) (values : Chain Literal) :
    ReadsBack (.word field :: (how.tokens ++ listTokens values))
      (.compare field how.op (.list (values.items.map Literal.value))) := by
  intro hreads hplain
  obtain ⟨hfield, hrest⟩ := List.forall_mem_cons.mp hreads
  have hvalues : ∀ literal ∈ values.items, Rereads literal.1 ∧ literal.value.IsPlain := by
    intro literal hliteral
    refine ⟨hrest _ (List.mem_append_right _ (List.mem_cons_of_mem _
      (List.mem_append_left _ ((Chain.yield_sublist hliteral).subset
        (List.mem_singleton_self _))))), hplain _ ?_⟩
    rw [scalars_compare, Value.scalars, Parser.scalarsOfAll_literals]
    exact List.mem_map_of_mem hliteral
  exact readBack_membership how (Lexer.ReadsAs.spells hfield)
    (spells_list (fun literal hliteral => (hvalues literal hliteral).1)
      fun literal hliteral => (hvalues literal hliteral).2)

theorem compositional_readsBack : Compositional ReadsBack where
  negated := fun h hreads hplain => (h (fun token htoken => hreads token
    (List.mem_cons_of_mem _ htoken)) hplain).negated
  group := fun h hreads hplain => h (fun token htoken => hreads token
    (List.mem_cons_of_mem _ (List.mem_append_left _ htoken))) hplain
  comparison := readsBack_comparison
  membership := readsBack_membership
  value := fun literal hreads hplain => by
    have hvalue : literal.value.IsPlain := hplain _ (by
      rw [scalars_anywhere, Parser.scalars_literal]
      exact List.mem_singleton_self _)
    exact readBack_anywhere (Literal.spells (hreads _ (List.mem_singleton_self _)) hvalue)
  adjacent := keptByChains_readsBack isNode_adjacent groups_adjacent []
  all := keptByChains_readsBack isNode_all groups_all [.andWord]
  any := keptByChains_readsBack isNode_any groups_any [.orWord]

/-! ### Whole queries -/

/-- A field to sort by is printed with its direction. -/
theorem exists_sortItem {key : SortKey} (hfield : Spells key.field [.word key.field]) :
    ∃ item : SortItem, item.key = key ∧ Spells item.key.write item.tokens := by
  obtain ⟨field, descending⟩ := key
  cases descending with
  | false =>
      have hwords : " ASC" = " " ++ "ASC" := rfl
      refine ⟨⟨field, .ascending⟩, rfl, ?_⟩
      show Spells (field ++ " ASC") [.word field, .ascWord]
      rw [hwords, ← String.append_assoc]
      exact separates_blank hfield spells_asc
  | true =>
      have hwords : " DESC" = " " ++ "DESC" := rfl
      refine ⟨⟨field, .descending⟩, rfl, ?_⟩
      show Spells (field ++ " DESC") [.word field, .descWord]
      rw [hwords, ← String.append_assoc]
      exact separates_blank hfield spells_desc

/-- A query that is read back is read back with the order behind it. -/
theorem ReadBack.ordered (h : tree.ReadBack) {order : Option (Chain SortItem)}
    (horder : ∀ token ∈ order.elim [] orderTokens, Rereads token) :
    ∃ sentence : Sentence, sentence.tree = ordered tree order ∧
      Spells (ordered tree order).write sentence.tokens := by
  obtain ⟨u, rfl, hspells⟩ := h
  have hquery : Disjunction.tree (.last (.last (.last u))) = u.tree := by
    rw [Disjunction.tree, Conjunction.tree, Adjacency.tree]
  have htokens : Disjunction.tokens (.last (.last (.last u))) = u.tokens := by
    rw [Disjunction.tokens, Conjunction.tokens, Adjacency.tokens]
  cases order with
  | none =>
      refine ⟨.found (.last (.last (.last u))) none, by rw [Sentence.tree, hquery], ?_⟩
      rw [Sentence.tokens, htokens, Option.elim_none, List.append_nil]
      exact hspells
  | some order =>
      have hkeys : ∀ key ∈ order.items.map SortItem.key,
          ∃ item : SortItem, item.key = key ∧ Spells item.key.write item.tokens := by
        intro key hkey
        obtain ⟨item, hitem, rfl⟩ := List.mem_map.mp hkey
        have hin : Token.word item.field ∈ orderTokens order :=
          List.mem_cons_of_mem _ (List.mem_cons_of_mem _
            ((Chain.yield_sublist hitem).subset List.mem_cons_self))
        exact exists_sortItem (Lexer.ReadsAs.spells (horder _ hin))
      obtain ⟨first, rest, hitems⟩ := order.exists_items
      rw [hitems, List.map_cons] at hkeys
      obtain ⟨items, heq, hall⟩ := exists_chain hkeys
      rw [← List.map_cons, ← hitems] at heq
      refine ⟨.found (.last (.last (.last u))) (some items), ?_, ?_⟩
      · rw [Sentence.tree, hquery, Grammar.ordered, Grammar.ordered, heq]
      · rw [Sentence.tokens, htokens, Grammar.ordered, write, ← heq]
        exact separates_orderBy hspells (Chain.spells separates_comma SortKey.write
          (fun keys => ", ".intercalate (keys.map SortKey.write)) (fun _ => rfl)
          (fun _ _ _ => String.intercalate_cons_cons) hall)

theorem readBack_everything : everything.ReadBack :=
  @readBack_anywhere ⟨.word "*", rfl⟩ (@spells_word "*" (by decide) (by decide) rfl)

/-- A sentence with a plain meaning is read back. -/
theorem exists_sentence {sentence : Sentence} (hreads : ∀ token ∈ sentence.tokens, Rereads token)
    (hplain : sentence.tree.IsPlain) :
    ∃ again : Sentence, again.tree = sentence.tree ∧ Spells sentence.tree.write again.tokens := by
  cases sentence with
  | orderAlone order => exact @ReadBack.ordered _ readBack_everything (some order) hreads
  | found query order =>
      have hquery : (Disjunction.tree query).IsPlain := by
        cases order with
        | none => exact hplain
        | some order =>
            intro v hv
            refine hplain v ?_
            rw [Sentence.tree, Grammar.ordered, scalars]
            exact hv
      have hback := compositional_readsBack.disjunction query
        (fun token htoken => hreads token (List.mem_append_left _ htoken)) hquery
      exact hback.ordered fun token htoken => hreads token (List.mem_append_right _ htoken)

/-- A query that was read, and that is plain, is read back from its text. -/
theorem parse_write_of_isPlain {text : String} {tree : Tree} (h : Tree.parse text = .ok tree)
    (hplain : tree.IsPlain) : Tree.parse tree.write = .ok tree := by
  obtain ⟨tokens, htokens, hparse⟩ := bind_eq_ok.mp h
  obtain ⟨sentence, hkinds, rfl⟩ := ofTokens_eq_ok.mp hparse
  have hreads : ∀ token ∈ sentence.tokens, Rereads token := by
    rw [hkinds]
    exact Lexer.forall_of_scan Lexer.Reading.rereads htokens
  obtain ⟨again, htree, hspells⟩ := exists_sentence hreads hplain
  obtain ⟨placed, hscan, hagain⟩ := hspells [] [] nofun ⟨[], rfl, rfl⟩
  rw [List.append_nil] at hscan hagain
  exact bind_eq_ok.mpr ⟨placed, hscan, ofTokens_eq_ok.mpr ⟨again, hagain.symm, htree⟩⟩

end Tree

end DocIndex.Query
