/-
Where a query stops being one.

A text that is no query is refused at a token, or at its end.  What stands before that place is
the beginning of a query: each reader that fails has taken the first tokens of a derivation, and
whoever called it adds those of the parts that it had read.  Up to and including that token it is
not, since a query that begins with the same tokens would be refused at the same place.
-/
import DocIndex.Proofs.Query.Lookahead

namespace DocIndex.Query

namespace Parser

open Grammar

variable {α β : Type}

/-! ### Beginnings of derivations -/

/-- The tokens with which a derivation begins. -/
def Beginning (yield : α → List Token) (before : List Token) : Prop :=
  ∃ a more, yield a = before ++ more

/-- A reader that fails has taken the beginning of a derivation. -/
def Viable (read : Tokens → Except Failure (Read β)) (yield : α → List Token) : Prop :=
  ∀ ⦃tokens failure⦄, read tokens = .error failure →
    ∃ before, kinds tokens = before ++ kinds failure.rest ∧ Beginning yield before

theorem beginning_nil (yield : α → List Token) (a : α) : Beginning yield [] := ⟨a, yield a, rfl⟩

/-- A word as a value. -/
def wordLiteral : Literal := ⟨.word "", rfl⟩

def wordUnary : Unary := .plain (.value wordLiteral)

theorem viable_value : Viable value Literal.tokens := by
  intro tokens failure h
  obtain ⟨rfl, -⟩ := value_eq_error h
  exact ⟨[], rfl, beginning_nil _ wordLiteral⟩

theorem viable_values (fuel : Nat) : Viable (values fuel) listEnd := by
  induction fuel with
  | zero =>
      intro tokens failure h
      cases h
      exact ⟨[], rfl, beginning_nil _ (.last wordLiteral)⟩
  | succ fuel ih =>
      intro tokens failure h
      rcases bind_eq_error.mp h with hfirst | ⟨⟨v, rest⟩, hfirst, h⟩
      · obtain ⟨rfl, -⟩ := value_eq_error hfirst
        exact ⟨[], rfl, beginning_nil _ (.last wordLiteral)⟩
      · obtain ⟨literal, htokens, -⟩ := sound_value hfirst
        cases hskip : skip? .comma rest with
        | none =>
            simp only [hskip] at h
            rcases bind_eq_error.mp h with heat | ⟨_, -, h⟩
            · rw [eat_eq_error heat]
              exact ⟨literal.tokens, htokens, .last literal, [.closeParen], rfl⟩
            · cases h
        | some others =>
            simp only [hskip] at h
            rcases bind_eq_error.mp h with hothers | ⟨_, -, h⟩
            · obtain ⟨before, hbefore, items, more, hitems⟩ := ih hothers
              refine ⟨literal.tokens ++ .comma :: before, ?_, .more literal items, more, ?_⟩
              · rw [htokens, skip?_eq_some hskip, hbefore, List.append_assoc, List.cons_append]
              · rw [listEnd] at hitems ⊢
                rw [Chain.tokens, List.append_assoc, List.append_assoc, hitems]
                simp only [List.append_assoc, List.cons_append, List.nil_append]
            · cases h

theorem viable_list : Viable list listTokens := by
  intro tokens failure h
  rcases bind_eq_error.mp h with hopen | ⟨rest, hopen, h⟩
  · rw [eat_eq_error hopen]
    exact ⟨[], rfl, beginning_nil _ (.last wordLiteral)⟩
  · rcases bind_eq_error.mp h with hvalues | ⟨_, -, h⟩
    · obtain ⟨before, hbefore, items, more, hitems⟩ := viable_values _ hvalues
      refine ⟨.openParen :: before, ?_, items, more, ?_⟩
      · rw [eat_eq_ok hopen, hbefore, List.cons_append]
      · rw [listTokens, hitems, List.cons_append]
    · cases h

/-- What is made of a result fails where the result does. -/
theorem Viable.map {read : Tokens → Except Failure (Read α)} {γ : Type} {yield : γ → List Token}
    (h : Viable read yield) (change : α → β) :
    Viable (fun tokens => read tokens >>= fun first => .ok (change first.1, first.2)) yield := by
  intro tokens failure hread
  rcases bind_eq_error.mp hread with hfirst | ⟨_, -, hlast⟩
  · exact h hfirst
  · cases hlast

section Readers

variable {group : TreeParser}

theorem viable_primary (hgroup : Viable group Disjunction.tokens)
    (hsound : Sound group Disjunction.tokens Disjunction.tree) :
    Viable (primary group) Primary.tokens := by
  intro tokens failure h
  cases begins tokens with
  | group position others =>
      rcases bind_eq_error.mp h with hinner | ⟨⟨inner, rest⟩, hinner, h⟩
      · obtain ⟨before, hbefore, d, more, hd⟩ := hgroup hinner
        refine ⟨.openParen :: before, ?_, .group d, more ++ [.closeParen], ?_⟩
        · rw [kinds_cons, hbefore, List.cons_append]
        · rw [Primary.tokens, hd, List.append_assoc, List.cons_append]
      · rcases bind_eq_error.mp h with hclose | ⟨_, -, h⟩
        · obtain ⟨d, hd, -⟩ := hsound hinner
          refine ⟨.openParen :: Disjunction.tokens d, ?_, .group d, [.closeParen], ?_⟩
          · rw [kinds_cons, hd, eat_eq_error hclose, List.cons_append]
          · rw [Primary.tokens, List.cons_append]
        · cases h
  | @comparison field how position sign hsign others =>
      rw [primary_comparison group field hsign] at h
      obtain ⟨before, hbefore, literal, more, hliteral⟩ := viable_value.map _ h
      refine ⟨.word field :: (how.tokens ++ before), ?_, .comparison field how literal, more, ?_⟩
      · rw [kinds_cons, kinds_append, hsign, hbefore, List.cons_append, List.append_assoc]
      · rw [Primary.tokens, hliteral, List.cons_append, List.append_assoc]
  | @membership field how position sign hsign others =>
      rw [primary_membership group field hsign] at h
      obtain ⟨before, hbefore, items, more, hitems⟩ := viable_list.map _ h
      refine ⟨.word field :: (how.tokens ++ before), ?_, .membership field how items, more, ?_⟩
      · rw [kinds_cons, kinds_append, hsign, hbefore, List.cons_append, List.append_assoc]
      · rw [Primary.tokens, hitems, List.cons_append, List.append_assoc]
  | value hahead =>
      rw [primary_value group hahead] at h
      obtain ⟨before, hbefore, literal, more, hliteral⟩ := viable_value.map _ h
      exact ⟨before, hbefore, .value literal, more, by rw [Primary.tokens, hliteral]⟩

theorem viable_unary (hgroup : Viable group Disjunction.tokens)
    (hsound : Sound group Disjunction.tokens Disjunction.tree) :
    Viable (unary group) Unary.tokens := by
  intro tokens
  induction tokens using unary.induct with
  | case1 position others ih =>
      intro failure h
      rw [unary_notWord] at h
      rcases bind_eq_error.mp h with hinner | ⟨_, -, h⟩
      · obtain ⟨before, hbefore, u, more, hu⟩ := ih hinner
        refine ⟨.notWord :: before, ?_, .negated u, more, ?_⟩
        · rw [kinds_cons, hbefore, List.cons_append]
        · rw [Unary.tokens, hu, List.cons_append]
      · cases h
  | case2 tokens hfirst =>
      intro failure h
      rw [unary] at h
      · obtain ⟨before, hbefore, p, more, hp⟩ := viable_primary hgroup hsound h
        exact ⟨before, hbefore, .plain p, more, by rw [Unary.tokens, hp]⟩
      · exact hfirst

variable {item : TreeParser} {next? : Tokens → Option Tokens} {separator : List Token}
  {yield : α → List Token} {meaning : α → Tree}

theorem viable_chain (a : α) (hitem : Viable item yield) (hsound : Sound item yield meaning)
    (hnext : ∀ {tokens rest}, next? tokens = some rest → kinds tokens = separator ++ kinds rest)
    (fuel : Nat) : Viable (chain item next? fuel) (Chain.tokens separator yield) := by
  induction fuel with
  | zero =>
      intro tokens failure h
      cases h
      exact ⟨[], rfl, beginning_nil _ (.last a)⟩
  | succ fuel ih =>
      intro tokens failure h
      rcases bind_eq_error.mp h with hfirst | ⟨⟨first, rest⟩, hfirst, h⟩
      · obtain ⟨before, hbefore, b, more, hb⟩ := hitem hfirst
        exact ⟨before, hbefore, .last b, more, by rw [Chain.tokens, hb]⟩
      · obtain ⟨b, htokens, -⟩ := hsound hfirst
        cases hgo : next? rest with
        | none =>
            simp only [hgo] at h
            cases h
        | some others =>
            simp only [hgo] at h
            rcases bind_eq_error.mp h with hothers | ⟨_, -, h⟩
            · obtain ⟨before, hbefore, items, more, hitems⟩ := ih hothers
              refine ⟨yield b ++ (separator ++ before), ?_, .more b items, more, ?_⟩
              · rw [htokens, hnext hgo, hbefore, List.append_assoc, List.append_assoc]
              · rw [Chain.tokens, hitems, List.append_assoc, List.append_assoc]
            · cases h

theorem viable_level {node : List Tree → Tags → Tree} (a : α) (hitem : Viable item yield)
    (hsound : Sound item yield meaning)
    (hnext : ∀ {tokens rest}, next? tokens = some rest → kinds tokens = separator ++ kinds rest) :
    Viable (level node next? item) (Chain.tokens separator yield) := by
  have hchain : Viable (fun tokens => chain item next? tokens.length tokens)
      (Chain.tokens separator yield) :=
    fun tokens failure h => viable_chain a hitem hsound hnext tokens.length h
  exact hchain.map (collect node)

end Readers

theorem viable_disjunction (depth : Nat) : Viable (disjunction depth) Disjunction.tokens := by
  induction depth with
  | zero =>
      intro tokens failure h
      cases h
      exact ⟨[], rfl, beginning_nil _ (.last (.last (.last wordUnary)))⟩
  | succ depth ih =>
      have hsound := sound_disjunction depth
      have sunary := sound_unary hsound
      have sadjacency := @sound_level _ .adjacent _ _ _ _ _ sunary nextAdjacent?_eq_some
      have sconjunction := @sound_level _ .all _ _ [.andWord] _ _ sadjacency
        fun h => skip?_eq_some h
      rw [funext Disjunction.tokens_eq, funext Conjunction.tokens_eq, funext Adjacency.tokens_eq]
      exact viable_level (.last (.last wordUnary))
        (viable_level (.last wordUnary)
          (viable_level wordUnary (viable_unary ih hsound) sunary nextAdjacent?_eq_some)
          sadjacency fun h => skip?_eq_some h)
        sconjunction fun h => skip?_eq_some h

theorem viable_sortKeys (fuel : Nat) :
    Viable (sortKeys fuel) (Chain.tokens [.comma] SortItem.tokens) := by
  have hnone := beginning_nil (Chain.tokens [.comma] SortItem.tokens) (.last ⟨"", .unsaid⟩)
  induction fuel with
  | zero =>
      intro tokens failure h
      cases h
      exact ⟨[], rfl, hnone⟩
  | succ fuel ih =>
      intro tokens failure h
      rcases word_or_not tokens with ⟨field, position, others, rfl⟩ | hne
      · rw [sortKeys_word] at h
        obtain ⟨how, hhow, -⟩ := exists_direction field others
        cases hskip : skip? .comma (direction others).2 with
        | none =>
            simp only [hskip] at h
            cases h
        | some afterComma =>
            simp only [hskip] at h
            rcases bind_eq_error.mp h with hkeys | ⟨_, -, h⟩
            · obtain ⟨before, hbefore, items, more, hitems⟩ := ih hkeys
              refine ⟨SortItem.tokens ⟨field, how⟩ ++ .comma :: before, ?_,
                .more ⟨field, how⟩ items, more, ?_⟩
              · rw [kinds_cons, hhow, skip?_eq_some hskip, hbefore, SortItem.tokens]
                simp only [List.append_assoc, List.cons_append]
              · rw [Chain.tokens, hitems]
                simp only [List.append_assoc, List.cons_append, List.nil_append]
            · cases h
      · rw [sortKeys_of_ne fuel hne] at h
        cases h
        exact ⟨[], rfl, hnone⟩

theorem viable_ordering (tree : Tree) : Viable (ordering tree) orderTokens := by
  intro tokens failure h
  unfold ordering at h
  cases hskip : skip? .orderWord tokens with
  | none =>
      simp only [hskip] at h
      cases h
  | some afterOrder =>
      simp only [hskip] at h
      rw [skip?_eq_some hskip]
      rcases bind_eq_error.mp h with hby | ⟨afterBy, hby, h⟩
      · rw [eat_eq_error hby]
        exact ⟨[.orderWord], rfl, .last ⟨"", .unsaid⟩, [.byWord, .word ""], rfl⟩
      · rcases bind_eq_error.mp h with hkeys | ⟨_, -, h⟩
        · obtain ⟨before, hbefore, order, more, horder⟩ := viable_sortKeys _ hkeys
          refine ⟨.orderWord :: .byWord :: before, ?_, order, more, ?_⟩
          · rw [eat_eq_ok hby, hbefore, List.cons_append, List.cons_append]
          · rw [orderTokens, horder, List.cons_append, List.cons_append]
        · cases h

theorem viable_whole : Viable whole Sentence.tokens := by
  intro tokens failure h
  cases hskip : skip? .orderWord tokens with
  | some afterOrder =>
      rcases bind_eq_error.mp h with hfirst | ⟨read, hread, h⟩
      · rw [unordered_of_order hskip] at hfirst
        cases hfirst
      · rw [unordered_of_order hskip] at hread
        cases hread
        obtain ⟨before, hbefore, order, more, horder⟩ := viable_ordering _ h
        exact ⟨before, hbefore, .orderAlone order, more, horder⟩
  | none =>
      rcases bind_eq_error.mp h with hfirst | ⟨read, hread, h⟩
      · rw [unordered_of_none hskip] at hfirst
        obtain ⟨before, hbefore, d, more, hd⟩ := viable_disjunction _ hfirst
        refine ⟨before, hbefore, .found d none, more, ?_⟩
        rw [Sentence.tokens, hd, Option.elim_none, List.append_nil]
      · rw [unordered_of_none hskip] at hread
        obtain ⟨d, hd, -⟩ := sound_disjunction _ hread
        obtain ⟨before, hbefore, order, more, horder⟩ := viable_ordering _ h
        refine ⟨Disjunction.tokens d ++ before, ?_, .found d (some order), more, ?_⟩
        · rw [hd, hbefore, List.append_assoc]
        · rw [Sentence.tokens, Option.elim_some, horder, List.append_assoc]

/-- What stands before the place where a query fails is the beginning of a query. -/
theorem exists_front_of_query_error {tokens : Tokens} {failure : Failure}
    (h : query tokens = .error failure) : ∃ front, tokens = front ++ failure.rest ∧
      Beginning Sentence.tokens (kinds front) := by
  have hall : ∀ {front : Tokens} {before : List Token}, tokens = front ++ failure.rest →
      kinds tokens = before ++ kinds failure.rest → kinds front = before := by
    intro front before hfront hbefore
    rw [hfront, kinds_append] at hbefore
    exact List.append_cancel_right hbefore
  rw [query_eq] at h
  rcases bind_eq_error.mp h with hwhole | ⟨⟨tree, rest⟩, hwhole, hlast⟩
  · obtain ⟨front, hfront⟩ := consumes_whole.error hwhole
    obtain ⟨before, hbefore, hbeginning⟩ := viable_whole hwhole
    exact ⟨front, hfront.symm, hall hfront.symm hbefore ▸ hbeginning⟩
  · cases rest with
    | nil => cases hlast
    | cons t others =>
        cases hlast
        obtain ⟨front, hfront⟩ := consumes_whole.ok hwhole
        obtain ⟨sentence, htokens, -⟩ := sound_whole hwhole
        exact ⟨front, hfront.symm, sentence, [],
          by rw [List.append_nil, hall hfront.symm htokens]⟩

/-! ### The place of an error -/

/-- Tokens at some place. -/
def place (tokens : List Token) : Tokens := tokens.map fun token => ⟨token, 0⟩

theorem kinds_place (tokens : List Token) : kinds (place tokens) = tokens := by
  rw [kinds, place, List.map_map]
  exact List.map_id _

/-- Some placed tokens of these kinds are parsed. -/
def Accepted (tokens : List Token) : Prop :=
  ∃ (placed : List PlacedToken) (length : Nat) (tree : Tree),
    kinds placed = tokens ∧ Tree.ofTokens placed length = .ok tree

theorem accepted_iff {tokens : List Token} :
    Accepted tokens ↔ ∃ sentence : Sentence, sentence.tokens = tokens := by
  constructor
  · rintro ⟨placed, length, tree, rfl, hparse⟩
    obtain ⟨sentence, htokens, -⟩ := Tree.ofTokens_eq_ok.mp hparse
    exact ⟨sentence, htokens⟩
  · rintro ⟨sentence, rfl⟩
    exact ⟨place sentence.tokens, 0, sentence.tree, kinds_place _,
      Tree.ofTokens_eq_ok.mpr ⟨sentence, (kinds_place _).symm, rfl⟩⟩

/-- Tokens that are accepted are read as a query, wherever they stand. -/
theorem query_of_accepted {tokens : Tokens} (h : Accepted (kinds tokens)) :
    ∃ tree, query tokens = .ok tree := by
  obtain ⟨sentence, htokens⟩ := accepted_iff.mp h
  exact ⟨sentence.tree, complete_query htokens⟩

end Parser

namespace Tree

open Query.Parser (Accepted kinds)

/--
**An error stands where a text stops being the beginning of a query.**  The tokens before its
place can be continued to tokens that are accepted; with the token at its place they cannot, and
if its place is the end of the text, they are not accepted as they are.
-/
theorem parse_error_place {text : String} {tokens : List PlacedToken} {e : SyntaxError}
    (htokens : tokenize text = .ok tokens) (hne : tokens ≠ []) (h : Tree.parse text = .error e) :
    ∃ before after expected, tokens = before ++ after ∧
      e = ⟨(after.head?.map PlacedToken.position).getD text.length,
        .unexpected expected (after.head?.map PlacedToken.token)⟩ ∧
      (∃ more, Accepted (kinds before ++ more)) ∧
      (∀ t ∈ after.head?, ∀ more, ¬Accepted (kinds before ++ t.token :: more)) ∧
      (after = [] → ¬Accepted (kinds before)) := by
  have hparse : Tree.ofTokens tokens text.length = .error e := by
    rw [Tree.parse, htokens] at h
    exact h
  have hquery : ∃ failure, Parser.query tokens = .error failure ∧
      failure.toSyntaxError text.length = e := by
    rw [Tree.ofTokens, if_neg (by simpa using hne)] at hparse
    cases hread : Parser.query tokens with
    | ok tree =>
        rw [hread] at hparse
        cases hparse
    | error failure =>
        rw [hread] at hparse
        exact ⟨failure, rfl, Except.error.inj hparse⟩
  obtain ⟨⟨expected, after⟩, hfailure, rfl⟩ := hquery
  obtain ⟨before, rfl, sentence, more, hmore⟩ := Parser.exists_front_of_query_error hfailure
  refine ⟨before, after, expected, rfl, ?_, ⟨more, ?_⟩, ?_, ?_⟩
  · cases after <;> rfl
  · exact Parser.accepted_iff.mpr ⟨sentence, hmore⟩
  · intro t ht more haccepted
    cases after with
    | nil => cases ht
    | cons first rest =>
        obtain rfl := Option.some.inj ht
        -- a query with these tokens would fail at its copy of the same token
        let others : Parser.Tokens := first :: Parser.place more
        have halike : Parser.Alike (first :: rest) others := ⟨first, rest, _, rfl, rfl⟩
        have hothers := Parser.query_error_alike halike hfailure
        have hkinds : kinds (before ++ others) = kinds before ++ first.token :: more := by
          rw [Parser.kinds_append, Parser.kinds_cons, Parser.kinds_place]
        obtain ⟨tree, hread⟩ := Parser.query_of_accepted (hkinds ▸ haccepted)
        rw [hread] at hothers
        cases hothers
  · rintro rfl haccepted
    rw [List.append_nil] at hfailure
    obtain ⟨tree, hread⟩ := Parser.query_of_accepted haccepted
    rw [hread] at hfailure
    cases hfailure

/-- A conjunction whose second part is closed before it begins. -/
theorem parse_error_place_closed_early :
    tokenize "a AND )" = .ok [⟨.word "a", 0⟩, ⟨.andWord, 2⟩, ⟨.closeParen, 6⟩] ∧
      Tree.parse "a AND )" = .error ⟨6, .unexpected .value (some .closeParen)⟩ ∧
      (∃ more, Accepted ([.word "a", .andWord] ++ more)) ∧
      ∀ more, ¬Accepted ([.word "a", .andWord] ++ .closeParen :: more) := by
  have htokens : tokenize "a AND )" = .ok [⟨.word "a", 0⟩, ⟨.andWord, 2⟩, ⟨.closeParen, 6⟩] := by
    decide +kernel
  have hparse : Tree.parse "a AND )" = .error ⟨6, .unexpected .value (some .closeParen)⟩ := by
    rw [Tree.parse, htokens]
    rfl
  obtain ⟨before, after, expected, hsplit, herror, hbefore, hupto, -⟩ :=
    parse_error_place htokens (List.cons_ne_nil _ _) hparse
  have hposition := congrArg SyntaxError.position herror
  -- the place tells how many tokens stand before it
  rcases before with _ | ⟨first, _ | ⟨second, _ | ⟨third, others⟩⟩⟩
  · cases hsplit
    cases hposition
  · cases hsplit
    cases hposition
  · cases hsplit
    exact ⟨htokens, hparse, hbefore, hupto _ rfl⟩
  · have hrest : [] = others ++ after := congrArg (List.drop 3) hsplit
    obtain ⟨-, rfl⟩ := List.append_eq_nil_iff.mp hrest.symm
    cases hposition

end Tree

end DocIndex.Query
