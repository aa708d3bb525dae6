/-
The parser and the grammar.

Whatever the parser reads is derived by the grammar, and has the meaning that it gives: each
reader takes the tokens of a derivation from the front and leaves the others.  The other way
round, a reader takes a derivation from the front whole, if what comes after it may follow
there; then no reader stops too early or goes on too far.  The depth and the lengths that bound
the readers are enough, since each item has a token and each pair of parentheses has two.
-/
import DocIndex.Proofs.Except
import DocIndex.Proofs.Query.Grammar

namespace DocIndex.Query

namespace Parser

open Grammar

/-- The tokens without their places. -/
def kinds (tokens : Tokens) : List Token := tokens.map PlacedToken.token

theorem kinds_cons (t : PlacedToken) (rest : Tokens) : kinds (t :: rest) = t.token :: kinds rest :=
  rfl

theorem kinds_append (front rest : Tokens) : kinds (front ++ rest) = kinds front ++ kinds rest :=
  List.map_append

theorem kinds_eq_cons {front : Tokens} {token : Token} {others : List Token}
    (h : kinds front = token :: others) :
    ∃ position more, front = ⟨token, position⟩ :: more ∧ kinds more = others := by
  obtain ⟨t, more, rfl, rfl, hmore⟩ := List.map_eq_cons_iff.mp h
  exact ⟨t.position, more, rfl, hmore⟩

theorem kinds_eq_singleton {front : Tokens} {token : Token} (h : kinds front = [token]) :
    ∃ position, front = [⟨token, position⟩] := by
  obtain ⟨position, more, rfl, hmore⟩ := kinds_eq_cons h
  obtain rfl := List.map_eq_nil_iff.mp hmore
  exact ⟨position, rfl⟩

theorem kinds_eq_append {front : Tokens} {xs ys : List Token} (h : kinds front = xs ++ ys) :
    ∃ first second, front = first ++ second ∧ kinds first = xs ∧ kinds second = ys :=
  List.map_eq_append_iff.mp h

theorem eat_eq_cons {token : Token} {expected : Expected} {tokens rest : Tokens}
    (h : eat token expected tokens = .ok rest) : ∃ t, tokens = t :: rest ∧ t.token = token := by
  cases tokens with
  | nil => cases h
  | cons t others =>
      by_cases ht : t.token = token
      · rw [eat, if_pos ht] at h
        cases h
        exact ⟨t, rfl, ht⟩
      · rw [eat, if_neg ht] at h
        cases h

theorem eat_eq_ok {token : Token} {expected : Expected} {tokens rest : Tokens}
    (h : eat token expected tokens = .ok rest) : kinds tokens = token :: kinds rest := by
  obtain ⟨t, rfl, rfl⟩ := eat_eq_cons h
  rfl

theorem eat_eq_error {token : Token} {expected : Expected} {tokens : Tokens} {failure : Failure}
    (h : eat token expected tokens = .error failure) : failure = ⟨expected, tokens⟩ := by
  cases tokens with
  | nil =>
      cases h
      rfl
  | cons t others =>
      by_cases ht : t.token = token
      · rw [eat, if_pos ht] at h
        cases h
      · rw [eat, if_neg ht] at h
        cases h
        rfl

theorem skip?_eq_cons {token : Token} {tokens rest : Tokens} (h : skip? token tokens = some rest) :
    ∃ t, tokens = t :: rest ∧ t.token = token := by
  cases tokens with
  | nil => cases h
  | cons t others =>
      by_cases ht : t.token = token
      · rw [skip?, if_pos ht] at h
        cases h
        exact ⟨t, rfl, ht⟩
      · rw [skip?, if_neg ht] at h
        cases h

theorem skip?_eq_some {token : Token} {tokens rest : Tokens} (h : skip? token tokens = some rest) :
    kinds tokens = token :: kinds rest := by
  obtain ⟨t, rfl, rfl⟩ := skip?_eq_cons h
  rfl

/-- A value is read from a single literal. -/
theorem value_eq_ok {tokens rest : Tokens} {v : Value} (h : value tokens = .ok (v, rest)) :
    ∃ (literal : Literal) (position : Nat),
      tokens = ⟨literal.1, position⟩ :: rest ∧ literal.value = v := by
  cases tokens with
  | nil => cases h
  | cons t others =>
      unfold value at h
      cases hvalue : valueOf? t.token with
      | none =>
          simp only [hvalue] at h
          cases h
      | some v =>
          simp only [hvalue] at h
          cases h
          exact ⟨⟨t.token, by rw [hvalue]; rfl⟩, t.position, rfl, Option.get_of_eq_some _ hvalue⟩

/-- Nothing is taken where no value stands. -/
theorem value_eq_error {tokens : Tokens} {failure : Failure} (h : value tokens = .error failure) :
    failure = ⟨.value, tokens⟩ ∧ ∀ token ∈ (kinds tokens).head?, valueOf? token = none := by
  cases tokens with
  | nil =>
      cases h
      exact ⟨rfl, nofun⟩
  | cons t others =>
      unfold value at h
      cases hvalue : valueOf? t.token with
      | none =>
          simp only [hvalue] at h
          cases h
          exact ⟨rfl, fun token htoken => by cases htoken; exact hvalue⟩
      | some v =>
          simp only [hvalue] at h
          cases h

/-! ### What is read is derived -/

/-- A reader takes derivations from the front, and gives what they mean. -/
def Sound {α β : Type} (read : Tokens → Except Failure (Read β)) (yield : α → List Token)
    (meaning : α → β) : Prop :=
  ∀ ⦃tokens found rest⦄, read tokens = .ok (found, rest) →
    ∃ a, kinds tokens = yield a ++ kinds rest ∧ meaning a = found

theorem sound_value : Sound value Literal.tokens Literal.value := by
  intro tokens found rest h
  obtain ⟨literal, position, rfl, hfound⟩ := value_eq_ok h
  exact ⟨literal, rfl, hfound⟩

theorem sound_values (fuel : Nat) :
    Sound (values fuel) listEnd (fun items => items.items.map Literal.value) := by
  induction fuel with
  | zero =>
      intro tokens found rest h
      cases h
  | succ fuel ih =>
      intro tokens found rest h
      obtain ⟨⟨v, afterFirst⟩, hfirst, h⟩ := bind_eq_ok.mp h
      obtain ⟨literal, htokens, rfl⟩ := sound_value hfirst
      cases hskip : skip? .comma afterFirst with
      | none =>
          simp only [hskip] at h
          obtain ⟨left, heat, h⟩ := bind_eq_ok.mp h
          cases h
          refine ⟨.last literal, ?_, rfl⟩
          rw [htokens, eat_eq_ok heat, listEnd, Chain.tokens, List.append_assoc,
            List.singleton_append]
      | some afterComma =>
          simp only [hskip] at h
          obtain ⟨⟨others, left⟩, hothers, h⟩ := bind_eq_ok.mp h
          cases h
          obtain ⟨more, hmore, rfl⟩ := ih hothers
          refine ⟨.more literal more, ?_, rfl⟩
          rw [htokens, skip?_eq_some hskip, hmore, listEnd, listEnd, Chain.tokens]
          simp only [List.append_assoc, List.cons_append, List.nil_append]

/-- A literal stands for a scalar. -/
theorem scalars_literal (literal : Literal) : literal.value.scalars = [literal.value] := by
  obtain ⟨token, hvalue⟩ := literal
  cases token with
  | word text =>
      show (wordValue text).scalars = [wordValue text]
      unfold wordValue
      split
      · rfl
      · split <;> rfl
  | _ => first | rfl | cases hvalue

theorem scalarsOfAll_literals (items : List Literal) :
    Value.scalarsOfAll (items.map Literal.value) = items.map Literal.value := by
  induction items with
  | nil => rfl
  | cons item rest ih =>
      rw [List.map_cons, Value.scalarsOfAll, scalars_literal, ih, List.singleton_append]

/-- The scalars that literals stand for are not taken apart when they are listed. -/
theorem flatList_literals (items : List Literal) :
    Value.flatList (items.map Literal.value) = .list (items.map Literal.value) := by
  rw [Value.flatList, scalarsOfAll_literals]

theorem sound_list :
    Sound list listTokens (fun items => .list (items.items.map Literal.value)) := by
  intro tokens found rest h
  obtain ⟨afterOpen, hopen, h⟩ := bind_eq_ok.mp h
  obtain ⟨⟨vs, left⟩, hvalues, h⟩ := bind_eq_ok.mp h
  cases h
  obtain ⟨items, htokens, rfl⟩ := sound_values _ hvalues
  refine ⟨items, ?_, (flatList_literals _).symm⟩
  rw [eat_eq_ok hopen, htokens, listTokens, List.cons_append]

theorem sound_comparison (field : String) (how : Comparison) :
    Sound (comparison field how.op) Literal.tokens (fun v => .compare field how.op v.value) := by
  intro tokens found rest h
  obtain ⟨⟨v, left⟩, hvalue, h⟩ := bind_eq_ok.mp h
  cases h
  obtain ⟨literal, htokens, rfl⟩ := sound_value hvalue
  exact ⟨literal, htokens, rfl⟩

theorem sound_membership (field : String) (how : Membership) :
    Sound (membership field how.op) listTokens
      (fun items => .compare field how.op (.list (items.items.map Literal.value))) := by
  intro tokens found rest h
  obtain ⟨⟨v, left⟩, hlist, h⟩ := bind_eq_ok.mp h
  cases h
  obtain ⟨items, htokens, rfl⟩ := sound_list hlist
  exact ⟨items, htokens, rfl⟩

theorem primary_comparison (group : TreeParser) (field : String) {how : Comparison} {position : Nat}
    {sign : Tokens} (hsign : kinds sign = how.tokens) (rest : Tokens) :
    primary group (⟨.word field, position⟩ :: (sign ++ rest)) = comparison field how.op rest := by
  cases how <;> obtain ⟨_, rfl⟩ := kinds_eq_singleton hsign <;> rfl

theorem primary_membership (group : TreeParser) (field : String) {how : Membership} {position : Nat}
    {sign : Tokens} (hsign : kinds sign = how.tokens) (rest : Tokens) :
    primary group (⟨.word field, position⟩ :: (sign ++ rest)) = membership field how.op rest := by
  cases how with
  | within =>
      obtain ⟨_, rfl⟩ := kinds_eq_singleton hsign
      rfl
  | outside =>
      obtain ⟨_, others, rfl, hothers⟩ := kinds_eq_cons hsign
      obtain ⟨_, rfl⟩ := kinds_eq_singleton hothers
      rfl

theorem primary_value (group : TreeParser) {tokens : Tokens}
    (h : lookAhead (kinds tokens) = .value) :
    primary group tokens = (value tokens >>= fun read => .ok (.anywhere read.1, read.2)) := by
  unfold primary
  split
  case h_6 => rfl
  all_goals cases h

/-- The tokens with which a primary begins, as far as it looks ahead. -/
inductive Begins : Tokens → Prop
  | group (position : Nat) (rest : Tokens) : Begins (⟨.openParen, position⟩ :: rest)
  | comparison (field : String) (how : Comparison) (position : Nat) {sign : Tokens}
      (hsign : kinds sign = how.tokens) (rest : Tokens) :
      Begins (⟨.word field, position⟩ :: (sign ++ rest))
  | membership (field : String) (how : Membership) (position : Nat) {sign : Tokens}
      (hsign : kinds sign = how.tokens) (rest : Tokens) :
      Begins (⟨.word field, position⟩ :: (sign ++ rest))
  | value {tokens : Tokens} (h : lookAhead (kinds tokens) = .value) : Begins tokens

theorem begins_word (field : String) (position : Nat) (tokens : Tokens) :
    Begins (⟨.word field, position⟩ :: tokens) := by
  cases tokens with
  | nil => exact .value rfl
  | cons second others =>
      obtain ⟨token, place⟩ := second
      cases token with
      | operator op =>
          exact @Begins.comparison field (.operator op) position [⟨_, place⟩] rfl others
      | colon => exact @Begins.comparison field .colon position [⟨_, place⟩] rfl others
      | inWord => exact @Begins.membership field .within position [⟨_, place⟩] rfl others
      | notWord =>
          cases others with
          | nil => exact .value rfl
          | cons third rest =>
              obtain ⟨token, last⟩ := third
              cases token with
              | inWord =>
                  exact @Begins.membership field .outside position [⟨_, place⟩, ⟨_, last⟩] rfl rest
              | _ => exact .value rfl
      | _ => exact .value rfl

theorem begins (tokens : Tokens) : Begins tokens := by
  cases tokens with
  | nil => exact .value rfl
  | cons first rest =>
      obtain ⟨token, position⟩ := first
      cases token with
      | openParen => exact .group position rest
      | word field => exact begins_word field position rest
      | _ => exact .value rfl

theorem sound_primary {group : TreeParser}
    (hgroup : Sound group Disjunction.tokens Disjunction.tree) :
    Sound (primary group) Primary.tokens Primary.tree := by
  intro tokens found rest h
  cases begins tokens with
  | group position others =>
      obtain ⟨⟨inner, left⟩, hinner, h⟩ := bind_eq_ok.mp h
      obtain ⟨after, hclose, h⟩ := bind_eq_ok.mp h
      cases h
      obtain ⟨d, htokens, rfl⟩ := hgroup hinner
      refine ⟨.group d, ?_, by rw [Primary.tree]⟩
      rw [kinds_cons, htokens, eat_eq_ok hclose, Primary.tokens, List.cons_append,
        List.append_assoc, List.singleton_append]
  | comparison field how position hsign others =>
      rw [primary_comparison group field hsign] at h
      obtain ⟨literal, htokens, rfl⟩ := sound_comparison field how h
      refine ⟨.comparison field how literal, ?_, by rw [Primary.tree]⟩
      rw [kinds_cons, kinds_append, hsign, htokens, Primary.tokens, List.cons_append,
        List.append_assoc]
  | membership field how position hsign others =>
      rw [primary_membership group field hsign] at h
      obtain ⟨items, htokens, rfl⟩ := sound_membership field how h
      refine ⟨.membership field how items, ?_, by rw [Primary.tree]⟩
      rw [kinds_cons, kinds_append, hsign, htokens, Primary.tokens, List.cons_append,
        List.append_assoc]
  | value hahead =>
      rw [primary_value group hahead] at h
      obtain ⟨⟨v, left⟩, hvalue, h⟩ := bind_eq_ok.mp h
      cases h
      obtain ⟨literal, htokens, rfl⟩ := sound_value hvalue
      exact ⟨.value literal, by rw [htokens, Primary.tokens], by rw [Primary.tree]⟩

theorem sound_unary {group : TreeParser}
    (hgroup : Sound group Disjunction.tokens Disjunction.tree) :
    Sound (unary group) Unary.tokens Unary.tree := by
  intro tokens
  induction tokens using unary.induct with
  | case1 position others ih =>
      intro found rest h
      rw [unary] at h
      obtain ⟨⟨inner, left⟩, hinner, h⟩ := bind_eq_ok.mp h
      cases h
      obtain ⟨u, htokens, rfl⟩ := ih hinner
      refine ⟨.negated u, ?_, by rw [Unary.tree]⟩
      rw [kinds_cons, htokens, Unary.tokens, List.cons_append]
  | case2 tokens hfirst =>
      intro found rest h
      rw [unary] at h
      · obtain ⟨p, htokens, rfl⟩ := sound_primary hgroup h
        exact ⟨.plain p, by rw [htokens, Unary.tokens], by rw [Unary.tree]⟩
      · exact hfirst

theorem sound_chain {α : Type} {item : TreeParser} {next? : Tokens → Option Tokens}
    {separator : List Token} {yield : α → List Token} {meaning : α → Tree}
    (hitem : Sound item yield meaning)
    (hnext : ∀ {tokens rest}, next? tokens = some rest → kinds tokens = separator ++ kinds rest)
    (fuel : Nat) :
    Sound (chain item next? fuel) (Chain.tokens separator yield)
      (fun items => items.items.map meaning) := by
  induction fuel with
  | zero =>
      intro tokens found rest h
      cases h
  | succ fuel ih =>
      intro tokens found rest h
      obtain ⟨⟨first, afterFirst⟩, hfirst, h⟩ := bind_eq_ok.mp h
      obtain ⟨a, htokens, rfl⟩ := hitem hfirst
      cases hgo : next? afterFirst with
      | none =>
          simp only [hgo] at h
          cases h
          exact ⟨.last a, htokens, rfl⟩
      | some others =>
          simp only [hgo] at h
          obtain ⟨⟨found, left⟩, hothers, h⟩ := bind_eq_ok.mp h
          cases h
          obtain ⟨more, hmore, rfl⟩ := ih hothers
          refine ⟨.more a more, ?_, rfl⟩
          rw [htokens, hnext hgo, hmore, Chain.tokens, List.append_assoc, List.append_assoc]

/-- Collecting the meanings of the items gives the meaning of the chain. -/
theorem collect_items {α : Type} (node : List Tree → Tags → Tree) (meaning : α → Tree)
    (items : Chain α) : collect node (items.items.map meaning) = items.tree node meaning := by
  cases items with
  | last item => rfl
  | more item rest => cases rest <;> rfl

theorem sound_level {α : Type} {node : List Tree → Tags → Tree} {item : TreeParser}
    {next? : Tokens → Option Tokens} {separator : List Token} {yield : α → List Token}
    {meaning : α → Tree} (hitem : Sound item yield meaning)
    (hnext : ∀ {tokens rest}, next? tokens = some rest → kinds tokens = separator ++ kinds rest) :
    Sound (level node next? item) (Chain.tokens separator yield) (Chain.tree node meaning) := by
  intro tokens found rest h
  obtain ⟨⟨trees, left⟩, htrees, h⟩ := bind_eq_ok.mp h
  cases h
  obtain ⟨items, htokens, rfl⟩ := sound_chain hitem hnext _ htrees
  exact ⟨items, htokens, (collect_items node meaning items).symm⟩

theorem nextAdjacent?_eq_some {tokens rest : Tokens} (h : nextAdjacent? tokens = some rest) :
    kinds tokens = [] ++ kinds rest := by
  cases tokens with
  | nil => cases h
  | cons t others =>
      rw [nextAdjacent?] at h
      by_cases hstarts : startsUnary t.token = true
      · rw [if_pos hstarts] at h
        cases h
        rfl
      · rw [if_neg hstarts] at h
        cases h

theorem sound_disjunction (depth : Nat) :
    Sound (disjunction depth) Disjunction.tokens Disjunction.tree := by
  induction depth with
  | zero =>
      intro tokens found rest h
      cases h
  | succ depth ih =>
      have hadjacency : Sound (level .adjacent nextAdjacent? (unary (disjunction depth)))
          Adjacency.tokens Adjacency.tree := by
        rw [funext Adjacency.tokens_eq, funext Adjacency.tree_eq]
        exact sound_level (sound_unary ih) nextAdjacent?_eq_some
      have hconjunction : Sound (level .all (skip? .andWord)
          (level .adjacent nextAdjacent? (unary (disjunction depth))))
          Conjunction.tokens Conjunction.tree := by
        rw [funext Conjunction.tokens_eq, funext Conjunction.tree_eq]
        exact sound_level hadjacency fun h => skip?_eq_some h
      rw [funext Disjunction.tokens_eq, funext Disjunction.tree_eq]
      exact sound_level hconjunction fun h => skip?_eq_some h

/-- Reads which way a field is sorted. -/
def direction (tokens : Tokens) : Bool × Tokens :=
  match skip? .descWord tokens with
  | some rest => (true, rest)
  | none => (false, (skip? .ascWord tokens).getD tokens)

theorem sortKeys_word (fuel : Nat) (field : String) (position : Nat) (rest : Tokens) :
    sortKeys (fuel + 1) (⟨.word field, position⟩ :: rest) =
      match skip? .comma (direction rest).2 with
      | some others => do
        let (keys, left) ← sortKeys fuel others
        return (⟨field, (direction rest).1⟩ :: keys, left)
      | none => .ok ([⟨field, (direction rest).1⟩], (direction rest).2) := rfl

theorem exists_direction (field : String) (tokens : Tokens) :
    ∃ how : Direction, kinds tokens = how.tokens ++ kinds (direction tokens).2 ∧
      SortItem.key ⟨field, how⟩ = ⟨field, (direction tokens).1⟩ := by
  unfold direction
  cases hdown : skip? .descWord tokens with
  | some rest => exact ⟨.descending, skip?_eq_some hdown, rfl⟩
  | none =>
      cases hup : skip? .ascWord tokens with
      | some rest => exact ⟨.ascending, skip?_eq_some hup, rfl⟩
      | none => exact ⟨.unsaid, rfl, rfl⟩

theorem sound_sortKeys (fuel : Nat) :
    Sound (sortKeys fuel) (Chain.tokens [.comma] SortItem.tokens)
      (fun items => items.items.map SortItem.key) := by
  induction fuel with
  | zero =>
      intro tokens found rest h
      cases h
  | succ fuel ih =>
      intro tokens found rest h
      match tokens with
      | ⟨.word field, position⟩ :: others =>
          rw [sortKeys_word] at h
          obtain ⟨how, hhow, hkey⟩ := exists_direction field others
          cases hskip : skip? .comma (direction others).2 with
          | none =>
              simp only [hskip] at h
              cases h
              refine ⟨.last ⟨field, how⟩, ?_, congrArg (fun key => [key]) hkey⟩
              rw [kinds_cons, hhow]
              rfl
          | some afterComma =>
              simp only [hskip] at h
              obtain ⟨⟨keys, left⟩, hkeys, h⟩ := bind_eq_ok.mp h
              cases h
              obtain ⟨more, hmore, rfl⟩ := ih hkeys
              refine ⟨.more ⟨field, how⟩ more, ?_, congrArg (fun key => key :: _) hkey⟩
              rw [kinds_cons, hhow, skip?_eq_some hskip, hmore, Chain.tokens, SortItem.tokens]
              simp only [List.append_assoc, List.cons_append, List.nil_append]

theorem sound_order {tree found : Tree} {tokens afterOrder rest : Tokens}
    (hskip : skip? .orderWord tokens = some afterOrder)
    (h : ordering tree tokens = .ok (found, rest)) : ∃ order : Chain SortItem,
      kinds tokens = orderTokens order ++ kinds rest ∧ ordered tree (some order) = found := by
  unfold ordering at h
  simp only [hskip] at h
  obtain ⟨afterBy, hby, h⟩ := bind_eq_ok.mp h
  obtain ⟨⟨keys, left⟩, hkeys, h⟩ := bind_eq_ok.mp h
  cases h
  obtain ⟨order, htokens, rfl⟩ := sound_sortKeys _ hkeys
  refine ⟨order, ?_, rfl⟩
  rw [skip?_eq_some hskip, eat_eq_ok hby, htokens]
  rfl

theorem sound_ordering {tree found : Tree} {tokens rest : Tokens}
    (h : ordering tree tokens = .ok (found, rest)) :
    ∃ order : Option (Chain SortItem),
      kinds tokens = order.elim [] orderTokens ++ kinds rest ∧ ordered tree order = found := by
  cases hskip : skip? .orderWord tokens with
  | none =>
      unfold ordering at h
      simp only [hskip] at h
      cases h
      exact ⟨none, rfl, rfl⟩
  | some afterOrder =>
      obtain ⟨order, htokens, hfound⟩ := sound_order hskip h
      exact ⟨some order, htokens, hfound⟩

/-- A query without the order after it; an order alone is left where it is. -/
def unordered (tokens : Tokens) : Except Failure (Read Tree) :=
  if (skip? .orderWord tokens).isSome then .ok (.everything, tokens)
  else disjunction tokens.length tokens

/-- A query and the order after it. -/
def whole (tokens : Tokens) : Except Failure (Read Tree) :=
  unordered tokens >>= fun read => ordering read.1 read.2

theorem query_eq (tokens : Tokens) : query tokens = whole tokens >>= fun last =>
    if last.2.isEmpty then .ok last.1 else .error ⟨.endOfQuery, last.2⟩ := by
  have hquery : query tokens = unordered tokens >>= fun read => ordering read.1 read.2 >>=
      fun last => if last.2.isEmpty then .ok last.1 else .error ⟨.endOfQuery, last.2⟩ := by
    unfold query unordered
    split <;> rfl
  rw [hquery, whole]
  cases unordered tokens <;> rfl

theorem query_eq_ok {tokens : Tokens} {tree : Tree} :
    query tokens = .ok tree ↔ whole tokens = .ok (tree, []) := by
  rw [query_eq, bind_eq_ok]
  constructor
  · rintro ⟨⟨found, rest⟩, hfound, h⟩
    cases rest with
    | nil =>
        cases h
        exact hfound
    | cons t others => cases h
  · exact fun h => ⟨_, h, rfl⟩

theorem unordered_of_order {tokens afterOrder : Tokens}
    (hskip : skip? .orderWord tokens = some afterOrder) :
    unordered tokens = .ok (.everything, tokens) := by
  rw [unordered, hskip]
  rfl

theorem unordered_of_none {tokens : Tokens} (hskip : skip? .orderWord tokens = none) :
    unordered tokens = disjunction tokens.length tokens := by
  rw [unordered, hskip]
  rfl

theorem sound_whole : Sound whole Sentence.tokens Sentence.tree := by
  intro tokens tree rest h
  obtain ⟨⟨found, left⟩, hfound, hordering⟩ := bind_eq_ok.mp h
  cases hskip : skip? .orderWord tokens with
  | some afterOrder =>
      rw [unordered_of_order hskip] at hfound
      cases hfound
      obtain ⟨order, htokens, rfl⟩ := sound_order hskip hordering
      exact ⟨.orderAlone order, htokens, rfl⟩
  | none =>
      rw [unordered_of_none hskip] at hfound
      obtain ⟨d, htokens, rfl⟩ := sound_disjunction _ hfound
      obtain ⟨order, horder, rfl⟩ := sound_ordering hordering
      refine ⟨.found d order, ?_, rfl⟩
      rw [htokens, horder, Sentence.tokens, List.append_assoc]

/-- What is read as a whole query is derived. -/
theorem sound_query {tokens : Tokens} {tree : Tree} (h : query tokens = .ok tree) :
    ∃ sentence : Sentence, sentence.tokens = kinds tokens ∧ sentence.tree = tree := by
  obtain ⟨sentence, htokens, htree⟩ := sound_whole (query_eq_ok.mp h)
  rw [show kinds [] = [] from rfl, List.append_nil] at htokens
  exact ⟨sentence, htokens.symm, htree⟩

/-! ### What is derived is read -/

/--
A reader takes a derivation of at most so many tokens from the front, if what comes after it may
follow there.
-/
def Complete {α β : Type} (limit : Nat) (read : Tokens → Except Failure (Read β))
    (yield : α → List Token) (meaning : α → β) (ends : List Token → Prop) : Prop :=
  ∀ ⦃a front rest⦄, kinds front = yield a → front.length ≤ limit → ends (kinds rest) →
    read (front ++ rest) = .ok (meaning a, rest)

theorem eat_cons (token : Token) (expected : Expected) (position : Nat) (rest : Tokens) :
    eat token expected (⟨token, position⟩ :: rest) = .ok rest := by
  rw [eat, if_pos rfl]

theorem skip?_cons (token : Token) (position : Nat) (rest : Tokens) :
    skip? token (⟨token, position⟩ :: rest) = some rest := by
  rw [skip?, if_pos rfl]

theorem skip?_eq_none {token : Token} {tokens : Tokens}
    (h : (kinds tokens).head? ≠ some token) : skip? token tokens = none := by
  cases tokens with
  | nil => rfl
  | cons t others =>
      rw [skip?, if_neg]
      intro ht
      exact h (by rw [kinds_cons, ht]; rfl)

theorem value_literal (literal : Literal) (position : Nat) (rest : Tokens) :
    value (⟨literal.1, position⟩ :: rest) = .ok (literal.value, rest) := by
  have hvalue : valueOf? literal.1 = some literal.value := (Option.some_get literal.2).symm
  simp only [value, hvalue]

theorem values_literal (fuel : Nat) (literal : Literal) (position : Nat) (rest : Tokens) :
    values (fuel + 1) (⟨literal.1, position⟩ :: rest) =
      match skip? .comma rest with
      | some others => do
        let (more, left) ← values fuel others
        return (literal.value :: more, left)
      | none => do return ([literal.value], ← eat .closeParen .closing rest) := by
  rw [values, value_literal]
  rfl

theorem complete_values (fuel : Nat) :
    Complete fuel (values fuel) listEnd (fun items => items.items.map Literal.value)
      fun _ => True := by
  intro items
  induction items generalizing fuel with
  | last literal =>
      intro front rest hfront hlimit _
      obtain ⟨position, more, rfl, hmore⟩ := kinds_eq_cons hfront
      obtain ⟨closing, rfl⟩ := kinds_eq_singleton hmore
      cases fuel with
      | zero => cases hlimit
      | succ fuel =>
          have hcomma : skip? .comma (⟨.closeParen, closing⟩ :: rest) = none :=
            skip?_eq_none nofun
          rw [List.cons_append, values_literal, List.cons_append, List.nil_append, hcomma]
          exact bind_eq_ok.mpr ⟨_, eat_cons _ _ _ _, rfl⟩
  | more literal others ih =>
      intro front rest hfront hlimit _
      obtain ⟨position, more, rfl, hmore⟩ := kinds_eq_cons hfront
      obtain ⟨comma, last, rfl, hlast⟩ := kinds_eq_cons hmore
      cases fuel with
      | zero => cases hlimit
      | succ fuel =>
          rw [List.length_cons, List.length_cons] at hlimit
          rw [List.cons_append, values_literal, List.cons_append, skip?_cons]
          exact bind_eq_ok.mpr ⟨_, ih fuel hlast (by omega) trivial, rfl⟩

theorem complete_list (limit : Nat) :
    Complete limit list listTokens (fun items => .list (items.items.map Literal.value))
      fun _ => True := by
  intro items front rest hfront _ _
  obtain ⟨position, more, rfl, hmore⟩ := kinds_eq_cons hfront
  have hfuel : more.length ≤ (more ++ rest).length := by
    rw [List.length_append]
    omega
  refine bind_eq_ok.mpr ⟨_, eat_cons _ _ _ _, ?_⟩
  refine bind_eq_ok.mpr ⟨_, complete_values _ hmore hfuel trivial, ?_⟩
  show Except.ok (Value.flatList (items.items.map Literal.value), rest) = _
  rw [flatList_literals]

/-- A literal is read as such if it is not the field of a clause. -/
theorem primary_literal {group : TreeParser} {literal : Literal} {position : Nat} {rest : Tokens}
    (hahead : lookAhead (literal.1 :: kinds rest) = .value) :
    primary group (⟨literal.1, position⟩ :: rest) = .ok (.anywhere literal.value, rest) := by
  have hread := @primary_value group (⟨literal.1, position⟩ :: rest) hahead
  rw [hread, value_literal]
  rfl

theorem complete_primary {limit : Nat} {group : TreeParser}
    (hgroup : Complete limit group Disjunction.tokens Disjunction.tree EndsDisjunction) :
    Complete (limit + 1) (primary group) Primary.tokens Primary.tree EndsUnary := by
  intro p front rest hfront hlimit hends
  rw [Primary.tree.eq_def]
  rw [Primary.tokens.eq_def] at hfront
  cases p with
  | group d =>
      obtain ⟨opening, more, rfl, hmore⟩ := kinds_eq_cons hfront
      obtain ⟨inner, last, rfl, hinner, hlast⟩ := kinds_eq_append hmore
      obtain ⟨closing, rfl⟩ := kinds_eq_singleton hlast
      rw [List.length_cons, List.length_append] at hlimit
      have hclose : EndsDisjunction (kinds (⟨.closeParen, closing⟩ :: rest)) :=
        endsDisjunction_close _
      rw [List.cons_append, List.append_assoc]
      refine bind_eq_ok.mpr ⟨_, hgroup hinner (by omega) hclose, ?_⟩
      exact bind_eq_ok.mpr ⟨_, eat_cons _ _ _ _, rfl⟩
  | comparison field how v =>
      obtain ⟨position, more, rfl, hmore⟩ := kinds_eq_cons hfront
      obtain ⟨sign, last, rfl, hsign, hlast⟩ := kinds_eq_append hmore
      obtain ⟨place, rfl⟩ := kinds_eq_singleton hlast
      rw [List.cons_append, List.append_assoc, primary_comparison group field hsign]
      exact bind_eq_ok.mpr ⟨_, value_literal v place rest, rfl⟩
  | membership field how vs =>
      obtain ⟨position, more, rfl, hmore⟩ := kinds_eq_cons hfront
      obtain ⟨sign, last, rfl, hsign, hlast⟩ := kinds_eq_append hmore
      rw [List.cons_append, List.append_assoc, primary_membership group field hsign]
      exact bind_eq_ok.mpr ⟨_, complete_list _ hlast (Nat.le_refl _) trivial, rfl⟩
  | value literal =>
      obtain ⟨position, rfl⟩ := kinds_eq_singleton hfront
      exact primary_literal (lookAhead_value literal hends)

theorem complete_unary {limit : Nat} {group : TreeParser}
    (hgroup : Complete limit group Disjunction.tokens Disjunction.tree EndsDisjunction) :
    Complete (limit + 1) (unary group) Unary.tokens Unary.tree EndsUnary := by
  intro u front
  induction front generalizing u with
  | nil =>
      intro rest hfront
      obtain ⟨token, more, htokens, -⟩ := Unary.starts u
      rw [htokens] at hfront
      cases hfront
  | cons t others ih =>
      intro rest hfront hlimit hends
      cases u with
      | negated inner =>
          rw [Unary.tokens] at hfront
          obtain ⟨position, more, heq, hmore⟩ := kinds_eq_cons hfront
          obtain ⟨rfl, rfl⟩ := List.cons.inj heq
          rw [List.length_cons] at hlimit
          rw [List.cons_append, unary, Unary.tree]
          exact bind_eq_ok.mpr ⟨_, ih hmore (by omega) hends, rfl⟩
      | plain p =>
          rw [Unary.tokens] at hfront
          rw [Unary.tree, unary]
          · exact complete_primary hgroup hfront hlimit hends
          · intro position more heq
            have hkinds := congrArg kinds heq
            rw [kinds_append, hfront] at hkinds
            exact p.ne_negation _ _ hkinds

/-- Where a chain of items goes on, and what is passed over there. -/
structure Steps {α : Type} (next? : Tokens → Option Tokens) (separator : List Token)
    (yield : α → List Token) (ends : List Token → Prop) : Prop where
  passes : ∀ {tokens rest}, next? tokens = some rest → kinds tokens = separator ++ kinds rest
  goesOn : ∀ {joint more} item others, kinds joint = separator →
    kinds more = yield item ++ others → next? (joint ++ more) = some more
  stops : ∀ {rest}, ends (kinds rest) → next? rest = none

theorem steps_skip? {α : Type} {token : Token} {yield : α → List Token}
    {ends : List Token → Prop} (hends : ∀ {rest}, ends rest → rest.head? ≠ some token) :
    Steps (skip? token) [token] yield ends where
  passes := fun h => skip?_eq_some h
  goesOn := by
    intro joint more item others hjoint _
    obtain ⟨position, rfl⟩ := kinds_eq_singleton hjoint
    exact skip?_cons token position more
  stops := fun h => skip?_eq_none (hends h)

theorem steps_nextAdjacent? : Steps nextAdjacent? [] Unary.tokens EndsAdjacency where
  passes := fun h => nextAdjacent?_eq_some h
  goesOn := by
    intro joint more u others hjoint hmore
    obtain rfl := List.map_eq_nil_iff.mp hjoint
    obtain ⟨token, rest, htokens, hstarts⟩ := Unary.starts u
    rw [htokens] at hmore
    obtain ⟨position, last, rfl, -⟩ := kinds_eq_cons hmore
    rw [List.nil_append, nextAdjacent?, if_pos hstarts]
  stops := by
    intro rest hends
    cases rest with
    | nil => rfl
    | cons t others =>
        have hapart := hends.apart t.token rfl
        rw [nextAdjacent?, hapart, if_neg Bool.false_ne_true]

theorem length_pos_of_starts {α : Type} {yield : α → List Token} (hstarts : Starts yield)
    {front : Tokens} {a : α} (hfront : kinds front = yield a) : 0 < front.length := by
  obtain ⟨token, rest, htokens, -⟩ := hstarts a
  rw [htokens] at hfront
  obtain ⟨position, more, rfl, -⟩ := kinds_eq_cons hfront
  rw [List.length_cons]
  omega

/-- A chain is read whole.  The fuel lasts, since each item has a token. -/
theorem complete_chain {α : Type} {limit : Nat} {item : TreeParser}
    {next? : Tokens → Option Tokens} {separator : List Token} {yield : α → List Token}
    {meaning : α → Tree} {endsItem endsChain : List Token → Prop}
    (hitem : Complete limit item yield meaning endsItem)
    (hjoins : Joins separator yield endsItem endsChain) (hstarts : Starts yield)
    (hsteps : Steps next? separator yield endsChain) {items : Chain α} :
    ∀ {fuel : Nat} {front rest : Tokens}, kinds front = items.tokens separator yield →
      front.length ≤ limit → front.length ≤ fuel → endsChain (kinds rest) →
        chain item next? fuel (front ++ rest) = .ok (items.items.map meaning, rest) := by
  induction items with
  | last a =>
      intro fuel front rest hfront hlimit hfuel hends
      have hpos := length_pos_of_starts hstarts hfront
      cases fuel with
      | zero => omega
      | succ fuel =>
          refine bind_eq_ok.mpr ⟨_, hitem hfront hlimit (hjoins.atEnd hends), ?_⟩
          simp only [hsteps.stops hends]
          rfl
  | more a others ih =>
      intro fuel front rest hfront hlimit hfuel hends
      obtain ⟨first, second, rfl, hfirst, hsecond⟩ := kinds_eq_append hfront
      obtain ⟨joint, more, rfl, hjoint, hmore⟩ := kinds_eq_append hsecond
      have hpos := length_pos_of_starts hstarts hfirst
      rw [List.length_append, List.length_append] at hlimit hfuel
      cases fuel with
      | zero => omega
      | succ fuel =>
          have hbefore : endsItem (kinds (joint ++ more ++ rest)) := by
            rw [kinds_append, kinds_append, hjoint, hmore, List.append_assoc]
            exact hjoins.before_more others _
          obtain ⟨b, left, hothers⟩ := others.exists_tokens separator yield
          have hgo : next? (joint ++ more ++ rest) = some (more ++ rest) := by
            rw [List.append_assoc]
            refine hsteps.goesOn b (left ++ kinds rest) hjoint ?_
            rw [kinds_append, hmore, hothers, List.append_assoc]
          rw [List.append_assoc]
          refine bind_eq_ok.mpr ⟨_, hitem hfirst (by omega) hbefore, ?_⟩
          simp only [hgo]
          exact bind_eq_ok.mpr ⟨_, ih hmore (by omega) (by omega) hends, rfl⟩

theorem complete_level {α : Type} {limit : Nat} {node : List Tree → Tags → Tree}
    {item : TreeParser} {next? : Tokens → Option Tokens} {separator : List Token}
    {yield : α → List Token} {meaning : α → Tree} {endsItem endsChain : List Token → Prop}
    (hitem : Complete limit item yield meaning endsItem)
    (hjoins : Joins separator yield endsItem endsChain) (hstarts : Starts yield)
    (hsteps : Steps next? separator yield endsChain) :
    Complete limit (level node next? item) (Chain.tokens separator yield)
      (Chain.tree node meaning) endsChain := by
  intro items front rest hfront hlimit hends
  have hfuel : front.length ≤ (front ++ rest).length := by
    rw [List.length_append]
    omega
  refine bind_eq_ok.mpr
    ⟨_, complete_chain hitem hjoins hstarts hsteps hfront hlimit hfuel hends, ?_⟩
  rw [← collect_items]
  rfl

/-- The depth lasts, since what stands in parentheses has fewer tokens. -/
theorem complete_disjunction (depth : Nat) :
    Complete depth (disjunction depth) Disjunction.tokens Disjunction.tree EndsDisjunction := by
  induction depth with
  | zero =>
      intro d front rest hfront hlimit hends
      have hpos := length_pos_of_starts Disjunction.starts hfront
      omega
  | succ depth ih =>
      have hadjacency : Complete (depth + 1)
          (level .adjacent nextAdjacent? (unary (disjunction depth)))
          Adjacency.tokens Adjacency.tree EndsAdjacency := by
        rw [funext Adjacency.tokens_eq, funext Adjacency.tree_eq]
        exact complete_level (complete_unary ih) joins_adjacency Unary.starts steps_nextAdjacent?
      have hconjunction : Complete (depth + 1)
          (level .all (skip? .andWord) (level .adjacent nextAdjacent? (unary (disjunction depth))))
          Conjunction.tokens Conjunction.tree EndsConjunction := by
        rw [funext Conjunction.tokens_eq, funext Conjunction.tree_eq]
        exact complete_level hadjacency joins_conjunction Adjacency.starts
          (steps_skip? fun h => h.last)
      rw [funext Disjunction.tokens_eq, funext Disjunction.tree_eq]
      exact complete_level hconjunction joins_disjunction Conjunction.starts
        (steps_skip? fun h => h.last)

theorem direction_tokens {how : Direction} {front rest : Tokens} (hfront : kinds front = how.tokens)
    (hends : EndsSortItem (kinds rest)) (field : String) :
    (direction (front ++ rest)).2 = rest ∧
      SortItem.key ⟨field, how⟩ = ⟨field, (direction (front ++ rest)).1⟩ := by
  have hup := skip?_eq_none hends.1
  have hdown := skip?_eq_none hends.2
  cases how with
  | unsaid =>
      obtain rfl := List.map_eq_nil_iff.mp hfront
      rw [List.nil_append, direction, hdown, hup]
      exact ⟨rfl, rfl⟩
  | ascending =>
      obtain ⟨position, rfl⟩ := kinds_eq_singleton hfront
      exact ⟨rfl, rfl⟩
  | descending =>
      obtain ⟨position, rfl⟩ := kinds_eq_singleton hfront
      exact ⟨rfl, rfl⟩

theorem complete_sortKeys (fuel : Nat) :
    Complete fuel (sortKeys fuel) (Chain.tokens [.comma] SortItem.tokens)
      (fun items => items.items.map SortItem.key) EndsOrder := by
  intro items
  induction items generalizing fuel with
  | last item =>
      intro front rest hfront hlimit hends
      obtain ⟨position, more, rfl, hmore⟩ := kinds_eq_cons hfront
      obtain ⟨hrest, hkey⟩ := direction_tokens hmore hends.item item.field
      cases fuel with
      | zero => cases hlimit
      | succ fuel =>
          rw [List.cons_append, sortKeys_word, hrest, skip?_eq_none hends.last, ← hkey]
          rfl
  | more item others ih =>
      intro front rest hfront hlimit hends
      obtain ⟨first, second, rfl, hfirst, hsecond⟩ := kinds_eq_append hfront
      obtain ⟨position, said, rfl, hsaid⟩ := kinds_eq_cons hfirst
      obtain ⟨comma, more, rfl, hmore⟩ := kinds_eq_cons hsecond
      cases fuel with
      | zero => cases hlimit
      | succ fuel =>
          have hcomma : EndsSortItem (kinds (⟨.comma, comma⟩ :: (more ++ rest))) :=
            ⟨nofun, nofun⟩
          obtain ⟨hrest, hkey⟩ := direction_tokens hsaid hcomma item.field
          rw [List.length_append, List.length_cons, List.length_cons] at hlimit
          rw [List.append_assoc, List.cons_append, List.cons_append, sortKeys_word, hrest,
            skip?_cons, ← hkey]
          exact bind_eq_ok.mpr ⟨_, ih fuel hmore (by omega) hends, rfl⟩

theorem complete_ordering {order : Option (Chain SortItem)} {tokens : Tokens} (tree : Tree)
    (h : kinds tokens = order.elim [] orderTokens) :
    ordering tree tokens = .ok (ordered tree order, []) := by
  cases order with
  | none =>
      obtain rfl := List.map_eq_nil_iff.mp h
      rfl
  | some order =>
      obtain ⟨first, others, rfl, hothers⟩ := kinds_eq_cons h
      obtain ⟨second, items, rfl, hitems⟩ := kinds_eq_cons hothers
      have hends : EndsOrder (kinds []) := ⟨⟨nofun, nofun⟩, nofun⟩
      have hkeys := complete_sortKeys (items.length + 1) hitems (Nat.le_succ _) hends
      rw [List.append_nil] at hkeys
      rw [ordering, skip?_cons]
      exact bind_eq_ok.mpr ⟨_, eat_cons _ _ _ _, bind_eq_ok.mpr ⟨_, hkeys, rfl⟩⟩

/-- What is derived is read as a whole query. -/
theorem complete_query {tokens : Tokens} {sentence : Sentence}
    (h : sentence.tokens = kinds tokens) : query tokens = .ok sentence.tree := by
  refine query_eq_ok.mpr (bind_eq_ok.mpr ?_)
  cases sentence with
  | orderAlone order =>
      obtain ⟨position, others, rfl, hothers⟩ := kinds_eq_cons h.symm
      have hread : ordering .everything (⟨.orderWord, position⟩ :: others) =
          .ok (ordered .everything (some order), []) := complete_ordering .everything h.symm
      exact ⟨_, unordered_of_order (skip?_cons _ _ _), hread⟩
  | found d order =>
      obtain ⟨front, rest, rfl, hfront, hrest⟩ := kinds_eq_append h.symm
      refine ⟨(_, rest), ?_, complete_ordering (Disjunction.tree d) hrest⟩
      have hends : EndsDisjunction (kinds rest) := hrest ▸ endsDisjunction_order order
      have hskip : skip? .orderWord (front ++ rest) = none := by
        refine skip?_eq_none ?_
        obtain ⟨token, more, htokens, hstarts⟩ := Disjunction.starts d
        rw [kinds_append, hfront, htokens]
        intro hhead
        cases hhead
        cases hstarts
      rw [unordered_of_none hskip]
      exact complete_disjunction _ hfront (by rw [List.length_append]; omega) hends

end Parser

namespace Tree

open Grammar

theorem ofTokens_eq_ok {tokens : List PlacedToken} {length : Nat} {tree : Tree} :
    Tree.ofTokens tokens length = .ok tree ↔
      ∃ sentence : Sentence, sentence.tokens = Parser.kinds tokens ∧ sentence.tree = tree := by
  unfold Tree.ofTokens
  cases tokens with
  | nil =>
      refine iff_of_false (fun h => nomatch h) ?_
      rintro ⟨sentence, htokens, -⟩
      exact sentence.tokens_ne_nil htokens
  | cons t others =>
      rw [if_neg (by simp)]
      constructor
      · intro h
        cases hquery : Parser.query (t :: others) with
        | error failure =>
            rw [hquery] at h
            cases h
        | ok found =>
            rw [hquery] at h
            cases h
            exact Parser.sound_query hquery
      · rintro ⟨sentence, htokens, rfl⟩
        rw [Parser.complete_query htokens]
        rfl

/--
**A text is parsed if and only if the grammar derives its tokens**, and what it is parsed to is
what the derivation means.  There is never more than one derivation.
-/
theorem parse_eq_ok_iff {text : String} {tokens : List PlacedToken}
    (h : tokenize text = .ok tokens) :
    (∀ tree, Tree.parse text = .ok tree ↔
      ∃ sentence : Sentence, sentence.tokens = Parser.kinds tokens ∧ sentence.tree = tree) ∧
    Function.Injective Sentence.tokens := by
  refine ⟨fun tree => ?_, Sentence.tokens_injective⟩
  have hparse : Tree.parse text = Tree.ofTokens tokens text.length := by
    rw [Tree.parse, h]
    rfl
  rw [hparse, ofTokens_eq_ok]

/-- A list, a group and an order, with nothing between the list and the group. -/
def nestedText : String := "s NOT IN (a, 7) (b OR NOT c d) ORDER BY n DESC"

def nestedTokens : List PlacedToken :=
  [⟨.word "s", 0⟩, ⟨.notWord, 2⟩, ⟨.inWord, 6⟩, ⟨.openParen, 9⟩, ⟨.word "a", 10⟩, ⟨.comma, 11⟩,
    ⟨.integer 7, 13⟩, ⟨.closeParen, 14⟩, ⟨.openParen, 16⟩, ⟨.word "b", 17⟩, ⟨.orWord, 19⟩,
    ⟨.notWord, 22⟩, ⟨.word "c", 26⟩, ⟨.word "d", 28⟩, ⟨.closeParen, 29⟩, ⟨.orderWord, 31⟩,
    ⟨.byWord, 37⟩, ⟨.word "n", 40⟩, ⟨.descWord, 42⟩]

def nestedSentence : Sentence :=
  let word (text : String) : Unary := .plain (.value ⟨.word text, rfl⟩)
  let list : Unary := .plain (.membership "s" .outside
    (.more ⟨.word "a", rfl⟩ (.last ⟨.integer 7, rfl⟩)))
  let group : Unary := .plain (.group (.more (.last (.last (word "b")))
    (.last (.last (.more (.negated (word "c")) (.last (word "d")))))))
  .found (.last (.last (.more list (.last group)))) (some (.last ⟨"n", .descending⟩))

theorem parse_eq_ok_iff_nested :
    tokenize nestedText = .ok nestedTokens ∧
      Tree.parse nestedText = .ok (.sorted
        (.adjacent [.compare "s" .noneOf (.list [.word "a", .integer 7]),
          .any [.anywhere (.word "b"),
            .adjacent [.negated (.anywhere (.word "c")) [], .anywhere (.word "d")] []] []] [])
        [⟨"n", true⟩] []) := by
  have htokens : tokenize nestedText = .ok nestedTokens := by decide +kernel
  exact ⟨htokens, ((parse_eq_ok_iff htokens).1 _).mpr ⟨nestedSentence, rfl, rfl⟩⟩

end Tree

end DocIndex.Query
