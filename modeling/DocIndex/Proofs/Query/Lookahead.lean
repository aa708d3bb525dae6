/-
How far a reader looks.

A reader takes tokens from the front, and whether it succeeds or fails, it tells where it stopped.
What it did up to there was decided by the tokens that it took and by the one at which it stopped:
if other tokens follow that one, the reader does the same and stops at the same place.  Only a
word that may be a field is followed by more than one token that matters, and these belong to
the next query wherever a longer reader goes on.

The depth and the fuel that bound the readers depend on the number of tokens, so the two
readers that are compared may differ in them; both have enough.
-/
import DocIndex.Proofs.Query.Parsing

namespace DocIndex.Query.Parser

open Grammar

/-! ### Where a reader stops -/

/-- What a reader found, or what it expected instead. -/
abbrev Outcome (α : Type) := Except Expected α

/-- The result of a reader that came to an outcome before the given tokens. -/
def Outcome.before {α : Type} (outcome : Outcome α) (rest : Tokens) : Except Failure (Read α) :=
  match outcome with
  | .ok found => .ok (found, rest)
  | .error expected => .error ⟨expected, rest⟩

variable {α β : Type}

theorem before_inj {outcome other : Outcome α} {rest rest' : Tokens}
    (h : outcome.before rest = other.before rest') : outcome = other ∧ rest = rest' := by
  cases outcome <;> cases other <;> cases h <;> exact ⟨rfl, rfl⟩

/-- A reader stops at an end of the tokens that it was given. -/
def Consumes (read : Tokens → Except Failure (Read α)) : Prop :=
  ∀ ⦃tokens rest : Tokens⦄ ⦃outcome : Outcome α⦄, read tokens = outcome.before rest →
    rest <:+ tokens

/-- Two lists of tokens that begin with the same one. -/
def Alike (a b : Tokens) : Prop := ∃ t r s, a = t :: r ∧ b = t :: s

namespace Alike

variable {a b : Tokens}

theorem append (h : Alike a b) (front : Tokens) : Alike (front ++ a) (front ++ b) := by
  obtain ⟨t, r, s, rfl, rfl⟩ := h
  cases front with
  | nil => exact ⟨t, r, s, rfl, rfl⟩
  | cons u more => exact ⟨u, more ++ t :: r, more ++ t :: s, rfl, rfl⟩

theorem ne_nil (h : Alike a b) : a ≠ [] := by
  obtain ⟨t, r, s, rfl, -⟩ := h
  exact List.cons_ne_nil t r

end Alike

/--
A reader that comes to an outcome before some tokens comes to the same one before other tokens
that are alike, and have the same to tell about what was found.
-/
def Local (limit limit' : Nat) (same : Tokens → Tokens → Prop)
    (read read' : Tokens → Except Failure (Read α)) : Prop :=
  ∀ ⦃front rest rest' : Tokens⦄ ⦃outcome : Outcome α⦄, Alike rest rest' →
    (front ++ rest).length ≤ limit → (front ++ rest').length ≤ limit' →
    (∀ found, outcome = .ok found → same rest rest') →
    read (front ++ rest) = outcome.before rest → read' (front ++ rest') = outcome.before rest'

/-- Nothing is to be told. -/
def Anything (_ _ : Tokens) : Prop := True

/-! ### Tokens at the front -/

/-- What stops behind some tokens has taken them. -/
theorem front_of_suffix {front rest taken others : Tokens} (h : front ++ rest = taken ++ others)
    (hrest : rest <:+ others) : ∃ more, front = taken ++ more ∧ others = more ++ rest := by
  obtain ⟨more, rfl⟩ := hrest
  rw [← List.append_assoc] at h
  exact ⟨more, List.append_cancel_right h, rfl⟩

theorem front_of_suffix_cons {front rest others : Tokens} {t : PlacedToken}
    (h : front ++ rest = t :: others) (hrest : rest <:+ others) :
    ∃ more, front = t :: more ∧ others = more ++ rest :=
  @front_of_suffix front rest [t] others h hrest

theorem front_eq_nil {front rest : Tokens} (h : front ++ rest = rest) : front = [] :=
  List.append_left_eq_self.mp h

/-- Two steps come to an outcome where the first one fails or the second one comes to it. -/
theorem bind_eq_before {first : Except Failure α} {second : α → Except Failure (Read β)}
    {outcome : Outcome β} {rest : Tokens} : (first >>= second) = outcome.before rest ↔
      (∃ expected, first = .error ⟨expected, rest⟩ ∧ outcome = .error expected) ∨
        ∃ a, first = .ok a ∧ second a = outcome.before rest := by
  cases first with
  | ok a =>
      constructor
      · exact fun h => .inr ⟨a, rfl, h⟩
      · rintro (⟨_, h, -⟩ | ⟨_, h, hsecond⟩)
        · cases h
        · cases h
          exact hsecond
  | error failure =>
      constructor
      · intro h
        cases outcome with
        | ok found => cases h
        | error expected =>
            cases h
            exact .inl ⟨_, rfl, rfl⟩
      · rintro (⟨_, h, rfl⟩ | ⟨_, h, -⟩)
        · cases h
          rfl
        · cases h

/-- What is made of a result stops where the result did. -/
theorem exists_of_map_eq_before {first : Except Failure (Read α)} {change : α → β}
    {outcome : Outcome β} {rest : Tokens}
    (h : (first >>= fun read => .ok (change read.1, read.2)) = outcome.before rest) :
    ∃ own : Outcome α, first = own.before rest := by
  rcases bind_eq_before.mp h with ⟨expected, hfirst, -⟩ | ⟨⟨found, mid⟩, hfirst, hlast⟩
  · exact ⟨.error expected, hfirst⟩
  · obtain ⟨-, rfl⟩ := @before_inj β (.ok (change found)) outcome mid rest hlast
    exact ⟨.ok found, hfirst⟩

/-! ### Readers take from the front -/

namespace Consumes

variable {read : Tokens → Except Failure (Read α)}

theorem pure (found : α) : Consumes fun tokens => .ok (found, tokens) := by
  intro tokens rest outcome h
  cases outcome with
  | ok other =>
      cases h
      exact List.suffix_refl _
  | error expected => cases h

theorem ok (h : Consumes read) {tokens rest : Tokens} {found : α}
    (hread : read tokens = .ok (found, rest)) : rest <:+ tokens :=
  @h tokens rest (.ok found) hread

theorem error (h : Consumes read) {tokens rest : Tokens} {expected : Expected}
    (hread : read tokens = .error ⟨expected, rest⟩) : rest <:+ tokens :=
  @h tokens rest (.error expected) hread

theorem bind {second : α → Tokens → Except Failure (Read β)} (h : Consumes read)
    (hsecond : ∀ found, Consumes (second found)) :
    Consumes fun tokens => read tokens >>= fun first => second first.1 first.2 := by
  intro tokens rest outcome hread
  rcases bind_eq_before.mp hread with ⟨expected, hfirst, -⟩ | ⟨first, hfirst, hrest⟩
  · exact h.error hfirst
  · exact (hsecond first.1 hrest).trans (h.ok hfirst)

theorem map (h : Consumes read) (change : α → β) :
    Consumes fun tokens => read tokens >>= fun first => .ok (change first.1, first.2) :=
  h.bind fun found => pure (change found)

theorem eat (h : Consumes read) (token : Token) (expected : Expected) :
    Consumes fun tokens => Parser.eat token expected tokens >>= read := by
  intro tokens rest outcome hread
  rcases bind_eq_before.mp hread with ⟨_, hfirst, -⟩ | ⟨others, hfirst, hrest⟩
  · obtain ⟨-, rfl⟩ := Failure.mk.inj (eat_eq_error hfirst)
    exact List.suffix_refl _
  · obtain ⟨t, rfl, -⟩ := eat_eq_cons hfirst
    exact (h hrest).trans (List.suffix_cons t others)

end Consumes

theorem skip?_suffix {token : Token} {tokens rest : Tokens} (h : skip? token tokens = some rest) :
    rest <:+ tokens := by
  obtain ⟨t, rfl, -⟩ := skip?_eq_cons h
  exact List.suffix_cons t rest

theorem consumes_value : Consumes value := by
  intro tokens rest outcome h
  cases outcome with
  | ok v =>
      obtain ⟨literal, position, rfl, -⟩ := value_eq_ok h
      exact List.suffix_cons _ rest
  | error expected =>
      obtain ⟨-, rfl⟩ := Failure.mk.inj (value_eq_error h).1
      exact List.suffix_refl _

theorem consumes_values (fuel : Nat) : Consumes (values fuel) := by
  induction fuel with
  | zero =>
      intro tokens rest outcome h
      cases outcome <;> cases h
      exact List.suffix_refl _
  | succ fuel ih =>
      intro tokens rest outcome h
      rcases bind_eq_before.mp h with ⟨_, hfirst, -⟩ | ⟨first, hfirst, h⟩
      · exact consumes_value.error hfirst
      · refine List.IsSuffix.trans ?_ (consumes_value.ok hfirst)
        cases hskip : skip? .comma first.2 with
        | none =>
            simp only [hskip] at h
            exact (Consumes.pure [first.1]).eat _ _ h
        | some others =>
            simp only [hskip] at h
            exact ((ih.map fun more => first.1 :: more) h).trans (skip?_suffix hskip)

theorem consumes_list : Consumes list := by
  have hvalues : Consumes fun tokens => values tokens.length tokens :=
    fun tokens rest outcome h => consumes_values tokens.length h
  exact (hvalues.map Value.flatList).eat _ _

theorem consumes_comparison (field : String) (op : Operator) : Consumes (comparison field op) :=
  consumes_value.map _

theorem consumes_membership (field : String) (op : Operator) : Consumes (membership field op) :=
  consumes_list.map _

section Readers

variable {group : TreeParser}

theorem consumes_primary (hgroup : Consumes group) : Consumes (primary group) := by
  intro tokens rest outcome h
  cases begins tokens with
  | group position others =>
      exact ((hgroup.bind fun inner => (Consumes.pure inner).eat _ _) h).trans
        (List.suffix_cons _ others)
  | comparison field how position hsign others =>
      rw [primary_comparison group field hsign] at h
      exact (consumes_comparison field how.op h).trans
        ((List.suffix_append _ others).trans (List.suffix_cons _ _))
  | membership field how position hsign others =>
      rw [primary_membership group field hsign] at h
      exact (consumes_membership field how.op h).trans
        ((List.suffix_append _ others).trans (List.suffix_cons _ _))
  | value hahead =>
      rw [primary_value group hahead] at h
      exact consumes_value.map _ h

theorem consumes_unary (hgroup : Consumes group) : Consumes (unary group) := by
  intro tokens
  induction tokens using unary.induct with
  | case1 position others ih =>
      intro rest outcome h
      rw [unary] at h
      rcases bind_eq_before.mp h with ⟨expected, hinner, -⟩ | ⟨inner, hinner, hrest⟩
      · exact (@ih rest (.error expected) hinner).trans (List.suffix_cons _ _)
      · have hlast := Consumes.pure (Tree.negated inner.1 []) hrest
        exact (hlast.trans (@ih inner.2 (.ok inner.1) hinner)).trans (List.suffix_cons _ _)
  | case2 tokens hfirst =>
      intro rest outcome h
      rw [unary] at h
      · exact consumes_primary hgroup h
      · exact hfirst

theorem consumes_chain {item : TreeParser} {next? : Tokens → Option Tokens}
    (hitem : Consumes item) (hnext : ∀ {tokens rest}, next? tokens = some rest → rest <:+ tokens)
    (fuel : Nat) : Consumes (chain item next? fuel) := by
  induction fuel with
  | zero =>
      intro tokens rest outcome h
      cases outcome <;> cases h
      exact List.suffix_refl _
  | succ fuel ih =>
      intro tokens rest outcome h
      rcases bind_eq_before.mp h with ⟨_, hfirst, -⟩ | ⟨first, hfirst, h⟩
      · exact hitem.error hfirst
      · refine List.IsSuffix.trans ?_ (hitem.ok hfirst)
        cases hgo : next? first.2 with
        | none =>
            simp only [hgo] at h
            exact Consumes.pure [first.1] h
        | some others =>
            simp only [hgo] at h
            exact ((ih.map fun more => first.1 :: more) h).trans (hnext hgo)

theorem consumes_level {node : List Tree → Tags → Tree} {item : TreeParser}
    {next? : Tokens → Option Tokens} (hitem : Consumes item)
    (hnext : ∀ {tokens rest}, next? tokens = some rest → rest <:+ tokens) :
    Consumes (level node next? item) := by
  have hchain : Consumes fun tokens => chain item next? tokens.length tokens :=
    fun tokens rest outcome h => consumes_chain hitem hnext tokens.length h
  exact hchain.map (collect node)

theorem nextAdjacent?_eq {tokens rest : Tokens} (h : nextAdjacent? tokens = some rest) :
    rest = tokens := by
  cases tokens with
  | nil => cases h
  | cons t others =>
      by_cases hstarts : startsUnary t.token = true
      · rw [nextAdjacent?, if_pos hstarts] at h
        exact (Option.some.inj h).symm
      · rw [nextAdjacent?, if_neg hstarts] at h
        cases h

end Readers

theorem consumes_disjunction (depth : Nat) : Consumes (disjunction depth) := by
  induction depth with
  | zero =>
      intro tokens rest outcome h
      cases outcome <;> cases h
      exact List.suffix_refl _
  | succ depth ih =>
      have hadjacency := @consumes_level .adjacent _ nextAdjacent? (consumes_unary ih)
        fun h => nextAdjacent?_eq h ▸ List.suffix_refl _
      exact consumes_level (consumes_level hadjacency skip?_suffix) skip?_suffix

/-! ### Readers that look no further -/

theorem length_pos_of_alike {a b : Tokens} (h : Alike a b) (front : Tokens) :
    0 < (front ++ a).length ∧ 0 < (front ++ b).length := by
  obtain ⟨t, r, s, rfl, rfl⟩ := h
  simp only [List.length_append, List.length_cons]
  omega

/-- What stops at the end of what another one left splits the tokens that were taken. -/
theorem split_front {front rest mid : Tokens} (hrest : rest <:+ mid)
    (hmid : mid <:+ front ++ rest) : ∃ first second, front = first ++ second ∧
      mid = second ++ rest := by
  obtain ⟨first, hfirst⟩ := hmid
  obtain ⟨second, hfront, hsecond⟩ := front_of_suffix hfirst.symm hrest
  exact ⟨first, second, hfront, hsecond⟩

theorem skip?_alike {token : Token} {a b : Tokens} (h : Alike a b) (hskip : skip? token a = none) :
    skip? token b = none := by
  obtain ⟨t, r, s, rfl, rfl⟩ := h
  by_cases ht : t.token = token
  · rw [skip?, if_pos ht] at hskip
    cases hskip
  · rw [skip?, if_neg ht]

/-- A token that is skipped in front of the place of interest is skipped there in any case. -/
theorem skip?_front {token : Token} {front rest others : Tokens}
    (hskip : skip? token (front ++ rest) = some others) (hrest : rest <:+ others) :
    ∃ t more, front = t :: more ∧ others = more ++ rest ∧
      ∀ last, skip? token (front ++ last) = some (more ++ last) := by
  obtain ⟨t, htokens, ht⟩ := skip?_eq_cons hskip
  obtain ⟨more, rfl, hothers⟩ := front_of_suffix_cons htokens hrest
  exact ⟨t, more, rfl, hothers, fun last => if_pos ht⟩

theorem eat_alike {token : Token} {expected : Expected} {a b : Tokens} (h : Alike a b)
    {failure : Failure} (heat : eat token expected a = .error failure) :
    eat token expected b = .error ⟨expected, b⟩ := by
  obtain ⟨t, r, s, rfl, rfl⟩ := h
  by_cases ht : t.token = token
  · rw [eat, if_pos ht] at heat
    cases heat
  · rw [eat, if_neg ht]

section Readers

variable {limit limit' : Nat} {same : Tokens → Tokens → Prop}
  {read read' : Tokens → Except Failure (Read α)} {front rest rest' : Tokens}

namespace Local

theorem ok (h : Local limit limit' same read read') (halike : Alike rest rest')
    (hlimit : (front ++ rest).length ≤ limit) (hlimit' : (front ++ rest').length ≤ limit')
    (hsame : same rest rest') {found : α} (hread : read (front ++ rest) = .ok (found, rest)) :
    read' (front ++ rest') = .ok (found, rest') :=
  @h front rest rest' (.ok found) halike hlimit hlimit' (fun _ _ => hsame) hread

theorem error (h : Local limit limit' same read read') (halike : Alike rest rest')
    (hlimit : (front ++ rest).length ≤ limit) (hlimit' : (front ++ rest').length ≤ limit')
    {expected : Expected} (hread : read (front ++ rest) = .error ⟨expected, rest⟩) :
    read' (front ++ rest') = .error ⟨expected, rest'⟩ :=
  @h front rest rest' (.error expected) halike hlimit hlimit' nofun hread

theorem pure (found : α) : Local limit limit' same (fun tokens => .ok (found, tokens))
    (fun tokens => .ok (found, tokens)) := by
  intro front rest rest' outcome _ _ _ _ hread
  obtain ⟨rfl, hrest⟩ := @before_inj α (.ok found) outcome (front ++ rest) rest hread
  obtain rfl := front_eq_nil hrest
  rfl

/-- One reader after another, where nothing is to be told in between. -/
theorem bind {second second' : α → Tokens → Except Failure (Read β)}
    (h : Local limit limit' Anything read read') (hread : Consumes read)
    (hsecond : ∀ found, Local limit limit' same (second found) (second' found))
    (hconsumes : ∀ found, Consumes (second found)) :
    Local limit limit' same (fun tokens => read tokens >>= fun first => second first.1 first.2)
      (fun tokens => read' tokens >>= fun first => second' first.1 first.2) := by
  intro front rest rest' outcome halike hlimit hlimit' hsame hboth
  rcases bind_eq_before.mp hboth with ⟨expected, hfirst, rfl⟩ | ⟨⟨found, mid⟩, hfirst, hlast⟩
  · exact bind_eq_before.mpr (.inl ⟨expected, h.error halike hlimit hlimit' hfirst, rfl⟩)
  · obtain ⟨taken, left, rfl, rfl⟩ := split_front (hconsumes found hlast) (hread.ok hfirst)
    rw [List.append_assoc] at hfirst hlimit hlimit' ⊢
    have hfirst' := h.ok (halike.append left) hlimit hlimit' trivial hfirst
    rw [List.length_append] at hlimit hlimit'
    exact bind_eq_before.mpr (.inr ⟨_, hfirst',
      hsecond found halike (by omega) (by omega) hsame hlast⟩)

theorem map (h : Local limit limit' same read read') (change : α → β) :
    Local limit limit' same
      (fun tokens => read tokens >>= fun first => .ok (change first.1, first.2))
      (fun tokens => read' tokens >>= fun first => .ok (change first.1, first.2)) := by
  intro front rest rest' outcome halike hlimit hlimit' hsame hboth
  rcases bind_eq_before.mp hboth with ⟨expected, hfirst, rfl⟩ | ⟨⟨found, mid⟩, hfirst, hlast⟩
  · exact bind_eq_before.mpr (.inl ⟨expected, h.error halike hlimit hlimit' hfirst, rfl⟩)
  · obtain ⟨rfl, rfl⟩ := @before_inj β (.ok (change found)) outcome mid rest hlast
    have hfirst' := h.ok halike hlimit hlimit' (hsame _ rfl) hfirst
    exact bind_eq_before.mpr (.inr ⟨_, hfirst', rfl⟩)

theorem eat (h : Local limit limit' same read read') (hread : Consumes read) (token : Token)
    (expected : Expected) : Local limit limit' same
      (fun tokens => Parser.eat token expected tokens >>= read)
      (fun tokens => Parser.eat token expected tokens >>= read') := by
  intro front rest rest' outcome halike hlimit hlimit' hsame hboth
  rcases bind_eq_before.mp hboth with ⟨other, hfirst, rfl⟩ | ⟨others, hfirst, hlast⟩
  · obtain ⟨rfl, hrest⟩ := Failure.mk.inj (eat_eq_error hfirst)
    obtain rfl := front_eq_nil hrest.symm
    exact bind_eq_before.mpr (.inl ⟨other, eat_alike halike hfirst, rfl⟩)
  · obtain ⟨t, htokens, ht⟩ := eat_eq_cons hfirst
    obtain ⟨more, rfl, rfl⟩ := front_of_suffix_cons htokens (hread hlast)
    have hfirst' : Parser.eat token expected (t :: more ++ rest') = .ok (more ++ rest') :=
      if_pos ht
    rw [List.cons_append, List.length_cons] at hlimit hlimit'
    exact bind_eq_before.mpr (.inr ⟨_, hfirst',
      h halike (by omega) (by omega) hsame hlast⟩)

end Local

theorem local_value : Local limit limit' Anything value value := by
  intro front rest rest' outcome halike _ _ _ hread
  cases outcome with
  | ok v =>
      obtain ⟨literal, position, htokens, rfl⟩ := value_eq_ok hread
      obtain ⟨more, rfl, hrest⟩ := front_of_suffix_cons htokens (List.suffix_refl rest)
      obtain rfl := front_eq_nil hrest.symm
      exact value_literal literal position rest'
  | error expected =>
      obtain ⟨hfailure, hnone⟩ := value_eq_error hread
      obtain rfl := front_eq_nil (Failure.mk.inj hfailure).2.symm
      obtain ⟨t, r, s, rfl, rfl⟩ := halike
      rw [(Failure.mk.inj hfailure).1]
      have hvalue : valueOf? t.token = none := hnone t.token rfl
      rw [List.nil_append]
      simp only [value, hvalue]
      rfl

theorem local_values (fuel fuel' : Nat) :
    Local fuel fuel' Anything (values fuel) (values fuel') := by
  induction fuel generalizing fuel' with
  | zero =>
      intro front rest rest' outcome halike hlimit _ _ _
      exact absurd (length_pos_of_alike halike front).1 (by omega)
  | succ fuel ih =>
      intro front rest rest' outcome halike hlimit hlimit' hsame hread
      have hpos := (length_pos_of_alike halike front).2
      obtain ⟨fuel', rfl⟩ : ∃ n, fuel' = n + 1 := ⟨fuel' - 1, by omega⟩
      rcases bind_eq_before.mp hread with ⟨expected, hfirst, rfl⟩ | ⟨⟨first, mid⟩, hfirst, hlast⟩
      · exact bind_eq_before.mpr (.inl ⟨expected,
          local_value.error halike hlimit hlimit' hfirst, rfl⟩)
      cases hskip : skip? .comma mid with
      | none =>
          simp only [hskip] at hlast
          obtain ⟨taken, left, rfl, rfl⟩ := split_front
            ((Consumes.pure [first]).eat _ _ hlast) (consumes_value.ok hfirst)
          rw [List.append_assoc] at hfirst hlimit hlimit' ⊢
          have hfirst' := local_value.ok (halike.append left) hlimit hlimit' trivial hfirst
          refine bind_eq_before.mpr (.inr ⟨_, hfirst', ?_⟩)
          simp only [skip?_alike (halike.append left) hskip]
          exact ((Local.pure [first]).eat (Consumes.pure [first]) _ _) halike (Nat.le_refl _)
            (Nat.le_refl _) hsame hlast
      | some others =>
          simp only [hskip] at hlast
          have hothers := ((consumes_values fuel).map fun more => first :: more) hlast
          obtain ⟨taken, left, rfl, rfl⟩ := split_front (hothers.trans (skip?_suffix hskip))
            (consumes_value.ok hfirst)
          rw [List.append_assoc] at hfirst hlimit hlimit' ⊢
          have hfirst' := local_value.ok (halike.append left) hlimit hlimit' trivial hfirst
          obtain ⟨t, more, rfl, rfl, hagain⟩ := skip?_front hskip hothers
          refine bind_eq_before.mpr (.inr ⟨_, hfirst', ?_⟩)
          simp only [hagain]
          rw [List.length_append, List.cons_append, List.length_cons] at hlimit hlimit'
          exact ((ih fuel').map fun more => first :: more) halike (by omega) (by omega) hsame hlast

theorem local_list : Local limit limit' Anything list list := by
  have hconsumes : Consumes fun tokens => values tokens.length tokens :=
    fun tokens rest outcome h => consumes_values tokens.length h
  have hvalues : Local limit limit' Anything (fun tokens => values tokens.length tokens)
      (fun tokens => values tokens.length tokens) :=
    fun front rest rest' outcome halike _ _ hsame hread =>
      local_values _ _ halike (Nat.le_refl _) (Nat.le_refl _) hsame hread
  exact (hvalues.map Value.flatList).eat (hconsumes.map _) _ _

theorem local_comparison (field : String) (op : Operator) :
    Local limit limit' Anything (comparison field op) (comparison field op) :=
  local_value.map _

theorem local_membership (field : String) (op : Operator) :
    Local limit limit' Anything (membership field op) (membership field op) :=
  local_list.map _

/-! ### A word that may be a field -/

/-- What follows tells alike whether a word before it is a field. -/
def SameField (a b : Tokens) : Prop := continuesField (kinds a) = continuesField (kinds b)

theorem continuesField_notWord (token : Token) (rest rest' : List Token) :
    continuesField (.notWord :: token :: rest) = continuesField (.notWord :: token :: rest') := by
  cases token <;> rfl

theorem sameField_append {a b : Tokens} (h : Alike a b) {front : Tokens} (hne : front ≠ []) :
    SameField (front ++ a) (front ++ b) := by
  obtain ⟨t, r, s, rfl, rfl⟩ := h
  obtain ⟨first, more, rfl⟩ := List.exists_cons_of_ne_nil hne
  obtain ⟨token, position⟩ := first
  cases token with
  | notWord => cases more <;> exact continuesField_notWord _ _ _
  | _ => rfl

/-- Nothing is a field before a token that starts the next query, unless that is a negation. -/
theorem sameField_of_startsUnary {a b : Tokens} (h : Alike a b)
    (hstarts : nextAdjacent? a = none) : SameField a b := by
  obtain ⟨⟨token, position⟩, r, s, rfl, rfl⟩ := h
  cases token <;> first | rfl | cases hstarts

/-- A token that stands for no value begins no clause. -/
theorem lookAhead_of_valueOf? {token : Token} (hvalue : valueOf? token = none)
    (hopen : token ≠ .openParen) (rest : List Token) : lookAhead (token :: rest) = .value := by
  cases token <;> first | rfl | exact absurd rfl hopen | cases hvalue

theorem lookAhead_sameField (literal : Literal) {rest rest' : Tokens} (h : SameField rest rest')
    (hahead : lookAhead (literal.1 :: kinds rest) = .value) :
    lookAhead (literal.1 :: kinds rest') = .value := by
  obtain ⟨token, hvalue⟩ := literal
  cases token with
  | word text =>
      refine lookAhead_value ⟨.word text, hvalue⟩ (h.symm.trans ?_)
      generalize kinds rest = others at hahead
      unfold continuesField
      split
      case h_5 => rfl
      all_goals cases hahead
  | _ => first | rfl | cases hvalue

section Primary

variable {group group' : TreeParser}

theorem local_primary (hgroup : Local limit limit' Anything group group')
    (hconsumes : Consumes group) :
    Local (limit + 1) (limit' + 1) SameField (primary group) (primary group') := by
  intro front rest rest' outcome halike hlimit hlimit' hsame hread
  generalize htokens : front ++ rest = tokens at hread
  cases begins tokens with
  | group position others =>
      obtain ⟨more, rfl, rfl⟩ := front_of_suffix_cons htokens
        ((hconsumes.bind fun inner => (Consumes.pure inner).eat _ _) hread)
      rw [List.cons_append, List.length_cons] at hlimit hlimit'
      exact (hgroup.bind hconsumes (fun inner => (Local.pure inner).eat (Consumes.pure inner) _ _)
        fun inner => (Consumes.pure inner).eat _ _) halike (by omega) (by omega) hsame hread
  | @comparison field how position sign hsign others =>
      rw [primary_comparison group field hsign] at hread
      obtain ⟨more, rfl, rfl⟩ := @front_of_suffix _ _ (_ :: sign) _ htokens
        (consumes_comparison field how.op hread)
      rw [List.append_assoc, List.cons_append, primary_comparison group' field hsign]
      exact local_comparison field how.op halike (Nat.le_refl _) (Nat.le_refl _)
        (fun _ _ => trivial) hread
  | @membership field how position sign hsign others =>
      rw [primary_membership group field hsign] at hread
      obtain ⟨more, rfl, rfl⟩ := @front_of_suffix _ _ (_ :: sign) _ htokens
        (consumes_membership field how.op hread)
      rw [List.append_assoc, List.cons_append, primary_membership group' field hsign]
      exact local_membership field how.op halike (Nat.le_refl _) (Nat.le_refl _)
        (fun _ _ => trivial) hread
  | value hahead =>
      subst htokens
      rw [primary_value group hahead] at hread
      have hahead' : lookAhead (kinds (front ++ rest')) = .value := by
        rcases bind_eq_before.mp hread with ⟨expected, hvalue, -⟩ | ⟨⟨v, mid⟩, hvalue, hrest⟩
        · obtain ⟨hfailure, hnone⟩ := value_eq_error hvalue
          obtain rfl := front_eq_nil (Failure.mk.inj hfailure).2.symm
          obtain ⟨t, r, s, rfl, rfl⟩ := halike
          refine lookAhead_of_valueOf? (hnone t.token rfl) ?_ (kinds s)
          intro hopen
          rw [List.nil_append, kinds_cons, hopen] at hahead
          cases hahead
        · obtain ⟨rfl, rfl⟩ := @before_inj Tree (.ok (.anywhere v)) outcome mid rest hrest
          obtain ⟨literal, position, htokens, rfl⟩ := value_eq_ok hvalue
          obtain ⟨more, rfl, hmore⟩ := front_of_suffix_cons htokens (List.suffix_refl mid)
          obtain rfl := front_eq_nil hmore.symm
          exact lookAhead_sameField literal (hsame _ rfl) hahead
      rw [primary_value group' hahead']
      exact (local_value.map _) halike (Nat.le_refl _) (Nat.le_refl _) (fun _ _ => trivial) hread

theorem unary_notWord (group : TreeParser) (position : Nat) (rest : Tokens) :
    unary group (⟨.notWord, position⟩ :: rest)
      = (unary group rest >>= fun inner => .ok (.negated inner.1 [], inner.2)) := by
  rw [unary]
  rfl

theorem unary_of_ne (group : TreeParser) {tokens : Tokens}
    (h : ∀ token ∈ (kinds tokens).head?, token ≠ .notWord) :
    unary group tokens = primary group tokens := by
  rw [unary]
  rintro position rest rfl
  exact h .notWord rfl rfl

theorem local_unary (hgroup : Local limit limit' Anything group group')
    (hconsumes : Consumes group) :
    Local (limit + 1) (limit' + 1) SameField (unary group) (unary group') := by
  have hprimary := local_primary hgroup hconsumes
  intro front
  induction front with
  | nil =>
      intro rest rest' outcome halike hlimit hlimit' hsame hread
      obtain ⟨⟨token, position⟩, r, s, rfl, rfl⟩ := id halike
      by_cases hnot : token = .notWord
      · subst hnot
        rw [List.nil_append, unary_notWord] at hread
        have hrest := ((consumes_unary hconsumes).map fun inner => Tree.negated inner []) hread
        have hlength := hrest.length_le
        rw [List.length_cons] at hlength
        omega
      · have hne : ∀ {others : Tokens}, ∀ t ∈ (kinds (⟨token, position⟩ :: others)).head?,
            t ≠ .notWord := fun t ht => by cases ht; exact hnot
        rw [List.nil_append, unary_of_ne group hne] at hread
        rw [List.nil_append, unary_of_ne group' hne]
        exact @hprimary [] _ _ outcome halike hlimit hlimit' hsame hread
  | cons first more ih =>
      intro rest rest' outcome halike hlimit hlimit' hsame hread
      obtain ⟨token, position⟩ := first
      by_cases hnot : token = .notWord
      · subst hnot
        rw [List.cons_append, unary_notWord] at hread ⊢
        rw [List.cons_append, List.length_cons] at hlimit hlimit'
        rcases bind_eq_before.mp hread with ⟨expected, hinner, rfl⟩ | ⟨⟨inner, mid⟩, hinner, hrest⟩
        · exact bind_eq_before.mpr (.inl ⟨expected,
            @ih rest rest' (.error expected) halike (by omega) (by omega) nofun hinner, rfl⟩)
        · obtain ⟨rfl, rfl⟩ := @before_inj Tree (.ok (.negated inner [])) outcome mid rest hrest
          exact bind_eq_before.mpr (.inr ⟨_, @ih mid rest' (.ok inner) halike (by omega)
            (by omega) (fun _ _ => hsame _ rfl) hinner, rfl⟩)
      · have hne : ∀ {others : Tokens}, ∀ t ∈ (kinds (⟨token, position⟩ :: others)).head?,
            t ≠ .notWord := fun t ht => by cases ht; exact hnot
        rw [List.cons_append, unary_of_ne group hne] at hread
        rw [List.cons_append, unary_of_ne group' hne]
        exact @hprimary (_ :: more) _ _ outcome halike hlimit hlimit' hsame hread

end Primary

/-! ### Chains -/

/-- Whoever succeeds has taken a token. -/
def Takes (read : Tokens → Except Failure (Read α)) : Prop :=
  ∀ ⦃tokens rest : Tokens⦄ ⦃found : α⦄, read tokens = .ok (found, rest) →
    rest.length < tokens.length

theorem Takes.of_sound {read : Tokens → Except Failure (Read β)} {yield : α → List Token}
    {meaning : α → β} (h : Sound read yield meaning) (hstarts : Starts yield) : Takes read := by
  intro tokens rest found hread
  obtain ⟨a, htokens, -⟩ := h hread
  obtain ⟨token, more, hyield, -⟩ := hstarts a
  have hlength := congrArg List.length htokens
  rw [hyield] at hlength
  simp only [kinds, List.length_map, List.length_append, List.length_cons] at hlength
  omega

/--
How a chain of items goes on depends on the next token alone, and where it goes on without a
separator, the next item takes that token.
-/
structure GoesOn (next? : Tokens → Option Tokens) (same : Tokens → Tokens → Prop)
    (item : TreeParser) : Prop where
  suffix : ∀ {tokens rest}, next? tokens = some rest → rest <:+ tokens
  goes : ∀ {front more rest rest'}, Alike rest rest' →
    next? (front ++ rest) = some (more ++ rest) → next? (front ++ rest') = some (more ++ rest')
  stops : ∀ {rest rest'}, Alike rest rest' → next? rest = none →
    next? rest' = none ∧ same rest rest'
  begins : ∀ {tokens}, next? tokens = some tokens → ∀ outcome : Outcome Tree,
    item tokens ≠ outcome.before tokens
  inside : ∀ {front rest rest'}, Alike rest rest' → front ≠ [] →
    same (front ++ rest) (front ++ rest')

section Chains

variable {item item' : TreeParser} {next? : Tokens → Option Tokens}

/-- A chain with enough fuel takes a token if its first item does. -/
theorem GoesOn.chain_ne (h : GoesOn next? same item) (hconsumes : Consumes item) {fuel : Nat}
    {tokens : Tokens} (hgoes : next? tokens = some tokens) (outcome : Outcome (List Tree)) :
    chain item next? (fuel + 1) tokens ≠ outcome.before tokens := by
  intro hchain
  rcases bind_eq_before.mp hchain with ⟨expected, hfirst, -⟩ | ⟨⟨first, mid⟩, hfirst, hlast⟩
  · exact h.begins hgoes (.error expected) hfirst
  · have hrest : tokens <:+ mid := by
      cases hgo : next? mid with
      | none =>
          simp only [hgo] at hlast
          exact Consumes.pure [first] hlast
      | some others =>
          simp only [hgo] at hlast
          exact (((consumes_chain hconsumes h.suffix fuel).map fun more => first :: more)
            hlast).trans (h.suffix hgo)
    have hmid : mid = tokens := (hconsumes.ok hfirst).eq_of_length
      (Nat.le_antisymm (hconsumes.ok hfirst).length_le hrest.length_le)
    subst hmid
    exact h.begins hgoes (.ok first) hfirst

/-- Where a chain goes on, the item before it is told the same. -/
theorem GoesOn.same_left (h : GoesOn next? same item) (hconsumes : Consumes item) {fuel : Nat}
    {left more : Tokens} (halike : Alike rest rest') (hfuel : 0 < fuel)
    (hgo : next? (left ++ rest) = some (more ++ rest)) (outcome : Outcome (List Tree))
    (hchain : chain item next? fuel (more ++ rest) = outcome.before rest) :
    same (left ++ rest) (left ++ rest') := by
  by_cases hleft : left = []
  · subst hleft
    have hmore : more = [] := by
      have hlength := (h.suffix hgo).length_le
      rw [List.length_append, List.nil_append] at hlength
      exact List.eq_nil_of_length_eq_zero (by omega)
    subst hmore
    obtain ⟨n, rfl⟩ : ∃ n, fuel = n + 1 := ⟨fuel - 1, by omega⟩
    exact absurd hchain (h.chain_ne hconsumes hgo outcome)
  · exact h.inside halike hleft

theorem local_chain (hitem : Local limit limit' same item item') (hconsumes : Consumes item)
    (htakes : Takes item) (hgoes : GoesOn next? same item) {fuel fuel' : Nat} :
    Local (min limit fuel) (min limit' fuel') Anything (chain item next? fuel)
      (chain item' next? fuel') := by
  induction fuel generalizing fuel' with
  | zero =>
      intro front rest rest' outcome halike hlimit _ _ _
      exact absurd (length_pos_of_alike halike front).1 (by omega)
  | succ fuel ih =>
      intro front rest rest' outcome halike hlimit hlimit' _ hread
      have hpos := (length_pos_of_alike halike front).2
      obtain ⟨fuel', rfl⟩ : ∃ n, fuel' = n + 1 := ⟨fuel' - 1, by omega⟩
      rcases bind_eq_before.mp hread with ⟨expected, hfirst, rfl⟩ | ⟨⟨first, mid⟩, hfirst, hlast⟩
      · exact bind_eq_before.mpr (.inl ⟨expected,
          hitem.error halike (by omega) (by omega) hfirst, rfl⟩)
      have htaken := htakes hfirst
      cases hgo : next? mid with
      | none =>
          simp only [hgo] at hlast
          obtain ⟨rfl, rfl⟩ := @before_inj _ (.ok [first]) outcome mid rest hlast
          obtain ⟨hstop, hsame⟩ := hgoes.stops halike hgo
          have hfirst' := hitem.ok halike (by omega) (by omega) hsame hfirst
          refine bind_eq_before.mpr (.inr ⟨_, hfirst', ?_⟩)
          simp only [hstop]
          rfl
      | some others =>
          simp only [hgo] at hlast
          have hchain := consumes_chain hconsumes hgoes.suffix fuel
          have hothers := (hchain.map fun more => first :: more) hlast
          obtain ⟨taken, left, rfl, rfl⟩ := split_front (hothers.trans (hgoes.suffix hgo))
            (hconsumes.ok hfirst)
          obtain ⟨more, rfl⟩ := hothers
          have hmore := (hgoes.suffix hgo).length_le
          have hrest := (length_pos_of_alike halike []).1
          rw [List.append_assoc] at hfirst hlimit hlimit' htaken ⊢
          simp only [List.length_append, List.nil_append] at hlimit hlimit' htaken hmore hrest
          obtain ⟨own, hown⟩ := exists_of_map_eq_before hlast
          have hsame := hgoes.same_left hconsumes halike (by omega) hgo own hown
          have hfirst' := hitem.ok (halike.append left) (by simp only [List.length_append]; omega)
            (by simp only [List.length_append]; omega) hsame hfirst
          refine bind_eq_before.mpr (.inr ⟨_, hfirst', ?_⟩)
          simp only [hgoes.goes halike hgo]
          exact (ih.map fun more => first :: more) halike (by simp only [List.length_append]; omega)
            (by simp only [List.length_append]; omega) (fun _ _ => trivial) hlast

theorem local_level {node : List Tree → Tags → Tree}
    (hitem : Local limit limit' same item item') (hconsumes : Consumes item)
    (htakes : Takes item) (hgoes : GoesOn next? same item) :
    Local limit limit' Anything (level node next? item) (level node next? item') := by
  have hchain : Local limit limit' Anything (fun tokens => chain item next? tokens.length tokens)
      (fun tokens => chain item' next? tokens.length tokens) := by
    intro front rest rest' outcome halike hlimit hlimit' hsame hread
    exact local_chain hitem hconsumes htakes hgoes halike (by omega) (by omega) hsame hread
  exact hchain.map (collect node)

/-- A separator is a token of its own. -/
theorem goesOn_skip? (token : Token) (item : TreeParser) :
    GoesOn (skip? token) Anything item where
  suffix := skip?_suffix
  goes := by
    intro front more rest rest' _ hskip
    obtain ⟨t, others, rfl, hmore, hagain⟩ := skip?_front hskip (List.suffix_append more rest)
    rw [hagain, List.append_cancel_right hmore]
  stops := fun halike hskip => ⟨skip?_alike halike hskip, trivial⟩
  begins := by
    intro tokens hskip
    obtain ⟨t, htokens, -⟩ := skip?_eq_cons hskip
    exact absurd htokens.symm (List.cons_ne_self t tokens)
  inside := fun _ _ => trivial

end Chains

section Adjacency

variable {group : TreeParser}

theorem valueOf?_ne_none {token : Token} (hstarts : startsUnary token = true)
    (hnot : token ≠ .notWord) (hopen : token ≠ .openParen) : valueOf? token ≠ none := by
  intro hnone
  cases token <;>
    first
      | exact absurd rfl hnot
      | exact absurd rfl hopen
      | (cases hnone; done)
      | cases hstarts

/-- A primary takes the token that it can start with. -/
theorem primary_ne_before (hconsumes : Consumes group) {t : PlacedToken} {rest : Tokens}
    (hstarts : startsUnary t.token = true) (hnot : t.token ≠ .notWord) (outcome : Outcome Tree) :
    primary group (t :: rest) ≠ outcome.before (t :: rest) := by
  intro hread
  generalize htokens : t :: rest = tokens at hread
  cases begins tokens with
  | group position others =>
      have hrest := ((hconsumes.bind fun inner => (Consumes.pure inner).eat _ _) hread).length_le
      rw [List.length_cons] at hrest
      omega
  | comparison field how position hsign others =>
      rw [primary_comparison group field hsign] at hread
      have hrest := (consumes_comparison field how.op hread).length_le
      rw [List.length_cons, List.length_append] at hrest
      omega
  | membership field how position hsign others =>
      rw [primary_membership group field hsign] at hread
      have hrest := (consumes_membership field how.op hread).length_le
      rw [List.length_cons, List.length_append] at hrest
      omega
  | value hahead =>
      subst htokens
      rw [primary_value group hahead] at hread
      obtain ⟨own, hown⟩ := exists_of_map_eq_before hread
      cases own with
      | ok v =>
          obtain ⟨literal, position, heq, -⟩ := value_eq_ok hown
          exact absurd (List.cons.inj heq).2.symm (List.cons_ne_self t rest)
      | error expected =>
          refine valueOf?_ne_none hstarts hnot (fun hopen => ?_) ((value_eq_error hown).2 _ rfl)
          rw [kinds_cons, hopen] at hahead
          cases hahead

theorem unary_ne_before (hconsumes : Consumes group) {t : PlacedToken} {rest : Tokens}
    (hstarts : startsUnary t.token = true) (outcome : Outcome Tree) :
    unary group (t :: rest) ≠ outcome.before (t :: rest) := by
  obtain ⟨token, position⟩ := t
  by_cases hnot : token = .notWord
  · subst hnot
    intro hread
    rw [unary_notWord] at hread
    have hrest := (((consumes_unary hconsumes).map fun inner => Tree.negated inner [])
      hread).length_le
    rw [List.length_cons] at hrest
    omega
  · rw [unary_of_ne group fun t ht => by cases ht; exact hnot]
    exact primary_ne_before hconsumes hstarts hnot outcome

theorem goesOn_nextAdjacent? (hconsumes : Consumes group) :
    GoesOn nextAdjacent? SameField (unary group) where
  suffix := fun h => nextAdjacent?_eq h ▸ List.suffix_refl _
  goes := by
    intro front more rest rest' halike hgo
    obtain rfl := List.append_cancel_right (nextAdjacent?_eq hgo)
    obtain ⟨t, r, s, hfirst, hsecond⟩ := halike.append more
    rw [hfirst, nextAdjacent?] at hgo
    rw [hsecond, nextAdjacent?]
    by_cases hstarts : startsUnary t.token = true
    · rw [if_pos hstarts]
    · rw [if_neg hstarts] at hgo
      cases hgo
  stops := by
    intro rest rest' halike hgo
    refine ⟨?_, sameField_of_startsUnary halike hgo⟩
    obtain ⟨t, r, s, rfl, rfl⟩ := halike
    by_cases hstarts : startsUnary t.token = true
    · rw [nextAdjacent?, if_pos hstarts] at hgo
      cases hgo
    · rw [nextAdjacent?, if_neg hstarts]
  begins := by
    intro tokens hgo outcome
    cases tokens with
    | nil => cases hgo
    | cons t rest =>
        by_cases hstarts : startsUnary t.token = true
        · exact unary_ne_before hconsumes hstarts outcome
        · rw [nextAdjacent?, if_neg hstarts] at hgo
          cases hgo
  inside := fun halike hne => sameField_append halike hne

end Adjacency

/-- Whole queries are read with no more than the token behind them in view. -/
theorem local_disjunction (depth depth' : Nat) :
    Local depth depth' Anything (disjunction depth) (disjunction depth') := by
  induction depth generalizing depth' with
  | zero =>
      intro front rest rest' outcome halike hlimit _ _ _
      exact absurd (length_pos_of_alike halike front).1 (by omega)
  | succ depth ih =>
      cases depth' with
      | zero =>
          intro front rest rest' outcome halike _ hlimit' _ _
          exact absurd (length_pos_of_alike halike front).2 (by omega)
      | succ depth' =>
          have hconsumes := consumes_disjunction depth
          have hunary := consumes_unary hconsumes
          have hadjacency := @consumes_level .adjacent _ nextAdjacent? hunary
            fun h => nextAdjacent?_eq h ▸ List.suffix_refl _
          have hconjunction := @consumes_level .all _ (skip? .andWord) hadjacency skip?_suffix
          have sunary := sound_unary (sound_disjunction depth)
          have sadjacency := @sound_level _ .adjacent _ _ _ _ _ sunary nextAdjacent?_eq_some
          have sconjunction := @sound_level _ .all _ _ [.andWord] _ _ sadjacency
            fun h => skip?_eq_some h
          have tunary := Takes.of_sound sunary Unary.starts
          have tadjacency := Takes.of_sound sadjacency (Unary.starts.chain _)
          have tconjunction := Takes.of_sound sconjunction ((Unary.starts.chain _).chain _)
          exact local_level (local_level (local_level (local_unary (ih depth') hconsumes) hunary
            tunary (goesOn_nextAdjacent? hconsumes)) hadjacency tadjacency
            (goesOn_skip? .andWord _)) hconjunction tconjunction (goesOn_skip? .orWord _)

/-! ### Orders -/

theorem consumes_direction (tokens : Tokens) : (direction tokens).2 <:+ tokens := by
  unfold direction
  cases hdown : skip? .descWord tokens with
  | some rest => exact skip?_suffix hdown
  | none =>
      cases hup : skip? .ascWord tokens with
      | some rest => exact skip?_suffix hup
      | none => exact List.suffix_refl _

/-- Whether a direction is said is decided by the next token. -/
theorem direction_alike {front more rest rest' : Tokens} (halike : Alike rest rest')
    (h : (direction (front ++ rest)).2 = more ++ rest) :
    direction (front ++ rest') = ((direction (front ++ rest)).1, more ++ rest') := by
  unfold direction at h ⊢
  cases hdown : skip? .descWord (front ++ rest) with
  | some others =>
      simp only [hdown] at h ⊢
      subst h
      obtain ⟨t, last, rfl, heq, hagain⟩ := skip?_front hdown (List.suffix_append more rest)
      rw [hagain, List.append_cancel_right heq]
  | none =>
      rw [skip?_alike (halike.append front) hdown]
      cases hup : skip? .ascWord (front ++ rest) with
      | some others =>
          simp only [hdown, hup, Option.getD_some] at h ⊢
          subst h
          obtain ⟨t, last, rfl, heq, hagain⟩ := skip?_front hup (List.suffix_append more rest)
          rw [hagain, List.append_cancel_right heq, Option.getD_some]
      | none =>
          simp only [hdown, hup, Option.getD_none] at h ⊢
          rw [skip?_alike (halike.append front) hup, List.append_cancel_right h, Option.getD_none]

theorem sortKeys_of_ne (fuel : Nat) {tokens : Tokens}
    (h : ∀ field, (kinds tokens).head? ≠ some (.word field)) :
    sortKeys (fuel + 1) tokens = .error ⟨.sortField, tokens⟩ := by
  unfold sortKeys
  split
  · rename_i field _ _
    exact absurd rfl (h field)
  · rfl

theorem word_or_not (tokens : Tokens) :
    (∃ field position rest, tokens = ⟨.word field, position⟩ :: rest) ∨
      ∀ field, (kinds tokens).head? ≠ some (.word field) := by
  cases tokens with
  | nil => exact .inr nofun
  | cons t rest =>
      obtain ⟨token, position⟩ := t
      cases token with
      | word field => exact .inl ⟨field, position, rest, rfl⟩
      | _ => exact .inr nofun

/-- What is left after one field to sort by, and after all that follow it. -/
theorem sortKeys_suffix {fuel : Nat} (hconsumes : Consumes (sortKeys fuel)) {field : String}
    {position : Nat} {others rest : Tokens} {outcome : Outcome (List SortKey)}
    (h : sortKeys (fuel + 1) (⟨.word field, position⟩ :: others) = outcome.before rest) :
    rest <:+ (direction others).2 := by
  rw [sortKeys_word] at h
  cases hskip : skip? .comma (direction others).2 with
  | none =>
      simp only [hskip] at h
      exact Consumes.pure [SortKey.mk field (direction others).1] h
  | some more =>
      simp only [hskip] at h
      exact ((hconsumes.map fun keys => ⟨field, (direction others).1⟩ :: keys) h).trans
        (skip?_suffix hskip)

theorem consumes_sortKeys (fuel : Nat) : Consumes (sortKeys fuel) := by
  induction fuel with
  | zero =>
      intro tokens rest outcome h
      cases outcome <;> cases h
      exact List.suffix_refl _
  | succ fuel ih =>
      intro tokens rest outcome h
      rcases word_or_not tokens with ⟨field, position, others, rfl⟩ | hne
      · exact (sortKeys_suffix ih h).trans
          ((consumes_direction others).trans (List.suffix_cons _ others))
      · rw [sortKeys_of_ne fuel hne] at h
        obtain ⟨-, rfl⟩ := @before_inj _ (.error .sortField) outcome tokens rest h
        exact List.suffix_refl _

theorem local_sortKeys (fuel fuel' : Nat) :
    Local fuel fuel' Anything (sortKeys fuel) (sortKeys fuel') := by
  induction fuel generalizing fuel' with
  | zero =>
      intro front rest rest' outcome halike hlimit _ _ _
      exact absurd (length_pos_of_alike halike front).1 (by omega)
  | succ fuel ih =>
      intro front rest rest' outcome halike hlimit hlimit' hsame hread
      have hpos := (length_pos_of_alike halike front).2
      obtain ⟨fuel', rfl⟩ : ∃ n, fuel' = n + 1 := ⟨fuel' - 1, by omega⟩
      rcases word_or_not (front ++ rest) with ⟨field, position, others, htokens⟩ | hne
      · rw [htokens] at hread
        have hsuffix := sortKeys_suffix (consumes_sortKeys fuel) hread
        obtain ⟨more, rfl, rfl⟩ := front_of_suffix_cons htokens
          (hsuffix.trans (consumes_direction others))
        obtain ⟨taken, left, rfl, hleft⟩ := split_front hsuffix (consumes_direction _)
        rw [sortKeys_word, hleft] at hread
        rw [List.cons_append, sortKeys_word, direction_alike halike hleft]
        cases hskip : skip? .comma (left ++ rest) with
        | none =>
            simp only [hskip] at hread
            simp only [skip?_alike (halike.append left) hskip]
            exact Local.pure _ halike (Nat.le_refl _) (Nat.le_refl _) hsame hread
        | some others =>
            simp only [hskip] at hread
            have hothers := ((consumes_sortKeys fuel).map
              fun keys => SortKey.mk field (direction (taken ++ left ++ rest)).1 :: keys) hread
            obtain ⟨t, last, rfl, rfl, hagain⟩ := skip?_front hskip hothers
            simp only [hagain]
            simp only [List.cons_append, List.length_cons, List.length_append] at hlimit hlimit'
            exact ((ih fuel').map fun keys => SortKey.mk field _ :: keys) halike
              (by rw [List.length_append]; omega) (by rw [List.length_append]; omega) hsame hread
      · rw [sortKeys_of_ne fuel hne] at hread
        obtain ⟨rfl, hrest⟩ := @before_inj _ (.error .sortField) outcome _ _ hread
        obtain rfl := front_eq_nil hrest
        obtain ⟨t, r, s, rfl, rfl⟩ := halike
        exact sortKeys_of_ne fuel' hne

theorem consumes_ordering (tree : Tree) : Consumes (ordering tree) := by
  intro tokens rest outcome h
  unfold ordering at h
  cases hskip : skip? .orderWord tokens with
  | none =>
      simp only [hskip] at h
      exact Consumes.pure tree h
  | some others =>
      simp only [hskip] at h
      have hkeys : Consumes fun tokens => sortKeys (tokens.length + 1) tokens :=
        fun tokens rest outcome h => consumes_sortKeys _ h
      exact (((hkeys.map fun keys => Tree.sorted tree keys []).eat .byWord .byKeyword) h).trans
        (skip?_suffix hskip)

theorem local_ordering (tree : Tree) :
    Local limit limit' Anything (ordering tree) (ordering tree) := by
  intro front rest rest' outcome halike hlimit hlimit' hsame hread
  unfold ordering at hread ⊢
  cases hskip : skip? .orderWord (front ++ rest) with
  | none =>
      simp only [hskip] at hread
      simp only [skip?_alike (halike.append front) hskip]
      exact Local.pure tree halike (Nat.le_refl _) (Nat.le_refl _) hsame hread
  | some others =>
      simp only [hskip] at hread
      have hconsumes : Consumes fun tokens => sortKeys (tokens.length + 1) tokens :=
        fun tokens rest outcome h => consumes_sortKeys _ h
      have hlocal : Local limit limit' Anything
          (fun tokens => sortKeys (tokens.length + 1) tokens)
          (fun tokens => sortKeys (tokens.length + 1) tokens) :=
        fun front rest rest' outcome halike _ _ hsame hread =>
          local_sortKeys _ _ halike (Nat.le_succ _) (Nat.le_succ _) hsame hread
      have hall := hconsumes.map fun keys => Tree.sorted tree keys []
      obtain ⟨t, more, rfl, rfl, hagain⟩ := skip?_front hskip (hall.eat .byWord .byKeyword hread)
      simp only [hagain]
      rw [List.cons_append, List.length_cons] at hlimit hlimit'
      exact ((hlocal.map fun keys => Tree.sorted tree keys []).eat hall .byWord .byKeyword) halike
        (by omega) (by omega) hsame hread

end Readers

/-! ### Whole queries -/

theorem consumes_unordered : Consumes unordered := by
  intro tokens rest outcome h
  unfold unordered at h
  split at h
  · exact Consumes.pure Tree.everything h
  · exact consumes_disjunction _ h

theorem local_unordered {limit limit' : Nat} :
    Local limit limit' Anything unordered unordered := by
  intro front rest rest' outcome halike _ _ hsame hread
  have hskip : (skip? .orderWord (front ++ rest)).isSome
      = (skip? .orderWord (front ++ rest')).isSome := by
    obtain ⟨t, r, s, hfirst, hsecond⟩ := halike.append front
    rw [hfirst, hsecond, skip?, skip?]
    by_cases ht : t.token = .orderWord
    · rw [if_pos ht, if_pos ht]
      rfl
    · rw [if_neg ht, if_neg ht]
  unfold unordered at hread ⊢
  rw [← hskip]
  split at hread
  · rename_i hsome
    rw [if_pos hsome]
    exact Local.pure Tree.everything halike (Nat.le_refl _) (Nat.le_refl _) hsame hread
  · rename_i hnone
    rw [if_neg hnone]
    exact local_disjunction _ _ halike (Nat.le_refl _) (Nat.le_refl _) hsame hread

theorem consumes_whole : Consumes whole := consumes_unordered.bind consumes_ordering

theorem local_whole {limit limit' : Nat} : Local limit limit' Anything whole whole :=
  local_unordered.bind consumes_unordered local_ordering consumes_ordering

/-- **A query that fails at a token fails there whatever comes after it.** -/
theorem query_error_alike {front rest rest' : Tokens} {expected : Expected}
    (halike : Alike rest rest') (h : query (front ++ rest) = .error ⟨expected, rest⟩) :
    query (front ++ rest') = .error ⟨expected, rest'⟩ := by
  rw [query_eq] at h ⊢
  have hne := halike.ne_nil
  rcases bind_eq_error.mp h with hwhole | ⟨⟨tree, last⟩, hwhole, hlast⟩
  · have hwhole' := local_whole.error halike (Nat.le_refl _) (Nat.le_refl _) hwhole
    exact bind_eq_error.mpr (.inl hwhole')
  · cases last with
    | nil => cases hlast
    | cons t others =>
        obtain rfl := (Failure.mk.inj (Except.error.inj hlast)).2
        have hwhole' := local_whole.ok halike (Nat.le_refl _) (Nat.le_refl _) trivial hwhole
        obtain ⟨_, r, s, heq, rfl⟩ := halike
        obtain ⟨rfl, rfl⟩ := List.cons.inj heq
        rw [← (Failure.mk.inj (Except.error.inj hlast)).1]
        exact bind_eq_error.mpr (.inr ⟨_, hwhole', rfl⟩)

end DocIndex.Query.Parser
