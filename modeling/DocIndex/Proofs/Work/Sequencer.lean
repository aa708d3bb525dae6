/-
What a sequencer keeps in order.

`Orderly` relates a sequencer to the turns that were passed on from it: those stand in
increasing order and ahead of every turn that remains.  For this to last, a new turn must come
behind everything that was passed on already, although parts are split off in the middle of
the order.  `fresh` is what gives that: a turn that can still be split numbers its next part
above all parts that it ever had.  The reserved turns are treated as the parts of an empty
path, so that reserving and splitting are one case.

The order of turns itself is the lexicographic one of their paths, with the end of a path as the
greatest place, since a path is greater than its extensions.  It is total, earlier turns come before
later ones, and parts come before what they were split from.  `lt_part_of_lt` is what delivery rests
on: a turn ahead of another one is also ahead of the next part that is split off it, unless it is
such a part or lies within one.
-/
import Mathlib.Data.List.Basic
import Mathlib.Data.List.TakeWhile
import DocIndex.Proofs.Table
import DocIndex.Work.Sequencer

namespace DocIndex.Work.TurnKey

theorem orderPaths_self (a : List Nat) : orderPaths a a = .eq := by
  induction a with
  | nil => rfl
  | cons x a ih => simp [orderPaths, ih]

theorem eq_of_orderPaths : ∀ {a b : List Nat}, orderPaths a b = .eq → a = b
  | [], [], _ => rfl
  | [], _ :: _, h => by simp [orderPaths] at h
  | _ :: _, [], h => by simp [orderPaths] at h
  | x :: a, y :: b, h => by
      simp only [orderPaths, Ordering.then_eq_eq] at h
      rw [Std.LawfulEqOrd.eq_of_compare h.1, eq_of_orderPaths h.2]

theorem orderPaths_swap : ∀ a b : List Nat, orderPaths a b = (orderPaths b a).swap
  | [], [] => rfl
  | [], _ :: _ => rfl
  | _ :: _, [] => rfl
  | x :: a, y :: b => by
      rw [orderPaths, orderPaths, Ordering.swap_then, ← orderPaths_swap a b,
        ← Std.OrientedOrd.eq_swap]

theorem orderPaths_trans : ∀ {a b c : List Nat},
    (orderPaths a b).isLE → (orderPaths b c).isLE → (orderPaths a c).isLE
  | [], [], _, _, h => h
  | [], _ :: _, _, h, _ => by simp [orderPaths] at h
  | _ :: _, _, [], _, _ => rfl
  | _ :: _, [], _ :: _, _, h => by simp [orderPaths] at h
  | x :: a, y :: b, z :: c, hab, hbc => by
      simp only [orderPaths, Ordering.isLE_then_iff_and] at hab hbc ⊢
      refine ⟨Std.TransOrd.isLE_trans hab.1 hbc.1, ?_⟩
      rcases hab.2 with hxy | hab'
      · exact Or.inl (Std.TransCmp.lt_of_lt_of_isLE hxy hbc.1)
      rcases hbc.2 with hyz | hbc'
      · exact Or.inl (Std.TransCmp.lt_of_isLE_of_lt hab.1 hyz)
      exact Or.inr (orderPaths_trans hab' hbc')

instance : Std.TransOrd TurnKey where
  eq_swap {a b} := orderPaths_swap a.path b.path
  isLE_trans := orderPaths_trans

instance : Std.LawfulEqOrd TurnKey where
  compare_self {a} := orderPaths_self a.path
  eq_of_compare {a b} h := by
    cases a
    cases b
    exact congrArg TurnKey.mk (eq_of_orderPaths h)

/-- Whether a turn is delivered before another. -/
abbrev Before (a b : TurnKey) : Prop := compare a b = .lt

theorem Before.ne {a b : TurnKey} (h : Before a b) : a ≠ b := by
  rintro rfl
  simp [Before] at h

/-! ### Where parts stand -/

theorem orderPaths_append_cons (place : List Nat) (i : Nat) (rest : List Nat) :
    orderPaths (place ++ i :: rest) place = .lt := by
  induction place with
  | nil => rfl
  | cons x place ih => simp [orderPaths, ih]

theorem orderPaths_append_left (place a b : List Nat) :
    orderPaths (place ++ a) (place ++ b) = orderPaths a b := by
  induction place with
  | nil => rfl
  | cons x place ih => simp [orderPaths, ih]

/-- Whatever is split off a turn, directly or by way of its parts, comes before it. -/
theorem before_of_path {key part : TurnKey} {i : Nat} {rest : List Nat}
    (h : part.path = key.path ++ i :: rest) : Before part key := by
  show orderPaths part.path key.path = .lt
  rw [h]
  exact orderPaths_append_cons _ _ _

theorem part_before (key : TurnKey) (number : Nat) : Before (key.part number) key :=
  before_of_path rfl

theorem part_before_part (key : TurnKey) {i j : Nat} (h : i < j) :
    Before (key.part i) (key.part j) := by
  show orderPaths (key.path ++ [i]) (key.path ++ [j]) = .lt
  rw [orderPaths_append_left]
  simp [orderPaths, Nat.compare_eq_lt.mpr h]

theorem orderPaths_lt_snoc : ∀ {place path : List Nat} {number : Nat},
    orderPaths path place = .lt →
    (∀ i rest, path = place ++ i :: rest → i < number) →
    orderPaths path (place ++ [number]) = .lt
  | [], [], _, h, _ => by simp [orderPaths] at h
  | [], i :: rest, number, _, hfresh => by
      have : i < number := hfresh i rest rfl
      simp [orderPaths, Nat.compare_eq_lt.mpr this]
  | _ :: _, [], _, h, _ => by simp [orderPaths] at h
  | p :: place, x :: path, number, h, hfresh => by
      simp only [orderPaths, List.cons_append, Ordering.then_eq_lt] at h ⊢
      refine h.imp id fun ⟨heq, hlt⟩ => ⟨heq, orderPaths_lt_snoc hlt fun i rest hpath => ?_⟩
      rw [Std.LawfulEqOrd.eq_of_compare heq, hpath] at hfresh
      exact hfresh i rest rfl

/-- What comes before a turn and is not split off it as a late part comes before its next part. -/
theorem lt_part_of_lt {key turn : TurnKey} {number : Nat} (h : Before key turn)
    (hfresh : ∀ i rest, key.path = turn.path ++ i :: rest → i < number) :
    Before key (turn.part number) :=
  orderPaths_lt_snoc h hfresh

end DocIndex.Work.TurnKey

namespace DocIndex.Work.Sequencer

open TurnKey (Before)

variable {α : Type}

/-- The number of the next part at a path where there can be one. -/
def nextPart? (s : Sequencer α) : List Nat → Option Nat
  | [] => some s.nextTurn
  | path =>
    match Table.find? s.turns ⟨path⟩ with
    | some (.pending parts) => some parts
    | _ => none

theorem nextPart?_eq_some {s : Sequencer α} {path : List Nat} {number : Nat} (hne : path ≠ []) :
    s.nextPart? path = some number ↔ Table.find? s.turns ⟨path⟩ = some (.pending number) := by
  cases path with
  | nil => exact absurd rfl hne
  | cons i rest =>
      simp only [nextPart?]
      split
      · rename_i parts h
        simp [h]
      · rename_i h
        simp only [reduceCtorEq, false_iff]
        exact h number

/-- The values among the entries, with their turns. -/
def readyEntries (turns : Table TurnKey (Turn α)) : List (TurnKey × α) :=
  turns.filterMap fun entry => entry.2.value?.map fun value => (entry.1, value)

/-- A sequencer and the turns that were passed on from it, in the order of the turns. -/
structure Orderly (s : Sequencer α) (passed : List TurnKey) : Prop where
  sorted : Table.Sorted s.turns
  /-- No turn but the reserved ones has an empty path. -/
  rooted : ∀ key ∈ passed ++ Table.keys s.turns, key.path ≠ []
  /-- A part that is still to come has a greater number than those before it. -/
  fresh : ∀ path number, s.nextPart? path = some number →
    ∀ key ∈ passed ++ Table.keys s.turns, ∀ i rest, key.path = path ++ i :: rest → i < number
  ordered : passed.Pairwise Before
  /-- What remains comes after what was passed on. -/
  ahead : ∀ key ∈ passed, ∀ other ∈ Table.keys s.turns, Before key other

namespace Orderly

variable {s t : Sequencer α} {passed : List TurnKey}

theorem empty : Orderly (Sequencer.empty : Sequencer α) [] where
  sorted := Table.sorted_nil
  rooted := by simp [Sequencer.empty, Table.keys]
  fresh := by simp [Sequencer.empty, Table.keys]
  ordered := List.Pairwise.nil
  ahead := by simp

/-! ### New turns -/

/-- The next part at a path is new. -/
theorem not_mem_of_next (h : Orderly s passed) {path : List Nat} {number : Nat}
    (hnext : s.nextPart? path = some number) :
    (⟨path ++ [number]⟩ : TurnKey) ∉ passed ++ Table.keys s.turns := by
  intro hmem
  exact Nat.lt_irrefl _ (h.fresh path number hnext _ hmem number [] rfl)

/-- Everything that comes before the end of a path comes before the next part at that path. -/
theorem before_part (h : Orderly s passed) {path : List Nat} {number : Nat}
    (hnext : s.nextPart? path = some number) {key : TurnKey}
    (hkey : key ∈ passed ++ Table.keys s.turns) (hbefore : Before key ⟨path⟩) :
    Before key ⟨path ++ [number]⟩ :=
  TurnKey.lt_part_of_lt hbefore (h.fresh path number hnext key hkey)

/-- Every turn comes before the end of the empty path. -/
theorem before_root (h : Orderly s passed) {key : TurnKey}
    (hkey : key ∈ passed ++ Table.keys s.turns) : Before key ⟨[]⟩ := by
  obtain ⟨i, rest, hcons⟩ := List.exists_cons_of_ne_nil (h.rooted key hkey)
  have hpath : key.path = (⟨[]⟩ : TurnKey).path ++ i :: rest := by rw [hcons]; rfl
  exact TurnKey.before_of_path hpath

/-- The next part at a path comes after everything that was passed on. -/
theorem before_next (h : Orderly s passed) {path : List Nat} {number : Nat}
    (hnext : s.nextPart? path = some number) :
    ∀ key ∈ passed, Before key ⟨path ++ [number]⟩ := by
  intro key hkey
  have hmem : key ∈ passed ++ Table.keys s.turns := List.mem_append_left _ hkey
  refine h.before_part hnext hmem ?_
  by_cases hpath : path = []
  · subst hpath
    exact h.before_root hmem
  · have hfound := (nextPart?_eq_some hpath).mp hnext
    exact h.ahead key hkey _ (Table.mem_keys_of_mem (Table.mem_of_find? hfound))

/-- A step that adds the next part at a path, and nothing else, keeps the order. -/
theorem add (h : Orderly s passed) {path : List Nat} {number : Nat}
    (hnext : s.nextPart? path = some number) (hsorted : Table.Sorted t.turns)
    (hkeys : ∀ key ∈ Table.keys t.turns,
      key = ⟨path ++ [number]⟩ ∨ key ∈ Table.keys s.turns)
    (hparts : ∀ other parts, t.nextPart? other = some parts →
      other = path ∧ parts = number + 1 ∨ other = path ++ [number] ∧ parts = 0 ∨
        other ≠ path ∧ s.nextPart? other = some parts) :
    Orderly t passed := by
  have hknown : ∀ key ∈ passed ++ Table.keys t.turns,
      key = ⟨path ++ [number]⟩ ∨ key ∈ passed ++ Table.keys s.turns := by
    intro key hkey
    rcases List.mem_append.mp hkey with hp | ht
    · exact Or.inr (List.mem_append_left _ hp)
    · exact (hkeys key ht).imp id (List.mem_append_right _)
  -- A turn whose path runs through the path of the new part is old, or is the new part.
  have hthrough : ∀ other parts, s.nextPart? other = some parts → other ≠ path →
      ∀ i rest, path ++ [number] = other ++ i :: rest → i < parts := by
    intro other parts hother hne i rest hpath
    rcases List.eq_nil_or_concat rest with rfl | ⟨rest, last, rfl⟩
    · obtain ⟨rfl, -⟩ := List.append_inj' hpath rfl
      exact absurd rfl hne
    · have hsplit : path ++ [number] = (other ++ i :: rest) ++ [last] := by
        simpa using hpath
      obtain ⟨hpath', -⟩ := List.append_inj' hsplit rfl
      have hfound := (nextPart?_eq_some (by rw [hpath']; simp)).mp hnext
      exact h.fresh other parts hother ⟨path⟩
        (List.mem_append_right _ (Table.mem_keys_of_mem (Table.mem_of_find? hfound)))
        i rest hpath'
  refine ⟨hsorted, ?_, ?_, h.ordered, ?_⟩
  · intro key hkey
    rcases hknown key hkey with rfl | hold
    · simp
    · exact h.rooted key hold
  · intro other parts hother key hkey i rest hpath
    rcases hparts other parts hother with ⟨rfl, rfl⟩ | ⟨rfl, rfl⟩ | ⟨hne, hsame⟩
    · rcases hknown key hkey with rfl | hold
      · have hlast : number = i ∧ [] = rest := by simpa using hpath
        omega
      · exact Nat.lt_succ_of_lt (h.fresh _ _ hnext key hold i rest hpath)
    · rcases hknown key hkey with rfl | hold
      · simp at hpath
      · have hdeep : key.path = path ++ number :: i :: rest := by simpa using hpath
        exact absurd (h.fresh _ _ hnext key hold number _ hdeep) (Nat.lt_irrefl _)
    · rcases hknown key hkey with rfl | hold
      · exact hthrough other parts hsame hne i rest hpath
      · exact h.fresh other parts hsame key hold i rest hpath
  · intro key hkey other hother
    rcases hkeys other hother with rfl | hold
    · exact h.before_next hnext key hkey
    · exact h.ahead key hkey other hold

theorem reserve (h : Orderly s passed) : Orderly s.reserve.1 passed := by
  have hnext : s.nextPart? [] = some s.nextTurn := rfl
  refine h.add hnext (Table.sorted_insert h.sorted _ _) ?_ ?_
  · intro key hkey
    exact (Table.mem_keys_insert h.sorted).mp hkey
  · intro other parts hother
    by_cases hroot : other = []
    · subst hroot
      simp only [nextPart?, Sequencer.reserve, Option.some.injEq] at hother
      exact Or.inl ⟨rfl, hother.symm⟩
    · rw [nextPart?_eq_some hroot] at hother
      by_cases hnew : other = [s.nextTurn]
      · subst hnew
        simp only [Sequencer.reserve, Table.find?_insert_self, Option.some.injEq,
          Turn.pending.injEq] at hother
        exact Or.inr (Or.inl ⟨rfl, hother.symm⟩)
      · have hne : (⟨other⟩ : TurnKey) ≠ ⟨[s.nextTurn]⟩ := by simpa using hnew
        have hold := (Table.find?_insert_ne _ hne _).symm.trans hother
        exact Or.inr (Or.inr ⟨hroot, (nextPart?_eq_some hroot).mpr hold⟩)

theorem reserve_fresh (h : Orderly s passed) :
    s.reserve.2 ∉ passed ++ Table.keys s.turns :=
  have hnext : s.nextPart? [] = some s.nextTurn := rfl
  h.not_mem_of_next hnext

/-- A reserved turn comes after all others. -/
theorem before_reserve (h : Orderly s passed) :
    ∀ key ∈ passed ++ Table.keys s.turns, Before key s.reserve.2 := fun _ hkey =>
  have hnext : s.nextPart? [] = some s.nextTurn := rfl
  h.before_part hnext hkey (h.before_root hkey)

theorem split (h : Orderly s passed) {turn : TurnKey} {parts : Nat}
    (hturn : Table.find? s.turns turn = some (.pending parts)) :
    Orderly (s.split turn).1 passed := by
  have hpath : turn.path ≠ [] :=
    h.rooted turn (List.mem_append_right _ (Table.mem_keys_of_mem (Table.mem_of_find? hturn)))
  have hnext : s.nextPart? turn.path = some parts := (nextPart?_eq_some hpath).mpr hturn
  have hsorted := Table.sorted_insert h.sorted turn (.pending (parts + 1))
  have hchild : turn.part parts ≠ turn := (TurnKey.part_before turn parts).ne
  refine h.add hnext ?_ ?_ ?_
  · simp only [Sequencer.split, hturn]
    exact Table.sorted_insert hsorted _ _
  · intro key hkey
    simp only [Sequencer.split, hturn] at hkey
    rcases (Table.mem_keys_insert hsorted).mp hkey with rfl | hkey
    · exact Or.inl rfl
    rcases (Table.mem_keys_insert h.sorted).mp hkey with rfl | hkey
    · exact Or.inr (Table.mem_keys_of_mem (Table.mem_of_find? hturn))
    · exact Or.inr hkey
  · intro other number hother
    by_cases hroot : other = []
    · subst hroot
      refine Or.inr (Or.inr ⟨hpath.symm, ?_⟩)
      simpa [nextPart?, Sequencer.split, hturn] using hother
    rw [nextPart?_eq_some hroot] at hother
    simp only [Sequencer.split, hturn] at hother
    by_cases hnew : (⟨other⟩ : TurnKey) = turn.part parts
    · rw [hnew, Table.find?_insert_self, Option.some.injEq, Turn.pending.injEq] at hother
      exact Or.inr (Or.inl ⟨congrArg TurnKey.path hnew, hother.symm⟩)
    rw [Table.find?_insert_ne _ hnew] at hother
    by_cases hsame : (⟨other⟩ : TurnKey) = turn
    · rw [hsame, Table.find?_insert_self, Option.some.injEq, Turn.pending.injEq] at hother
      exact Or.inl ⟨congrArg TurnKey.path hsame, hother.symm⟩
    · rw [Table.find?_insert_ne _ hsame] at hother
      exact Or.inr (Or.inr ⟨fun heq => hsame (by rw [heq]),
        (nextPart?_eq_some hroot).mpr hother⟩)

/-- A part comes right before the turn that it is split off. -/
theorem before_split (h : Orderly s passed) {turn : TurnKey} {parts : Nat}
    (hturn : Table.find? s.turns turn = some (.pending parts)) :
    Before (s.split turn).2 turn ∧
      ∀ key ∈ passed ++ Table.keys s.turns, Before key turn → Before key (s.split turn).2 := by
  have hpath : turn.path ≠ [] :=
    h.rooted turn (List.mem_append_right _ (Table.mem_keys_of_mem (Table.mem_of_find? hturn)))
  simp only [Sequencer.split, hturn]
  exact ⟨TurnKey.part_before turn parts, fun key hkey hbefore =>
    h.before_part ((nextPart?_eq_some hpath).mpr hturn) hkey hbefore⟩

theorem split_fresh (h : Orderly s passed) {turn : TurnKey} {parts : Nat}
    (hturn : Table.find? s.turns turn = some (.pending parts)) :
    (s.split turn).2 ∉ passed ++ Table.keys s.turns := by
  have hpath : turn.path ≠ [] :=
    h.rooted turn (List.mem_append_right _ (Table.mem_keys_of_mem (Table.mem_of_find? hturn)))
  have := h.not_mem_of_next ((nextPart?_eq_some hpath).mpr hturn)
  simpa [Sequencer.split, hturn, TurnKey.part] using this

/-- A step that adds a pending turn and leaves the others pending or completed as they are. -/
structure Adds (s t : Sequencer α) (turn : TurnKey) : Prop where
  pending : ∀ key, (∃ parts, Table.find? t.turns key = some (.pending parts)) ↔
    key = turn ∨ ∃ parts, Table.find? s.turns key = some (.pending parts)
  completed : ∀ key outcome, outcome.isPending = false →
    (Table.find? t.turns key = some outcome ↔ Table.find? s.turns key = some outcome)
  collected : t.collected = s.collected
  delivering : t.delivering = s.delivering

theorem find?_eq_none_of_fresh (h : Orderly s passed) {turn : TurnKey}
    (hfresh : turn ∉ passed ++ Table.keys s.turns) : Table.find? s.turns turn = none :=
  (Table.find?_eq_none_iff h.sorted).mpr fun hmem => hfresh (List.mem_append_right _ hmem)

theorem reserve_adds (h : Orderly s passed) : Adds s s.reserve.1 s.reserve.2 := by
  have hnew := h.find?_eq_none_of_fresh h.reserve_fresh
  refine ⟨fun key => ?_, fun key outcome hended => ?_, rfl, rfl⟩
  · by_cases hkey : key = s.reserve.2
    · subst hkey
      exact iff_of_true ⟨0, Table.find?_insert_self _ _ _⟩ (Or.inl rfl)
    · have hfind : Table.find? s.reserve.1.turns key = Table.find? s.turns key :=
        Table.find?_insert_ne _ hkey _
      rw [hfind]
      exact ⟨Or.inr, fun h => h.resolve_left hkey⟩
  · by_cases hkey : key = s.reserve.2
    · subst hkey
      have hfind : Table.find? s.reserve.1.turns s.reserve.2 = some (.pending 0) :=
        Table.find?_insert_self _ _ _
      rw [hfind, hnew]
      refine iff_of_false (fun heq => ?_) (by simp)
      rw [← Option.some.inj heq] at hended
      simp [Turn.isPending] at hended
    · have hfind : Table.find? s.reserve.1.turns key = Table.find? s.turns key :=
        Table.find?_insert_ne _ hkey _
      rw [hfind]

theorem split_adds (h : Orderly s passed) {turn : TurnKey} {parts : Nat}
    (hturn : Table.find? s.turns turn = some (.pending parts)) :
    Adds s (s.split turn).1 (s.split turn).2 := by
  have hnew := h.find?_eq_none_of_fresh (h.split_fresh hturn)
  simp only [Sequencer.split, hturn] at hnew ⊢
  have hfind : ∀ key, Table.find? (Table.insert (Table.insert s.turns turn (.pending (parts + 1)))
      (turn.part parts) (.pending 0)) key =
        if key = turn.part parts then some (.pending 0)
        else if key = turn then some (.pending (parts + 1))
        else Table.find? s.turns key := by
    intro key
    split
    · rename_i heq
      rw [heq, Table.find?_insert_self]
    · rename_i hpart
      rw [Table.find?_insert_ne _ hpart]
      split
      · rename_i heq
        rw [heq, Table.find?_insert_self]
      · rename_i hne
        rw [Table.find?_insert_ne _ hne]
  refine ⟨fun key => ?_, fun key outcome hended => ?_, rfl, rfl⟩
  · rw [hfind]
    split
    · rename_i heq
      exact iff_of_true ⟨0, rfl⟩ (Or.inl heq)
    · rename_i hpart
      split
      · rename_i heq
        exact iff_of_true ⟨_, rfl⟩ (Or.inr ⟨parts, heq ▸ hturn⟩)
      · exact ⟨Or.inr, fun h => h.resolve_left hpart⟩
  · -- The turn of the part is new and the one that is split stays pending.
    have hpending : ∀ n, (some (.pending n) : Option (Turn α)) ≠ some outcome := by
      intro n heq
      rw [← Option.some.inj heq] at hended
      simp [Turn.isPending] at hended
    rw [hfind]
    split
    · rename_i heq
      rw [heq, hnew]
      exact iff_of_false (hpending 0) (by simp)
    · split
      · rename_i heq
        rw [heq, hturn]
        exact iff_of_false (hpending _) (hpending _)
      · exact Iff.rfl

/-! ### Turns that end -/

/-- A step that only ends turns and takes turns off keeps the order. -/
theorem shrink (h : Orderly s passed) (more : List TurnKey) (hroot : t.nextTurn = s.nextTurn)
    (hsorted : Table.Sorted t.turns)
    (hkeys : ∀ key ∈ Table.keys t.turns, key ∈ Table.keys s.turns)
    (hpending : ∀ key parts, Table.find? t.turns key = some (.pending parts) →
      Table.find? s.turns key = some (.pending parts))
    (hmore : ∀ key ∈ more, key ∈ Table.keys s.turns) (hordered : more.Pairwise Before)
    (hahead : ∀ key ∈ more, ∀ other ∈ Table.keys t.turns, Before key other) :
    Orderly t (passed ++ more) := by
  have hknown : ∀ key ∈ passed ++ more ++ Table.keys t.turns,
      key ∈ passed ++ Table.keys s.turns := by
    intro key hkey
    rcases List.mem_append.mp hkey with hkey | hkey
    · exact List.mem_append.mpr ((List.mem_append.mp hkey).imp id (hmore key))
    · exact List.mem_append_right _ (hkeys key hkey)
  have hnext : ∀ path number, t.nextPart? path = some number →
      s.nextPart? path = some number := by
    intro path number hpath
    by_cases hne : path = []
    · subst hne
      simpa [nextPart?, hroot] using hpath
    · rw [nextPart?_eq_some hne] at hpath ⊢
      exact hpending _ _ hpath
  refine ⟨hsorted, ?_, ?_, ?_, ?_⟩
  · intro key hkey
    exact h.rooted key (hknown key hkey)
  · intro path number hpath key hkey
    exact h.fresh path number (hnext path number hpath) key (hknown key hkey)
  · refine List.pairwise_append.mpr ⟨h.ordered, hordered, fun key hkey other hother => ?_⟩
    exact h.ahead key hkey other (hmore other hother)
  · intro key hkey other hother
    rcases List.mem_append.mp hkey with hp | hm
    · exact h.ahead key hp other (hkeys other hother)
    · exact hahead key hm other hother

theorem complete (h : Orderly s passed) {turn : TurnKey} {outcome : Turn α}
    (hturn : turn ∈ Table.keys s.turns) (hended : outcome.isPending = false) :
    Orderly (s.complete turn outcome) passed := by
  have hroot : (s.complete turn outcome).nextTurn = s.nextTurn := rfl
  have := h.shrink [] hroot (Table.sorted_insert h.sorted _ _) ?_ ?_ (by simp) List.Pairwise.nil
    (by simp)
  · simpa using this
  · intro key hkey
    rcases (Table.mem_keys_insert h.sorted).mp hkey with rfl | hkey
    · exact hturn
    · exact hkey
  · intro key parts hkey
    by_cases hsame : key = turn
    · subst hsame
      simp only [Sequencer.complete, Table.find?_insert_self, Option.some.injEq] at hkey
      rw [hkey] at hended
      simp [Turn.isPending] at hended
    · simpa [Sequencer.complete, Table.find?_insert_ne _ hsame] using hkey

end Orderly

/-! ### Collecting -/

/-- Every completed turn waits for a pending one before it. -/
def Waiting (s : Sequencer α) : Prop :=
  ∀ key outcome, Table.find? s.turns key = some outcome → outcome.isPending = false →
    ∃ other parts, Before other key ∧ Table.find? s.turns other = some (.pending parts)

/-- Then the first turn is pending. -/
theorem Waiting.head_pending {s : Sequencer α} (h : s.Waiting) (hs : Table.Sorted s.turns)
    {entry : TurnKey × Turn α} (hhead : s.turns.head? = some entry) :
    entry.2.isPending = true := by
  obtain ⟨rest, hcons⟩ := List.head?_eq_some_iff.mp hhead
  by_contra hended
  have hmem : (entry.1, entry.2) ∈ s.turns := by
    rw [hcons]
    exact List.mem_cons_self
  obtain ⟨other, parts, hbefore, hother⟩ :=
    h entry.1 entry.2 (Table.find?_of_mem hs hmem) (by simpa using hended)
  have hother := Table.mem_of_find? hother
  rw [hcons] at hother hs
  rcases List.mem_cons.mp hother with heq | hrest
  · exact hbefore.ne (congrArg Prod.fst heq)
  · have hafter : Before entry.1 other := (Table.sorted_cons.mp hs).1 _ hrest
    exact Std.OrientedCmp.not_lt_of_lt hafter hbefore

theorem Orderly.Adds.waiting {s t : Sequencer α} {turn : TurnKey} (h : Orderly.Adds s t turn)
    (hs : s.Waiting) : t.Waiting := by
  intro key outcome hkey hended
  obtain ⟨other, parts, hbefore, hother⟩ :=
    hs key outcome ((h.completed key outcome hended).mp hkey) hended
  obtain ⟨parts', hother'⟩ := (h.pending other).mpr (Or.inr ⟨parts, hother⟩)
  exact ⟨other, parts', hbefore, hother'⟩

/-- The completed entries at the front. -/
abbrev front (s : Sequencer α) : Table TurnKey (Turn α) :=
  s.turns.takeWhile fun entry => !entry.2.isPending

/-- What is left behind the completed entries at the front. -/
abbrev behind (s : Sequencer α) : Table TurnKey (Turn α) :=
  s.turns.dropWhile fun entry => !entry.2.isPending

theorem front_append_behind (s : Sequencer α) : s.front ++ s.behind = s.turns :=
  List.takeWhile_append_dropWhile

theorem mem_readyEntries {turns : Table TurnKey (Turn α)} {key : TurnKey} {value : α} :
    (key, value) ∈ readyEntries turns ↔ (key, Turn.ready value) ∈ turns := by
  simp only [readyEntries, List.mem_filterMap, Option.map_eq_some_iff]
  constructor
  · rintro ⟨⟨k, turn⟩, hmem, v, hvalue, heq⟩
    simp only [Prod.mk.injEq] at heq
    obtain ⟨rfl, rfl⟩ := heq
    cases turn with
    | ready v' =>
        simp only [Turn.value?, Option.some.injEq] at hvalue
        exact hvalue ▸ hmem
    | pending n => simp [Turn.value?] at hvalue
    | abandoned => simp [Turn.value?] at hvalue
  · intro hmem
    exact ⟨_, hmem, value, rfl, rfl⟩

theorem map_fst_readyEntries_sublist (turns : Table TurnKey (Turn α)) :
    ((readyEntries turns).map Prod.fst).Sublist (Table.keys turns) := by
  induction turns with
  | nil => exact List.Sublist.refl _
  | cons entry rest ih =>
      obtain ⟨key, turn⟩ := entry
      cases turn with
      | ready value => exact ih.cons_cons key
      | pending parts => exact ih.cons key
      | abandoned => exact ih.cons key

theorem map_snd_readyEntries (turns : Table TurnKey (Turn α)) :
    (readyEntries turns).map Prod.snd = (turns.map Prod.snd).filterMap Turn.value? := by
  induction turns with
  | nil => rfl
  | cons entry rest ih =>
      obtain ⟨key, turn⟩ := entry
      cases turn with
      | ready value => exact congrArg (value :: ·) ih
      | pending parts => exact ih
      | abandoned => exact ih

/-- What is collected are the values at the front. -/
theorem collect_collected (s : Sequencer α) :
    s.collect.collected = (readyEntries s.front).map Prod.snd :=
  (map_snd_readyEntries s.front).symm

theorem collect_delivering (s : Sequencer α) :
    s.collect.delivering = !(readyEntries s.front).isEmpty := by
  have h := map_snd_readyEntries s.front
  simp only [Sequencer.collect, completedTurns, ← h]
  cases readyEntries s.front <;> rfl

theorem Orderly.collect {s : Sequencer α} {passed : List TurnKey} (h : Orderly s passed) :
    Orderly s.collect (passed ++ (readyEntries s.front).map Prod.fst) := by
  have hsplit : Table.Sorted (s.front ++ s.behind) := by
    rw [front_append_behind]
    exact h.sorted
  have hfront : s.front.Sublist s.turns := List.takeWhile_sublist _
  have hbehind : s.behind.Sublist s.turns := List.dropWhile_sublist _
  have hready : ∀ key ∈ (readyEntries s.front).map Prod.fst,
      key ∈ Table.keys s.front := fun key hkey =>
    (map_fst_readyEntries_sublist s.front).subset hkey
  refine h.shrink _ rfl (h.sorted.sublist hbehind) ?_ ?_ ?_ ?_ ?_
  · intro key hkey
    exact (hbehind.map Prod.fst).subset hkey
  · intro key parts hkey
    exact Table.find?_of_mem h.sorted (hbehind.subset (Table.mem_of_find? hkey))
  · intro key hkey
    exact (hfront.map Prod.fst).subset (hready key hkey)
  · exact (Table.sorted_keys (h.sorted.sublist hfront)).sublist (map_fst_readyEntries_sublist _)
  · intro key hkey other hother
    obtain ⟨first, hfirst, rfl⟩ := List.mem_map.mp (hready key hkey)
    obtain ⟨second, hsecond, rfl⟩ := List.mem_map.mp hother
    exact (List.pairwise_append.mp hsplit).2.2 first hfirst second hsecond

/-- Pending turns are not collected. -/
theorem collect_find?_pending {s : Sequencer α} (h : Table.Sorted s.turns) {key : TurnKey}
    {parts : Nat} : Table.find? s.collect.turns key = some (.pending parts) ↔
      Table.find? s.turns key = some (.pending parts) := by
  have hbehind : Table.Sorted s.behind := h.sublist (List.dropWhile_sublist _)
  have hfront : (key, Turn.pending parts) ∉ s.front := by
    intro hmem
    simpa [Turn.isPending] using List.mem_takeWhile_imp hmem
  show Table.find? s.behind key = _ ↔ _
  rw [← Table.mem_iff_find? h, ← Table.mem_iff_find? hbehind, ← front_append_behind s,
    List.mem_append]
  exact (or_iff_right hfront).symm

/-- Whoever collects leaves a pending turn in front. -/
theorem collect_waiting {s : Sequencer α} (h : Table.Sorted s.turns) : s.collect.Waiting := by
  intro key outcome hkey hended
  have hmem : (key, outcome) ∈ s.behind := Table.mem_of_find? hkey
  have hsorted : Table.Sorted s.behind := h.sublist (List.dropWhile_sublist _)
  have hne : s.behind ≠ [] := List.ne_nil_of_mem hmem
  have hfirst := List.head_dropWhile_not (fun entry : TurnKey × Turn α => !entry.2.isPending) hne
  obtain ⟨⟨other, turn⟩, rest, hcons⟩ := List.exists_cons_of_ne_nil hne
  have hpending : turn.isPending = true := by simpa [hcons] using hfirst
  cases turn with
  | ready value => simp [Turn.isPending] at hpending
  | abandoned => simp [Turn.isPending] at hpending
  | pending parts =>
      rw [hcons] at hmem hsorted
      rcases List.mem_cons.mp hmem with heq | hrest
      · simp only [Prod.mk.injEq] at heq
        rw [heq.2] at hended
        simp [Turn.isPending] at hended
      · refine ⟨other, parts, (Table.sorted_cons.mp hsorted).1 _ hrest, ?_⟩
        show Table.find? s.behind other = _
        rw [hcons]
        exact Table.find?_of_mem hsorted List.mem_cons_self

end DocIndex.Work.Sequencer
