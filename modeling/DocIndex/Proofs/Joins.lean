/-
Joins: what is put together comes to the same in whatever order it comes, and however often.

A join of values is commutative, associative and idempotent.  Steps that join something to what is
there may change places, and one that was taken already changes nothing (`Unordered`).  So what
many of them come to depends only on which they are (`Unordered.foldl_eq`), and this passes on to
tables in which each key has a join of its own.

A list in increasing order is known from its elements, and a sorted table from what is found in
it, which is how two of them are seen to be equal.
-/
import Mathlib.Data.List.Sort
import Mathlib.Tactic.Common
import DocIndex.Proofs.Index.Content

namespace DocIndex

/-! ### Joins -/

/-- A join of values that are in order. -/
structure IsJoin {α : Type} (InOrder : α → Prop) (join : α → α → α) : Prop where
  closed : ∀ a b, InOrder a → InOrder b → InOrder (join a b)
  comm : ∀ a b, InOrder a → InOrder b → join a b = join b a
  assoc : ∀ a b c, InOrder a → InOrder b → InOrder c → join (join a b) c = join a (join b c)
  idem : ∀ a, InOrder a → join a a = a

/-- Steps that may be taken in any order, and any number of times. -/
structure Unordered {α β : Type} (InOrder : β → Prop) (allowed : α → Prop) (step : β → α → β) :
    Prop where
  kept : ∀ b x, InOrder b → allowed x → InOrder (step b x)
  swap : ∀ b x y, InOrder b → allowed x → allowed y → step (step b x) y = step (step b y) x
  again : ∀ b x, InOrder b → allowed x → step (step b x) x = step b x

/-- To join something is such a step. -/
theorem IsJoin.unordered {α : Type} {InOrder : α → Prop} {join : α → α → α}
    (h : IsJoin InOrder join) : Unordered InOrder InOrder join where
  kept := h.closed
  swap := by
    intro b x y hb hx hy
    rw [h.assoc b x y hb hx hy, h.comm x y hx hy, ← h.assoc b y x hb hy hx]
  again := by
    intro b x hb hx
    rw [h.assoc b x x hb hx hx, h.idem x hx]

namespace Unordered

variable {α β γ : Type} {InOrder : β → Prop} {allowed : α → Prop} {step : β → α → β}
  {xs ys : List α} {b : β}

/-- Steps for things that show what to take a step for. -/
theorem comap (h : Unordered InOrder allowed step) (shown : γ → α) :
    Unordered InOrder (fun x => allowed (shown x)) (fun b x => step b (shown x)) where
  kept := fun b x hb hx => h.kept b (shown x) hb hx
  swap := fun b x y hb hx hy => h.swap b (shown x) (shown y) hb hx hy
  again := fun b x hb hx => h.again b (shown x) hb hx

/-- Steps of two kinds side by side. -/
theorem prod {δ : Type} {InOrder' : γ → Prop} {allowed' : δ → Prop} {step' : γ → δ → γ}
    (h : Unordered InOrder allowed step) (h' : Unordered InOrder' allowed' step') :
    Unordered (fun both : β × γ => InOrder both.1 ∧ InOrder' both.2)
      (fun x : α × δ => allowed x.1 ∧ allowed' x.2)
      (fun both x => (step both.1 x.1, step' both.2 x.2)) where
  kept := fun _ _ hb hx => ⟨h.kept _ _ hb.1 hx.1, h'.kept _ _ hb.2 hx.2⟩
  swap := fun _ _ _ hb hx hy =>
    Prod.ext (h.swap _ _ _ hb.1 hx.1 hy.1) (h'.swap _ _ _ hb.2 hx.2 hy.2)
  again := fun _ _ hb hx => Prod.ext (h.again _ _ hb.1 hx.1) (h'.again _ _ hb.2 hx.2)

theorem inOrder_foldl (h : Unordered InOrder allowed step) (hxs : ∀ x ∈ xs, allowed x)
    (hb : InOrder b) : InOrder (xs.foldl step b) := by
  induction xs generalizing b with
  | nil => exact hb
  | cons x rest ih =>
      obtain ⟨hx, hrest⟩ := List.forall_mem_cons.mp hxs
      exact ih hrest (h.kept b x hb hx)

theorem foldl_perm (h : Unordered InOrder allowed step) (hperm : xs.Perm ys)
    (hxs : ∀ x ∈ xs, allowed x) (hb : InOrder b) : xs.foldl step b = ys.foldl step b := by
  induction hperm generalizing b with
  | nil => rfl
  | cons x _ ih =>
      obtain ⟨hx, hrest⟩ := List.forall_mem_cons.mp hxs
      exact ih hrest (h.kept b x hb hx)
  | swap x y rest =>
      obtain ⟨hy, hx, -⟩ := by simpa using hxs
      rw [List.foldl_cons, List.foldl_cons, List.foldl_cons, List.foldl_cons,
        h.swap b y x hb hy hx]
  | trans hfirst _ ih ih' =>
      exact (ih hxs hb).trans (ih' (fun x hx => hxs x (hfirst.mem_iff.mpr hx)) hb)

/-- A step that was taken already changes nothing. -/
theorem foldl_absorbs (h : Unordered InOrder allowed step) {x : α} (hx : x ∈ xs)
    (hxs : ∀ x ∈ xs, allowed x) (hb : InOrder b) :
    step (xs.foldl step b) x = xs.foldl step b := by
  obtain ⟨front, back, rfl⟩ := List.append_of_mem hx
  have hperm : (front ++ x :: back).Perm (front ++ back ++ [x]) := by
    rw [List.append_assoc]
    exact (List.perm_append_singleton x back).symm.append_left front
  have hothers : ∀ y ∈ front ++ back, allowed y := fun y hy =>
    hxs y (hperm.mem_iff.mpr (List.mem_append_left _ hy))
  rw [h.foldl_perm hperm hxs hb, List.foldl_append]
  exact h.again _ x (h.inOrder_foldl hothers hb) (hxs x hx)

/-- Nor do any number of such steps. -/
theorem foldl_append_absorbs (h : Unordered InOrder allowed step) (hys : ∀ y ∈ ys, y ∈ xs)
    (hxs : ∀ x ∈ xs, allowed x) (hb : InOrder b) :
    (xs ++ ys).foldl step b = xs.foldl step b := by
  rw [List.foldl_append]
  induction ys with
  | nil => rfl
  | cons y rest ih =>
      obtain ⟨hy, hrest⟩ := List.forall_mem_cons.mp hys
      rw [List.foldl_cons, h.foldl_absorbs hy hxs hb]
      exact ih hrest

/-- **What steps come to depends only on which they are.** -/
theorem foldl_eq (h : Unordered InOrder allowed step) (hsame : ∀ x, x ∈ xs ↔ x ∈ ys)
    (hxs : ∀ x ∈ xs, allowed x) (hb : InOrder b) : xs.foldl step b = ys.foldl step b := by
  have hys : ∀ y ∈ ys, allowed y := fun y hy => hxs y ((hsame y).mpr hy)
  have hboth : ∀ z ∈ xs ++ ys, allowed z := List.forall_mem_append.mpr ⟨hxs, hys⟩
  calc xs.foldl step b
      = (xs ++ ys).foldl step b :=
        (h.foldl_append_absorbs (fun y hy => (hsame y).mpr hy) hxs hb).symm
    _ = (ys ++ xs).foldl step b := h.foldl_perm List.perm_append_comm hboth hb
    _ = ys.foldl step b := h.foldl_append_absorbs (fun x hx => (hsame x).mp hx) hys hb

end Unordered

/-! ### Lists in increasing order -/

/-- Lists in which keys increase are equal if their elements are the same. -/
theorem ext_of_increasing {α κ : Type} [Ord κ] [Std.LawfulEqOrd κ] [Std.TransOrd κ]
    (key : α → κ) {a b : List α} (ha : a.Pairwise fun x y => compare (key x) (key y) = .lt)
    (hb : b.Pairwise fun x y => compare (key x) (key y) = .lt) (h : ∀ x, x ∈ a ↔ x ∈ b) :
    a = b := by
  have hirrefl : Std.Irrefl fun x y => compare (key x) (key y) = .lt := ⟨fun x => by simp⟩
  have hasymm : Std.Asymm fun x y => compare (key x) (key y) = .lt :=
    ⟨fun x y hlt hgt => by simp [Std.OrientedCmp.gt_of_lt hlt] at hgt⟩
  exact List.Pairwise.eq_of_mem_iff ha hb h

/-! ### Tables -/

namespace Table

variable {κ β : Type} [Ord κ] [Std.LawfulEqOrd κ] {table other : Table κ β}

@[simp] theorem find?_cons_self (key : κ) (value : β) (table : Table κ β) :
    find? ((key, value) :: table) key = some value := by
  simp [find?]

variable [Std.TransOrd κ]

/-- In front of larger keys, an entry is found under its own key only. -/
theorem find?_cons_ne {key other : κ} {value : β} (h : Sorted ((key, value) :: table))
    (hne : other ≠ key) : find? ((key, value) :: table) other = find? table other := by
  obtain ⟨hfirst, -⟩ := sorted_cons.mp h
  cases hc : compare other key with
  | lt =>
      have hnone : find? table other = none :=
        find?_eq_none_of_lt fun entry hentry => Std.TransCmp.lt_trans hc (hfirst entry hentry)
      simp [find?, hc, hnone]
  | eq => exact absurd (Std.LawfulEqOrd.eq_of_compare hc) hne
  | gt => simp [find?, hc]

/-- Sorted tables are equal if the same is found in them. -/
theorem ext_find? (h : Sorted table) (hother : Sorted other)
    (hfind : ∀ key, find? table key = find? other key) : table = other := by
  refine ext_of_increasing Prod.fst h hother fun entry => ?_
  rw [mem_iff_find? h, mem_iff_find? hother, hfind]

/-- Changes under different keys may be made in either order. -/
theorem alter_comm (h : Sorted table) {key key' : κ} (hne : key ≠ key')
    (change change' : Option β → β) :
    alter (alter table key change) key' change' = alter (alter table key' change') key change := by
  refine ext_find? (sorted_alter (sorted_alter h _ _) _ _) (sorted_alter (sorted_alter h _ _) _ _)
    fun other => ?_
  by_cases hother : other = key
  · subst hother
    simp [find?_alter_ne _ hne]
  · by_cases hother' : other = key'
    · subst hother'
      simp [find?_alter_ne _ hother]
    · simp [find?_alter_ne _ hother, find?_alter_ne _ hother']

/-- Changes under one key come to one change. -/
theorem alter_alter (h : Sorted table) (key : κ) (change change' : Option β → β) :
    alter (alter table key change) key change'
      = alter table key fun known => change' (some (change known)) := by
  refine ext_find? (sorted_alter (sorted_alter h _ _) _ _) (sorted_alter h _ _) fun other => ?_
  by_cases hother : other = key
  · subst hother
    simp
  · simp [find?_alter_ne _ hother]

/-- A change is what it makes of what is filed. -/
theorem alter_congr (h : Sorted table) {key : κ} {change change' : Option β → β}
    (hsame : change (find? table key) = change' (find? table key)) :
    alter table key change = alter table key change' := by
  refine ext_find? (sorted_alter h _ _) (sorted_alter h _ _) fun other => ?_
  by_cases hother : other = key
  · subst hother
    rw [find?_alter_self, find?_alter_self, hsame]
  · rw [find?_alter_ne _ hother, find?_alter_ne _ hother]

/-- A sorted table, all values of which are in order. -/
structure Of (InOrder : β → Prop) (table : Table κ β) : Prop where
  sorted : Sorted table
  values : ∀ entry ∈ table, InOrder entry.2

variable {InOrder : β → Prop} {bottom : β}

omit [Std.TransOrd κ] in
theorem Of.getD (h : Of InOrder table) (hbottom : InOrder bottom) (key : κ) :
    InOrder ((find? table key).getD bottom) := by
  cases hfind : find? table key with
  | none => exact hbottom
  | some value => exact h.values (key, value) (mem_of_find? hfind)

/-- What is filed may be changed, as long as it is in order. -/
theorem Of.alter (h : Of InOrder table) (key : κ) {change : Option β → β}
    (hchange : InOrder (change (find? table key))) : Of InOrder (alter table key change) where
  sorted := sorted_alter h.sorted key change
  values := by
    intro entry hentry
    have hfind := find?_of_mem (sorted_alter h.sorted key change) hentry
    by_cases hkey : entry.1 = key
    · rw [hkey, find?_alter_self] at hfind
      exact Option.some.inj hfind ▸ hchange
    · rw [find?_alter_ne table hkey] at hfind
      exact h.values _ (mem_of_find? hfind)

/-- **To join values to those of their keys** may be done in any order, and again. -/
theorem unordered_alter {join : β → β → β} (h : IsJoin InOrder join) (hbottom : InOrder bottom) :
    Unordered (Of InOrder) (fun entry : κ × β => InOrder entry.2)
      (fun table entry => alter table entry.1 fun known => join (known.getD bottom) entry.2) where
  kept := by
    intro table entry htable hentry
    exact htable.alter entry.1 (h.closed _ _ (htable.getD hbottom entry.1) hentry)
  swap := by
    intro table first second htable hfirst hsecond
    by_cases hkeys : first.1 = second.1
    · rw [← hkeys, alter_alter htable.sorted, alter_alter htable.sorted]
      exact alter_congr htable.sorted
        (h.unordered.swap _ _ _ (htable.getD hbottom first.1) hfirst hsecond)
    · exact alter_comm htable.sorted hkeys _ _
  again := by
    intro table entry htable hentry
    rw [alter_alter htable.sorted]
    exact alter_congr htable.sorted
      (h.unordered.again _ _ (htable.getD hbottom entry.1) hentry)

end Table

end DocIndex
