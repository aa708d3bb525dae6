/-
When computations that may fail succeed.

Two in a row succeed if both do, and one for every item of a list succeeds if each of them
does.  This holds of computations that fail with an error and of those that give nothing.
-/
import Mathlib.Data.List.Forall2
import Mathlib.Tactic.Common

namespace DocIndex

/-- Two steps succeed together if the first one does and the second one then does. -/
theorem bind_eq_ok {ε α β : Type} {first : Except ε α} {second : α → Except ε β} {result : β} :
    (first >>= second) = .ok result ↔ ∃ value, first = .ok value ∧ second value = .ok result := by
  cases first with
  | error e => exact iff_of_false (fun h => nomatch h) (fun ⟨_, h, _⟩ => nomatch h)
  | ok value => exact ⟨fun h => ⟨value, rfl, h⟩, fun ⟨_, rfl, h⟩ => h⟩

/-- A result that is changed afterwards was there before. -/
theorem map_eq_ok {ε α β : Type} {first : Except ε α} {change : α → β} {result : β} :
    first.map change = .ok result ↔ ∃ value, first = .ok value ∧ change value = result := by
  cases first with
  | error e => exact iff_of_false (fun h => nomatch h) (fun ⟨_, h, _⟩ => nomatch h)
  | ok value => exact ⟨fun h => ⟨value, rfl, Except.ok.inj h⟩, fun ⟨_, rfl, h⟩ => congrArg _ h⟩

/-- A step succeeds for every item of a list if it does for each of them. -/
theorem mapM_eq_ok {ε α β : Type} {step : α → Except ε β} {xs : List α} {ys : List β} :
    xs.mapM step = .ok ys ↔ List.Forall₂ (fun x y => step x = .ok y) xs ys := by
  induction xs generalizing ys with
  | nil => exact ⟨fun h => Except.ok.inj h ▸ .nil, fun h => by cases h; rfl⟩
  | cons x rest ih =>
      rw [List.mapM_cons, bind_eq_ok]
      constructor
      · rintro ⟨y, hfirst, h⟩
        obtain ⟨others, hothers, heq⟩ := bind_eq_ok.mp h
        obtain rfl := Except.ok.inj heq
        exact .cons hfirst (ih.mp hothers)
      · rintro (_ | ⟨hfirst, hrest⟩)
        exact ⟨_, hfirst, bind_eq_ok.mpr ⟨_, ih.mpr hrest, rfl⟩⟩

/-- If two steps in a row fail, the first one fails or the second one does. -/
theorem bind_eq_error {ε α β : Type} {first : Except ε α} {second : α → Except ε β} {e : ε} :
    (first >>= second) = .error e ↔
      first = .error e ∨ ∃ value, first = .ok value ∧ second value = .error e := by
  cases first with
  | error _ => exact ⟨fun h => .inl (by cases h; rfl), fun | .inl h => by cases h; rfl⟩
  | ok value => exact ⟨fun h => .inr ⟨value, rfl, h⟩, fun | .inr ⟨_, rfl, h⟩ => h⟩

/-- Steps for the items of a list fail as one of them does. -/
theorem exists_of_mapM_eq_error {ε α β : Type} {step : α → Except ε β} {xs : List α} {e : ε}
    (h : xs.mapM step = .error e) : ∃ x ∈ xs, step x = .error e := by
  induction xs with
  | nil => cases h
  | cons x rest ih =>
      rw [List.mapM_cons, bind_eq_error] at h
      rcases h with hfirst | ⟨_, -, hrest⟩
      · exact ⟨x, List.mem_cons_self, hfirst⟩
      · rcases bind_eq_error.mp hrest with hrest | ⟨_, -, hdone⟩
        · obtain ⟨y, hy, hstep⟩ := ih hrest
          exact ⟨y, List.mem_cons_of_mem _ hy, hstep⟩
        · cases hdone

/-- Partners for all items of a list can be found one by one. -/
theorem exists_forall₂ {α β : Type} {R : α → β → Prop} {xs : List α} :
    (∃ ys, List.Forall₂ R xs ys) ↔ ∀ x ∈ xs, ∃ y, R x y := by
  induction xs with
  | nil => exact iff_of_true ⟨[], .nil⟩ (by simp)
  | cons x rest ih =>
      rw [List.forall_mem_cons, ← ih]
      constructor
      · rintro ⟨_, _ | ⟨hfirst, hrest⟩⟩
        exact ⟨⟨_, hfirst⟩, ⟨_, hrest⟩⟩
      · rintro ⟨⟨y, hfirst⟩, ⟨others, hrest⟩⟩
        exact ⟨y :: others, .cons hfirst hrest⟩

/-- Each item of either list has its partner in the other one. -/
theorem exists_partners {α β : Type} {R : α → β → Prop} {xs : List α} {ys : List β}
    (h : List.Forall₂ R xs ys) : (∀ x ∈ xs, ∃ y ∈ ys, R x y) ∧ ∀ y ∈ ys, ∃ x ∈ xs, R x y := by
  induction h with
  | nil => simp
  | cons hfirst _ ih =>
      constructor
      · refine List.forall_mem_cons.mpr ⟨⟨_, List.mem_cons_self, hfirst⟩, fun x hx => ?_⟩
        obtain ⟨y, hy, hxy⟩ := ih.1 x hx
        exact ⟨y, List.mem_cons_of_mem _ hy, hxy⟩
      · refine List.forall_mem_cons.mpr ⟨⟨_, List.mem_cons_self, hfirst⟩, fun y hy => ?_⟩
        obtain ⟨x, hx, hxy⟩ := ih.2 y hy
        exact ⟨x, List.mem_cons_of_mem _ hx, hxy⟩

/-- Something is found for a list if something is found for each item. -/
theorem mapM_eq_some {α β : Type} {find? : α → Option β} {xs : List α} {ys : List β} :
    xs.mapM find? = some ys ↔ List.Forall₂ (fun x y => find? x = some y) xs ys := by
  induction xs generalizing ys with
  | nil => exact ⟨fun h => Option.some.inj h ▸ .nil, fun h => by cases h; rfl⟩
  | cons x rest ih =>
      simp only [List.mapM_cons, Option.bind_eq_bind, Option.bind_eq_some_iff]
      constructor
      · rintro ⟨y, hfirst, others, hothers, heq⟩
        obtain rfl := Option.some.inj heq
        exact .cons hfirst (ih.mp hothers)
      · rintro (_ | ⟨hfirst, hrest⟩)
        exact ⟨_, hfirst, _, ih.mpr hrest, rfl⟩

theorem exists_mapM_ok {ε α β : Type} {step : α → Except ε β} {xs : List α} :
    (∃ ys, xs.mapM step = .ok ys) ↔ ∀ x ∈ xs, ∃ y, step x = .ok y := by
  simp only [mapM_eq_ok, exists_forall₂]

end DocIndex
