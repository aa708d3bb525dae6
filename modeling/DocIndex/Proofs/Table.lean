/-
What a table holds.

A table is a list of entries, and `find?` is its meaning.  The laws of `find?` against the
operations need nothing but a lawful order of the keys.  That an entry stands in the list
exactly if it is found needs the list to be in increasing order, which every operation keeps.
-/
import DocIndex.Data.Table

namespace DocIndex.Table

variable {κ β : Type}

theorem mem_keys_of_mem {table : Table κ β} {key : κ} {value : β} (h : (key, value) ∈ table) :
    key ∈ keys table :=
  List.mem_map.mpr ⟨_, h, rfl⟩

variable [Ord κ]

/-- The entries are in increasing order of their keys, and so every key stands once. -/
def Sorted (table : Table κ β) : Prop := table.Pairwise fun a b => compare a.1 b.1 = .lt

instance (table : Table κ β) : Decidable (Sorted table) :=
  inferInstanceAs (Decidable (table.Pairwise fun a b => compare a.1 b.1 = .lt))

theorem sorted_nil : Sorted ([] : Table κ β) := List.Pairwise.nil

theorem sorted_cons {entry : κ × β} {rest : Table κ β} :
    Sorted (entry :: rest) ↔ (∀ other ∈ rest, compare entry.1 other.1 = .lt) ∧ Sorted rest :=
  List.pairwise_cons

theorem Sorted.sublist {table part : Table κ β} (h : Sorted table) (hsub : part.Sublist table) :
    Sorted part :=
  List.Pairwise.sublist hsub h

theorem sorted_keys {table : Table κ β} (h : Sorted table) :
    (keys table).Pairwise fun a b => compare a b = .lt := by
  unfold keys
  exact List.pairwise_map.mpr h

@[simp] theorem find?_nil (key : κ) : find? ([] : Table κ β) key = none := rfl

theorem find?_eq_none_of_lt {table : Table κ β} {key : κ}
    (h : ∀ entry ∈ table, compare key entry.1 = .lt) : find? table key = none := by
  cases table with
  | nil => rfl
  | cons first rest => simp [find?, h first List.mem_cons_self]

theorem mem_alter {table : Table κ β} {key : κ} {change : Option β → β} {entry : κ × β}
    (h : entry ∈ alter table key change) :
    (∃ old, entry = (key, change old)) ∨ entry ∈ table := by
  induction table with
  | nil =>
      simp only [alter, List.mem_singleton] at h
      exact Or.inl ⟨none, h⟩
  | cons first rest ih =>
      obtain ⟨k, v⟩ := first
      cases hc : compare key k with
      | lt =>
          simp only [alter, hc, List.mem_cons] at h
          rcases h with rfl | h
          · exact Or.inl ⟨none, rfl⟩
          · exact Or.inr (List.mem_cons.mpr h)
      | eq =>
          simp only [alter, hc, List.mem_cons] at h
          rcases h with rfl | h
          · exact Or.inl ⟨some v, rfl⟩
          · exact Or.inr (List.mem_cons_of_mem _ h)
      | gt =>
          simp only [alter, hc, List.mem_cons] at h
          rcases h with rfl | h
          · exact Or.inr List.mem_cons_self
          · exact (ih h).imp id (List.mem_cons_of_mem _)

theorem mem_insert {table : Table κ β} {key : κ} {value : β} {entry : κ × β}
    (h : entry ∈ insert table key value) : entry = (key, value) ∨ entry ∈ table :=
  (mem_alter h).imp_left fun ⟨_, heq⟩ => heq

/-- Behind smaller keys, a change is made in the rest of the table. -/
theorem alter_append [Std.OrientedOrd κ] {front rest : Table κ β} {key : κ} {change : Option β → β}
    (hfront : ∀ entry ∈ front, compare entry.1 key = .lt) :
    alter (front ++ rest) key change = front ++ alter rest key change := by
  induction front with
  | nil => rfl
  | cons first front ih =>
      have hfirst : compare key first.1 = .gt :=
        Std.OrientedCmp.gt_of_lt (hfront first List.mem_cons_self)
      have hrest := ih fun entry hentry => hfront entry (List.mem_cons_of_mem _ hentry)
      simp [alter, hfirst, hrest]

theorem erase_sublist (table : Table κ β) (key : κ) : (erase table key).Sublist table := by
  induction table with
  | nil => exact List.Sublist.refl _
  | cons first rest ih =>
      obtain ⟨k, v⟩ := first
      cases hc : compare key k with
      | lt => simp [erase, hc]
      | eq => simp [erase, hc]
      | gt => simpa [erase, hc] using ih

theorem sorted_erase {table : Table κ β} (h : Sorted table) (key : κ) :
    Sorted (erase table key) :=
  h.sublist (erase_sublist table key)

variable [Std.LawfulEqOrd κ]

theorem nodup_keys {table : Table κ β} (hs : Sorted table) : (keys table).Nodup := by
  refine (sorted_keys hs).imp fun {key other} hlt heq => ?_
  subst heq
  simp at hlt

@[simp] theorem find?_alter_self (table : Table κ β) (key : κ) (change : Option β → β) :
    find? (alter table key change) key = some (change (find? table key)) := by
  induction table with
  | nil => simp [alter, find?]
  | cons entry rest ih =>
      obtain ⟨k, v⟩ := entry
      cases h : compare key k with
      | lt => simp [alter, find?, h]
      | eq => simp [alter, find?, h]
      | gt => simpa [alter, find?, h] using ih

@[simp] theorem find?_insert_self (table : Table κ β) (key : κ) (value : β) :
    find? (insert table key value) key = some value := by
  simp [insert]

theorem mem_of_find? {table : Table κ β} {key : κ} {value : β}
    (h : find? table key = some value) : (key, value) ∈ table := by
  induction table with
  | nil => simp at h
  | cons first rest ih =>
      obtain ⟨k, v⟩ := first
      cases hc : compare key k with
      | lt => simp [find?, hc] at h
      | eq =>
          simp only [find?, hc, Option.some.injEq] at h
          rw [Std.LawfulEqOrd.eq_of_compare hc, h]
          exact List.mem_cons_self
      | gt =>
          simp only [find?, hc] at h
          exact List.mem_cons_of_mem _ (ih h)

theorem find?_erase_self {table : Table κ β} (hs : Sorted table) (key : κ) :
    find? (erase table key) key = none := by
  induction table with
  | nil => rfl
  | cons first rest ih =>
      obtain ⟨k, v⟩ := first
      obtain ⟨hfirst, hrest⟩ := sorted_cons.mp hs
      cases hc : compare key k with
      | lt => simp [erase, find?, hc]
      | eq =>
          simp only [erase, hc]
          rw [Std.LawfulEqOrd.eq_of_compare hc]
          exact find?_eq_none_of_lt hfirst
      | gt => simpa [erase, find?, hc] using ih hrest

variable [Std.TransOrd κ]

/-! ### Looking up another key after a change -/

theorem find?_alter_ne (table : Table κ β) {key other : κ} (hne : other ≠ key)
    (change : Option β → β) : find? (alter table key change) other = find? table other := by
  have hcmp : compare other key ≠ .eq := fun h => hne (Std.LawfulEqOrd.eq_of_compare h)
  induction table with
  | nil => cases h : compare other key <;> simp_all [alter, find?]
  | cons entry rest ih =>
      obtain ⟨k, v⟩ := entry
      cases h : compare key k with
      | lt =>
          cases hok : compare other key with
          | lt =>
              have : compare other k = .lt := Std.TransCmp.lt_trans hok h
              simp [alter, find?, h, hok, this]
          | eq => exact absurd hok hcmp
          | gt => simp [alter, find?, h, hok]
      | eq =>
          have hk : key = k := Std.LawfulEqOrd.eq_of_compare h
          subst hk
          cases hok : compare other key with
          | lt => simp [alter, find?, hok]
          | eq => exact absurd hok hcmp
          | gt => simp [alter, find?, hok]
      | gt =>
          simp only [alter, h, find?]
          cases compare other k <;> simp [ih]

theorem find?_insert_ne (table : Table κ β) {key other : κ} (hne : other ≠ key) (value : β) :
    find? (insert table key value) other = find? table other :=
  find?_alter_ne table hne _

/-! ### The order is kept -/

theorem sorted_alter {table : Table κ β} (h : Sorted table) (key : κ) (change : Option β → β) :
    Sorted (alter table key change) := by
  induction table with
  | nil => exact sorted_cons.mpr ⟨by simp, sorted_nil⟩
  | cons first rest ih =>
      obtain ⟨k, v⟩ := first
      obtain ⟨hfirst, hrest⟩ := sorted_cons.mp h
      cases hc : compare key k with
      | lt =>
          simp only [alter, hc]
          refine sorted_cons.mpr ⟨fun other ho => ?_, h⟩
          rcases List.mem_cons.mp ho with rfl | ho
          · exact hc
          · exact Std.TransCmp.lt_trans hc (hfirst other ho)
      | eq =>
          simp only [alter, hc]
          refine sorted_cons.mpr ⟨fun other ho => ?_, hrest⟩
          rw [Std.LawfulEqOrd.eq_of_compare hc]
          exact hfirst other ho
      | gt =>
          simp only [alter, hc]
          refine sorted_cons.mpr ⟨fun other ho => ?_, ih hrest⟩
          rcases mem_alter ho with ⟨_, heq⟩ | hmem
          · rw [heq]
            exact Std.OrientedCmp.lt_of_gt hc
          · exact hfirst other hmem

theorem sorted_insert {table : Table κ β} (h : Sorted table) (key : κ) (value : β) :
    Sorted (insert table key value) :=
  sorted_alter h key _

theorem sorted_ofEntries (entries : List (κ × β)) : Sorted (ofEntries entries) := by
  suffices h : ∀ (entries : List (κ × β)) (table : Table κ β), Sorted table →
      Sorted (entries.foldl (fun table entry => table.insert entry.1 entry.2) table) from
    h entries [] sorted_nil
  intro entries
  induction entries with
  | nil => intro table h; exact h
  | cons entry rest ih => intro table h; exact ih _ (sorted_insert h _ _)

/-! ### What is found is what stands in the list -/

omit [Std.LawfulEqOrd κ] in
/-- The table of the entries of a table is that table. -/
theorem ofEntries_of_sorted {table : Table κ β} (h : Sorted table) : ofEntries table = table := by
  suffices hall : ∀ (rest front : Table κ β), Sorted (front ++ rest) →
      rest.foldl (fun table entry => table.insert entry.1 entry.2) front = front ++ rest from
    hall table [] h
  intro rest
  induction rest with
  | nil =>
      intro front _
      rw [List.foldl_nil, List.append_nil]
  | cons entry rest ih =>
      intro front hsorted
      have hfront : ∀ other ∈ front, compare other.1 entry.1 = .lt := fun other hother =>
        (List.pairwise_append.mp hsorted).2.2 other hother entry List.mem_cons_self
      have hinsert : insert front entry.1 entry.2 = front ++ [entry] := by
        have happend : alter (front ++ []) entry.1 (fun _ => entry.2) = front ++ [entry] :=
          alter_append hfront
        rwa [List.append_nil] at happend
      rw [List.foldl_cons, hinsert, ih (front ++ [entry]), List.append_assoc]
      · rfl
      · rwa [List.append_assoc]

theorem find?_of_mem {table : Table κ β} (hs : Sorted table) {key : κ} {value : β}
    (h : (key, value) ∈ table) : find? table key = some value := by
  induction table with
  | nil => simp at h
  | cons first rest ih =>
      obtain ⟨k, v⟩ := first
      obtain ⟨hfirst, hrest⟩ := sorted_cons.mp hs
      rcases List.mem_cons.mp h with heq | hmem
      · simp only [Prod.mk.injEq] at heq
        simp [find?, heq.1, heq.2]
      · have hlt : compare k key = .lt := hfirst _ hmem
        have hgt : compare key k = .gt := Std.OrientedCmp.gt_of_lt hlt
        simpa [find?, hgt] using ih hrest hmem

theorem mem_iff_find? {table : Table κ β} (hs : Sorted table) {key : κ} {value : β} :
    (key, value) ∈ table ↔ find? table key = some value :=
  ⟨find?_of_mem hs, mem_of_find?⟩

theorem mem_keys_iff {table : Table κ β} (hs : Sorted table) {key : κ} :
    key ∈ keys table ↔ ∃ value, find? table key = some value := by
  constructor
  · intro h
    obtain ⟨⟨k, v⟩, hmem, rfl⟩ := List.mem_map.mp h
    exact ⟨v, find?_of_mem hs hmem⟩
  · rintro ⟨value, h⟩
    exact mem_keys_of_mem (mem_of_find? h)

theorem find?_eq_none_iff {table : Table κ β} (hs : Sorted table) {key : κ} :
    find? table key = none ↔ key ∉ keys table := by
  rw [mem_keys_iff hs, Option.eq_none_iff_forall_ne_some]
  simp

theorem mem_keys_insert {table : Table κ β} (hs : Sorted table) {key other : κ} {value : β} :
    other ∈ keys (insert table key value) ↔ other = key ∨ other ∈ keys table := by
  rw [mem_keys_iff (sorted_insert hs _ _), mem_keys_iff hs]
  by_cases h : other = key
  · subst h
    simp
  · simp [find?_insert_ne _ h, h]

theorem find?_erase_ne {table : Table κ β} (hs : Sorted table) {key other : κ}
    (hne : other ≠ key) : find? (erase table key) other = find? table other := by
  induction table with
  | nil => rfl
  | cons first rest ih =>
      obtain ⟨k, v⟩ := first
      obtain ⟨hfirst, hrest⟩ := sorted_cons.mp hs
      cases hc : compare key k with
      | lt => simp [erase, hc]
      | eq =>
          have hk : key = k := Std.LawfulEqOrd.eq_of_compare hc
          subst hk
          simp only [erase, hc, find?]
          cases hok : compare other key with
          | lt => exact find?_eq_none_of_lt fun e he => Std.TransCmp.lt_trans hok (hfirst e he)
          | eq => exact absurd (Std.LawfulEqOrd.eq_of_compare hok) hne
          | gt => rfl
      | gt =>
          simp only [erase, hc, find?]
          cases compare other k <;> simp [ih hrest]

theorem mem_keys_erase {table : Table κ β} (hs : Sorted table) {key other : κ} :
    other ∈ keys (erase table key) ↔ other ∈ keys table ∧ other ≠ key := by
  rw [mem_keys_iff (sorted_erase hs _), mem_keys_iff hs]
  by_cases h : other = key
  · subst h
    simp [find?_erase_self hs]
  · simp [find?_erase_ne hs h, h]

end DocIndex.Table
