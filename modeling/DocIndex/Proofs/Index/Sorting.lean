/-
The order of search results.

Whatever the values are, turning a comparison round turns its outcome round, and two documents
are never equal.  That alone does not make an order: integers are compared exactly among
themselves and as doubles with doubles, so that a double stands level with every integer that it
is the nearest one to, while these integers are apart from each other; and a NaN stands level
with every number.  Documents that are level go by their numbers, and so three of them may go
round in a circle.

`Rankable` says that the values of a field have nothing of that kind.  Then comparing them is
transitive, since the double nearest to an integer grows with the integer, and so is comparing
documents by several such fields.  Insertion then gives the one sequence that is in order.
-/
import DocIndex.Index.Search
import DocIndex.Proofs.Index.Reference
import DocIndex.Proofs.Number.Rounding

namespace DocIndex

/-! ### Comparing numbers -/

theorem Double.order?_swap (x y : Double) : y.order? x = (x.order? y).map Ordering.swap := by
  unfold Double.order?
  rw [Bool.or_comm]
  by_cases hNaN : (x.isNaN || y.isNaN) = true
  · rw [if_pos hNaN, if_pos hNaN]
    rfl
  · rw [if_neg hNaN, if_neg hNaN]
    exact congrArg some Std.OrientedOrd.eq_swap

namespace Numeric

theorem order?_swap (a b : Numeric) : b.order? a = (a.order? b).map Ordering.swap := by
  cases a with
  | long m =>
      cases b with
      | long n => exact congrArg some Std.OrientedOrd.eq_swap
      | double y => exact Double.order?_swap _ _
  | double x => cases b <;> exact Double.order?_swap _ _

/-- Whether a number is a NaN. -/
def isNaN : Numeric → Bool
  | long _ => false
  | double x => x.isNaN

theorem isNaN_toDouble (a : Numeric) : a.toDouble.isNaN = a.isNaN := by
  cases a with
  | long n => exact Double.isNaN_ofInt n
  | double x => rfl

/-- Where the double nearest to a number stands. -/
def rank (a : Numeric) : Int := a.toDouble.orderKey

/-- Numbers that are not both integers are compared by their ranks. -/
theorem order?_toDouble {a b : Numeric} (ha : a.isNaN = false) (hb : b.isNaN = false) :
    a.toDouble.order? b.toDouble = some (compare a.rank b.rank) := by
  rw [Double.order?, isNaN_toDouble, isNaN_toDouble, ha, hb]
  rfl

/-- A number that comes before another, or stands level with it, has no greater rank. -/
theorem rank_le {a b : Numeric} (ha : a.isNaN = false) (hb : b.isNaN = false)
    (h : ((a.order? b).getD .eq).isLE = true) : a.rank ≤ b.rank := by
  have hranks : (some (compare a.rank b.rank)).getD .eq = compare a.rank b.rank := rfl
  cases a with
  | long m =>
      cases b with
      | long n =>
          have hle : (compare m n).isLE = true := h
          exact Double.orderKey_ofInt_mono (Int.isLE_compare.mp hle)
      | double y =>
          have hle : (((long m).toDouble.order? (double y).toDouble).getD .eq).isLE = true := h
          rw [order?_toDouble ha hb, hranks] at hle
          exact Int.isLE_compare.mp hle
  | double x =>
      have hle : (((double x).toDouble.order? b.toDouble).getD .eq).isLE = true := by
        cases b <;> exact h
      rw [order?_toDouble ha hb, hranks] at hle
      exact Int.isLE_compare.mp hle

end Numeric

/-! ### Comparing values -/

/--
Values that can be ranked: no number is a NaN, and no double stands level with two different
integers.
-/
structure Rankable (values : SortValue → Prop) : Prop where
  noNaN : ∀ a : Numeric, values (.number a) → a.isNaN = false
  apart : ∀ (m n : Int) (x : Double), values (.number (.long m)) → values (.number (.long n)) →
    values (.number (.double x)) → (Numeric.long m).rank = x.orderKey →
      (Numeric.long n).rank = x.orderKey → m = n

namespace InvertedIndex

theorem orderValues_swap (u v : SortValue) : orderValues v u = (orderValues u v).swap := by
  cases u with
  | number a =>
      cases v with
      | number b =>
          simp only [orderValues]
          rw [a.order?_swap b]
          cases a.order? b <;> rfl
      | text t => rfl
  | text s =>
      cases v with
      | number b => rfl
      | text t => exact Std.OrientedOrd.eq_swap

/-- The integers around a double that can be ranked with them are in order. -/
theorem isLE_of_rank_le {values : SortValue → Prop} (h : Rankable values) {m n : Int} {b : Numeric}
    (hm : values (.number (.long m))) (hb : values (.number b)) (hn : values (.number (.long n)))
    (hmb : (orderValues (.number (.long m)) (.number b)).isLE = true)
    (hbn : (orderValues (.number b) (.number (.long n))).isLE = true) :
    (orderValues (.number (.long m)) (.number (.long n))).isLE = true := by
  have hleft := Numeric.rank_le (h.noNaN _ hm) (h.noNaN _ hb) hmb
  have hright := Numeric.rank_le (h.noNaN _ hb) (h.noNaN _ hn) hbn
  refine Int.isLE_compare.mpr ?_
  cases b with
  | long k =>
      have hmk : m ≤ k := Int.isLE_compare.mp hmb
      have hkn : k ≤ n := Int.isLE_compare.mp hbn
      omega
  | double x =>
      by_contra hlt
      have hback : (Numeric.long n).rank ≤ (Numeric.long m).rank :=
        Double.orderKey_ofInt_mono (by omega)
      have hx : (Numeric.double x).rank = x.orderKey := rfl
      have hsame := h.apart m n x hm hn hb (by omega) (by omega)
      omega

theorem orderValues_trans {values : SortValue → Prop} (h : Rankable values) {u v w : SortValue}
    (hu : values u) (hv : values v) (hw : values w) (huv : (orderValues u v).isLE = true)
    (hvw : (orderValues v w).isLE = true) : (orderValues u w).isLE = true := by
  cases u with
  | text s =>
      cases v with
      | number b => cases huv
      | text t =>
          cases w with
          | number c => cases hvw
          | text r => exact Std.TransOrd.isLE_trans (a := s) (b := t) (c := r) huv hvw
  | number a =>
      cases w with
      | text r => rfl
      | number c =>
          cases v with
          | text t => cases hvw
          | number b =>
              have ha := h.noNaN a hu
              have hc := h.noNaN c hw
              have hrank : (compare a.rank c.rank).isLE = true := Int.isLE_compare.mpr
                ((Numeric.rank_le ha (h.noNaN b hv) huv).trans
                  (Numeric.rank_le (h.noNaN b hv) hc hvw))
              -- Unless both are integers they are compared by their ranks.
              have hmixed : (a.order? c).getD .eq = compare a.rank c.rank →
                  (orderValues (.number a) (.number c)).isLE = true := fun heq => by
                rw [orderValues, heq]
                exact hrank
              have hdoubles := congrArg (fun o => o.getD .eq) (Numeric.order?_toDouble ha hc)
              cases a with
              | double x => exact hmixed (by cases c <;> exact hdoubles)
              | long m =>
                  cases c with
                  | double z => exact hmixed hdoubles
                  | long n => exact isLE_of_rank_le h hu hv hw huv hvw

/-! ### Comparing documents -/

variable {index : InvertedIndex}

/-- The order by a field as the order of values that may be missing. -/
theorem orderBy_some {key : SortField} {a b : DocId} {u v : SortValue}
    (ha : index.sortValue? key.field a = some u) (hb : index.sortValue? key.field b = some v) :
    index.orderBy key a b = if key.descending then orderValues v u else orderValues u v := by
  rw [orderBy, ha, hb, orderValues_swap u v]

/-- A document without a value comes last, in whichever direction the others go. -/
theorem orderBy_missing {key : SortField} {a b : DocId}
    (ha : (index.sortValue? key.field a).isSome = true)
    (hb : index.sortValue? key.field b = none) : index.orderBy key a b = .lt := by
  obtain ⟨u, hu⟩ := Option.isSome_iff_exists.mp ha
  rw [orderBy, hu, hb]

theorem orderBy_swap (key : SortField) (a b : DocId) :
    index.orderBy key b a = (index.orderBy key a b).swap := by
  cases ha : index.sortValue? key.field a with
  | none => cases hb : index.sortValue? key.field b <;> simp only [orderBy, ha, hb] <;> rfl
  | some u =>
      cases hb : index.sortValue? key.field b with
      | none =>
          simp only [orderBy, ha, hb]
          rfl
      | some v =>
          rw [orderBy_some ha hb, orderBy_some hb ha]
          by_cases hdown : key.descending = true
          · rw [if_pos hdown, if_pos hdown, orderValues_swap]
          · rw [if_neg hdown, if_neg hdown, orderValues_swap]

theorem order_cons (key : SortField) (rest : List SortField) (a b : DocId) :
    index.order (key :: rest) a b = (index.orderBy key a b).then (index.order rest a b) := by
  rw [order]
  cases index.orderBy key a b <;> rfl

/-- Turning two documents round turns the outcome round. -/
theorem order_swap (keys : List SortField) (a b : DocId) :
    index.order keys b a = (index.order keys a b).swap := by
  induction keys with
  | nil => exact Std.OrientedOrd.eq_swap
  | cons key rest ih => rw [order_cons, order_cons, Ordering.swap_then, orderBy_swap key a b, ih]

theorem order_self (keys : List SortField) (a : DocId) : index.order keys a a = .eq := by
  have hswap := index.order_swap keys a a
  cases h : index.order keys a a with
  | eq => rfl
  | lt => rw [h] at hswap; cases hswap
  | gt => rw [h] at hswap; cases hswap

/-- Different documents are never equal. -/
theorem order_eq_iff (keys : List SortField) (a b : DocId) :
    index.order keys a b = .eq ↔ a = b := by
  constructor
  · intro h
    induction keys with
    | nil => exact Nat.compare_eq_eq.mp h
    | cons key rest ih =>
        rw [order_cons, Ordering.then_eq_eq] at h
        exact ih h.2
  · rintro rfl
    exact order_self keys a

/-- What decides is the first field in which one of two documents has a value and the other not. -/
theorem order_missing {before after : List SortField} {key : SortField} {a b : DocId}
    (hlevel : ∀ other ∈ before, index.orderBy other a b = .eq)
    (ha : (index.sortValue? key.field a).isSome = true)
    (hb : index.sortValue? key.field b = none) :
    index.order (before ++ key :: after) a b = .lt := by
  induction before with
  | nil => rw [List.nil_append, order_cons, orderBy_missing ha hb, Ordering.lt_then]
  | cons first rest ih =>
      rw [List.cons_append, order_cons, hlevel first List.mem_cons_self, Ordering.eq_then]
      exact ih fun other hother => hlevel other (List.mem_cons_of_mem _ hother)

/-! ### Documents that can be ranked -/

/-- The values of a field among the live documents. -/
def LiveValue (index : InvertedIndex) (field : String) (value : SortValue) : Prop :=
  ∃ doc ∈ index.live, index.sortValue? field doc = some value

theorem orderBy_trans {key : SortField} (h : Rankable (index.LiveValue key.field)) {a b c : DocId}
    (ha : a ∈ index.live) (hb : b ∈ index.live) (hc : c ∈ index.live)
    (hab : (index.orderBy key a b).isLE = true) (hbc : (index.orderBy key b c).isLE = true) :
    (index.orderBy key a c).isLE = true := by
  cases hw : index.sortValue? key.field c with
  | none => cases hu : index.sortValue? key.field a <;> simp only [orderBy, hu, hw] <;> rfl
  | some w =>
      cases hv : index.sortValue? key.field b with
      | none =>
          simp only [orderBy, hv, hw] at hbc
          cases hbc
      | some v =>
          cases hu : index.sortValue? key.field a with
          | none =>
              simp only [orderBy, hu, hv] at hab
              cases hab
          | some u =>
              rw [orderBy_some hu hv] at hab
              rw [orderBy_some hv hw] at hbc
              rw [orderBy_some hu hw]
              have hu' : index.LiveValue key.field u := ⟨a, ha, hu⟩
              have hv' : index.LiveValue key.field v := ⟨b, hb, hv⟩
              have hw' : index.LiveValue key.field w := ⟨c, hc, hw⟩
              by_cases hdown : key.descending = true
              · rw [if_pos hdown] at hab hbc ⊢
                exact orderValues_trans h hw' hv' hu' hbc hab
              · rw [if_neg hdown] at hab hbc ⊢
                exact orderValues_trans h hu' hv' hw' hab hbc

/-- Comparing live documents is transitive if each field can be ranked. -/
theorem order_isLE_trans {keys : List SortField}
    (h : ∀ key ∈ keys, Rankable (index.LiveValue key.field)) {a b c : DocId}
    (ha : a ∈ index.live) (hb : b ∈ index.live) (hc : c ∈ index.live)
    (hab : (index.order keys a b).isLE = true) (hbc : (index.order keys b c).isLE = true) :
    (index.order keys a c).isLE = true := by
  induction keys with
  | nil => exact Std.TransOrd.isLE_trans (a := a) (b := b) (c := c) hab hbc
  | cons key rest ih =>
      have hkey := h key List.mem_cons_self
      rw [order_cons, Ordering.isLE_then_iff_and] at hab hbc ⊢
      obtain ⟨hab₁, hab₂⟩ := hab
      obtain ⟨hbc₁, hbc₂⟩ := hbc
      refine ⟨orderBy_trans hkey ha hb hc hab₁ hbc₁, ?_⟩
      -- If the outer two are level in this field, the one between them is level with both.
      by_cases hac : index.orderBy key a c = .lt
      · exact Or.inl hac
      have hca : (index.orderBy key c a).isLE = true := by
        rw [orderBy_swap key a c]
        cases ho : index.orderBy key a c with
        | lt => exact absurd ho hac
        | eq => rfl
        | gt => rfl
      have hba := orderBy_trans hkey hb hc ha hbc₁ hca
      have hcb := orderBy_trans hkey hc ha hb hca hab₁
      rw [orderBy_swap key a b] at hba
      rw [orderBy_swap key b c] at hcb
      have hab' : index.orderBy key a b ≠ .lt := fun heq => by
        rw [heq] at hba
        cases hba
      have hbc' : index.orderBy key b c ≠ .lt := fun heq => by
        rw [heq] at hcb
        cases hcb
      exact Or.inr (ih (fun other hother => h other (List.mem_cons_of_mem _ hother))
        (hab₂.resolve_left hab') (hbc₂.resolve_left hbc'))

theorem order_trans {keys : List SortField}
    (h : ∀ key ∈ keys, Rankable (index.LiveValue key.field)) {a b c : DocId}
    (ha : a ∈ index.live) (hb : b ∈ index.live) (hc : c ∈ index.live)
    (hab : index.order keys a b = .lt) (hbc : index.order keys b c = .lt) :
    index.order keys a c = .lt := by
  have hac := order_isLE_trans h ha hb hc (by rw [hab]; rfl) (by rw [hbc]; rfl)
  cases ho : index.order keys a c with
  | lt => rfl
  | gt => rw [ho] at hac; cases hac
  | eq =>
      obtain rfl := (order_eq_iff keys a c).mp ho
      rw [order_swap keys a b, hab] at hbc
      cases hbc

/-! ### Sorting -/

theorem perm_insertDescending (keys : List SortField) (doc : DocId) (docs : List DocId) :
    (index.insertDescending keys doc docs).Perm (doc :: docs) := by
  induction docs with
  | nil => exact List.Perm.refl _
  | cons d rest ih =>
      rw [insertDescending]
      split
      · exact (ih.cons d).trans (List.Perm.swap _ _ _)
      · exact List.Perm.refl _

/-- A document is put into its place in a descending list. -/
theorem descending_insertDescending {keys : List SortField}
    (h : ∀ key ∈ keys, Rankable (index.LiveValue key.field)) {doc : DocId} {docs : List DocId}
    (hdoc : doc ∈ index.live) (hdocs : ∀ d ∈ docs, d ∈ index.live) (hnew : doc ∉ docs)
    (hdown : docs.Pairwise fun a b => index.order keys b a = .lt) :
    (index.insertDescending keys doc docs).Pairwise fun a b => index.order keys b a = .lt := by
  induction docs with
  | nil => exact List.pairwise_singleton _ _
  | cons d rest ih =>
      obtain ⟨hfirst, hrest⟩ := List.pairwise_cons.mp hdown
      have hd := hdocs d List.mem_cons_self
      rw [insertDescending]
      by_cases hlt : index.order keys doc d = .lt
      · rw [if_pos (by rw [hlt]; rfl)]
        refine List.pairwise_cons.mpr ⟨?_, ih (fun e he => hdocs e (List.mem_cons_of_mem _ he))
          (fun hmem => hnew (List.mem_cons_of_mem _ hmem)) hrest⟩
        intro other hother
        have hmem := (perm_insertDescending keys doc rest).subset hother
        rcases List.mem_cons.mp hmem with rfl | hold
        · exact hlt
        · exact hfirst other hold
      · have hgt : index.order keys d doc = .lt := by
          rw [order_swap keys doc d]
          cases ho : index.order keys doc d with
          | lt => exact absurd ho hlt
          | gt => rfl
          | eq => exact absurd ((order_eq_iff keys doc d).mp ho) (fun heq =>
              hnew (heq ▸ List.mem_cons_self))
        rw [if_neg (by simpa using hlt)]
        refine List.pairwise_cons.mpr ⟨fun other hother => ?_, hdown⟩
        rcases List.mem_cons.mp hother with rfl | hold
        · exact hgt
        · exact order_trans h (hdocs other hother) hd hdoc (hfirst other hold) hgt

theorem foldl_insertDescending {keys : List SortField}
    (h : ∀ key ∈ keys, Rankable (index.LiveValue key.field)) :
    ∀ (docs sorted : List DocId), (∀ d ∈ docs ++ sorted, d ∈ index.live) → (docs ++ sorted).Nodup →
      (sorted.Pairwise fun a b => index.order keys b a = .lt) →
      (docs.foldl (fun sorted doc => index.insertDescending keys doc sorted) sorted).Perm
          (docs ++ sorted) ∧
        (docs.foldl (fun sorted doc => index.insertDescending keys doc sorted) sorted).Pairwise
          fun a b => index.order keys b a = .lt
  | [], sorted, _, _, hdown => ⟨List.Perm.refl _, hdown⟩
  | doc :: rest, sorted, hlive, hnodup, hdown => by
      have hinserted : (index.insertDescending keys doc sorted).Perm (doc :: sorted) :=
        perm_insertDescending keys doc sorted
      have hmoved : (rest ++ index.insertDescending keys doc sorted).Perm (doc :: rest ++ sorted) :=
        (hinserted.append_left rest).trans List.perm_middle
      have hnext := foldl_insertDescending h rest (index.insertDescending keys doc sorted)
        (fun d hd => hlive d (hmoved.subset hd)) (hmoved.nodup_iff.mpr hnodup)
        (descending_insertDescending h (hlive doc List.mem_cons_self)
          (fun d hd => hlive d (List.mem_append_right _ hd))
          (fun hmem => (List.nodup_cons.mp hnodup).1 (List.mem_append_right _ hmem)) hdown)
      exact ⟨hnext.1.trans hmoved, hnext.2⟩

/-- **Live documents are sorted into increasing order.** -/
theorem sort_increasing {keys : List SortField}
    (h : ∀ key ∈ keys, Rankable (index.LiveValue key.field)) {docs : List DocId}
    (hlive : ∀ d ∈ docs, d ∈ index.live) (hnodup : docs.Nodup) :
    (index.sort keys docs).Perm docs ∧
      (index.sort keys docs).Pairwise fun a b => index.order keys a b = .lt := by
  obtain ⟨hperm, hdown⟩ := foldl_insertDescending h docs []
    (by rwa [List.append_nil]) (by rwa [List.append_nil]) List.Pairwise.nil
  rw [List.append_nil] at hperm
  exact ⟨(List.reverse_perm _).trans hperm, List.pairwise_reverse.mpr hdown⟩

/-! ### Searching -/

/-- An index whose sets of documents are in order. -/
structure Tidy (index : InvertedIndex) : Prop where
  live : index.live.Increasing
  numbers : ∀ field, Table.Sorted (index.numbersOf field)

theorem Tidy.matching (h : index.Tidy) (lookup : Lookup) : (index.matching lookup).Increasing :=
  (increasing_evaluate h.live h.numbers lookup).filter _

/-- Every index that came about by changes is tidy. -/
theorem tidy_makeAll (analyzers : Analyzers) (changes : List Change) :
    Tidy (makeAll (InvertedIndex.make analyzers) .empty changes).1 := by
  obtain ⟨-, hrefines⟩ := Refines.empty.makeAll analyzers changes
  exact ⟨hrefines.increasing_live, hrefines.represents.numbersSorted⟩

/-- What a search gives: the first so many of what was found in its order, and how much it was. -/
theorem search_eq (lookup : Lookup) (keys : List SortField) (limit : Option Nat) :
    index.search lookup keys limit =
      (limit.elim (index.search lookup keys none).1 (index.search lookup keys none).1.take,
        (index.matching lookup).length) := by
  cases limit <;> rfl

/-- All that was found, in the order of the search. -/
theorem search_increasing (htidy : index.Tidy) {keys : List SortField}
    (h : ∀ key ∈ keys, Rankable (index.LiveValue key.field)) (lookup : Lookup) :
    (index.search lookup keys none).1.Perm (index.matching lookup) ∧
      (index.search lookup keys none).1.Pairwise fun a b => index.order keys a b = .lt := by
  have hfound := htidy.matching lookup
  cases keys with
  | nil =>
      refine ⟨List.Perm.refl _, List.Pairwise.imp ?_ hfound⟩
      intro a b hlt
      exact Nat.compare_eq_lt.mpr hlt
  | cons key rest =>
      exact sort_increasing h (fun d hd => (mem_matching.mp hd).2) (hfound.imp Nat.ne_of_lt)

/--
**Sorting by fields gives one sequence.**  Comparing two documents the other way round turns the
outcome round, only the same document is level with itself, and a document without a value comes
last in either direction.  If the values of the fields can be ranked, comparing is transitive
too, and a search gives all that it finds with each document before those that it is less than.
-/
theorem search_in_order (index : InvertedIndex) (htidy : index.Tidy) (keys : List SortField) :
    (∀ a b, index.order keys b a = (index.order keys a b).swap ∧
      (index.order keys a b = .eq ↔ a = b)) ∧
    (∀ before key after a b, keys = before ++ key :: after →
      (∀ other ∈ before, index.orderBy other a b = .eq) →
      (index.sortValue? key.field a).isSome = true → index.sortValue? key.field b = none →
      index.order keys a b = .lt) ∧
    ((∀ key ∈ keys, Rankable (index.LiveValue key.field)) →
      (∀ a ∈ index.live, ∀ b ∈ index.live, ∀ c ∈ index.live, index.order keys a b = .lt →
        index.order keys b c = .lt → index.order keys a c = .lt) ∧
      ∀ lookup limit, ∃ found : List DocId, found.Perm (index.matching lookup) ∧
        (found.Pairwise fun a b => index.order keys a b = .lt) ∧
        index.search lookup keys limit = (limit.elim found found.take, found.length)) := by
  refine ⟨fun a b => ⟨order_swap keys a b, order_eq_iff keys a b⟩, ?_, fun h => ⟨?_, ?_⟩⟩
  · rintro before key after a b rfl hlevel ha hb
    exact order_missing hlevel ha hb
  · intro a ha b hb c hc hab hbc
    exact order_trans h ha hb hc hab hbc
  · intro lookup limit
    obtain ⟨hperm, hincreasing⟩ := search_increasing htidy h lookup
    refine ⟨_, hperm, hincreasing, ?_⟩
    rw [search_eq, hperm.length_eq]

/-- Numbers of both kinds and a text in one field, and a document without it. -/
def mixedChanges : List Change :=
  [.add [.text "n" "Ten" "standard"], .add [.long "n" 9007199254740993], .add [],
    .add [.double "n" ⟨0x4000000000000000⟩], .add [.long "n" (-3)], .add [.long "n" 2]]

theorem search_in_order_mixed :
    let index := (makeAll (InvertedIndex.make Analyzers.builtIn) .empty mixedChanges).1
    let keys : List SortField := [⟨"n", true⟩]
    (∀ key ∈ keys, Rankable (index.LiveValue key.field)) ∧
      index.search .everything keys none = ([0, 1, 3, 5, 4, 2], 6) ∧
      (∀ a ∈ index.live, ∀ b ∈ index.live, ∀ c ∈ index.live, index.order keys a b = .lt →
        index.order keys b c = .lt → index.order keys a c = .lt) ∧
      ∃ found : List DocId, found.Perm (index.matching .everything) ∧
        (found.Pairwise fun a b => index.order keys a b = .lt) ∧
        index.search .everything keys (some 2) = (found.take 2, found.length) := by
  intro index keys
  have hlive : index.live = [0, 1, 2, 3, 4, 5] := by decide +kernel
  have hread : [0, 1, 2, 3, 4, 5].map (index.sortValue? "n") =
      [some (.text "ten"), some (.number (.long 9007199254740993)), none,
        some (.number (.double ⟨0x4000000000000000⟩)), some (.number (.long (-3))),
        some (.number (.long 2))] := by decide +kernel
  have hvalues : ∀ v, index.LiveValue "n" v → v = .text "ten" ∨
      v = .number (.long 9007199254740993) ∨ v = .number (.double ⟨0x4000000000000000⟩) ∨
      v = .number (.long (-3)) ∨ v = .number (.long 2) := by
    rintro v ⟨doc, hdoc, hvalue⟩
    have hmem : index.sortValue? "n" doc ∈ [0, 1, 2, 3, 4, 5].map (index.sortValue? "n") :=
      List.mem_map_of_mem (hlive ▸ hdoc)
    rw [hread, hvalue] at hmem
    simpa using hmem
  have hrankable : ∀ key ∈ keys, Rankable (index.LiveValue key.field) := by
    intro key hkey
    rw [List.mem_singleton.mp hkey]
    refine ⟨fun a ha => ?_, fun m n x hm hn hx hmx hnx => ?_⟩
    · rcases hvalues _ ha with h | h | h | h | h <;> cases h <;> decide +kernel
    -- The double is level with the number two alone.
    · have htwo : ∀ k, index.LiveValue "n" (.number (.long k)) →
          (Numeric.long k).rank = x.orderKey → k = 2 := by
        obtain rfl : x = ⟨0x4000000000000000⟩ := by
          rcases hvalues _ hx with h | h | h | h | h <;> cases h
          rfl
        intro k hk hlevel
        rcases hvalues _ hk with h | h | h | h | h <;> cases h <;> revert hlevel <;> decide +kernel
      rw [htwo m hm hmx, htwo n hn hnx]
  obtain ⟨-, -, hordered⟩ := search_in_order index (tidy_makeAll _ _) keys
  obtain ⟨htrans, hsearch⟩ := hordered hrankable
  exact ⟨hrankable, by decide +kernel, htrans, hsearch .everything (some 2)⟩

/-- Two integers next to each other around the double that both are nearest to. -/
def circle : List Change :=
  [.add [.long "n" 9007199254740993], .add [.double "n" ⟨0x4340000000000000⟩],
    .add [.long "n" 9007199254740992]]

/-- Each of three documents comes before the next one, and the last one before the first. -/
theorem order_circle :
    let index := (makeAll (InvertedIndex.make []) .empty circle).1
    index.order [⟨"n", false⟩] 0 1 = .lt ∧ index.order [⟨"n", false⟩] 1 2 = .lt ∧
      index.order [⟨"n", false⟩] 2 0 = .lt ∧
      index.search .everything [⟨"n", false⟩] none = ([0, 1, 2], 3) := by
  decide +kernel

end InvertedIndex

end DocIndex
