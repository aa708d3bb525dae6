/-
How many edits make one text of another.

The distance of two texts is the least number of edits, each of which inserts, removes or replaces
one character.  The table of distances is filled in row by row: with one text read up to a
character and the other up to another, either of the two characters is the last to be edited, or
both are kept or replaced by each other.  Only two rows are kept, and each new one is written over
an old one; no entry of the old one is read before it is overwritten.

That the recursion behind the table gives no less than the least number is seen by following it,
and that it gives no more by one edit at a time, since an edit anywhere changes the distance to
every other text by at most one.

An edit changes the length of a text by at most one, so whoever compares the lengths first misses
nothing.
-/
import Mathlib.Order.Bounds.Defs
import Mathlib.Tactic.Common
import DocIndex.Index.Search

namespace DocIndex

/-! ### Edits -/

/-- One character is inserted, removed or replaced. -/
inductive CharEdit : List Char → List Char → Prop
  | insert (front back : List Char) (c : Char) : CharEdit (front ++ back) (front ++ c :: back)
  | remove (front back : List Char) (c : Char) : CharEdit (front ++ c :: back) (front ++ back)
  | replace (front back : List Char) (c d : Char) :
    CharEdit (front ++ c :: back) (front ++ d :: back)

/-- So many edits, one after the other. -/
inductive CharEdits : Nat → List Char → List Char → Prop
  | none (a : List Char) : CharEdits 0 a a
  | cons {n : Nat} {a b c : List Char} (first : CharEdit a b) (rest : CharEdits n b c) :
    CharEdits (n + 1) a c

namespace CharEdit

variable {a b : List Char}

theorem behind (h : CharEdit a b) (x : Char) : CharEdit (x :: a) (x :: b) := by
  cases h with
  | insert front back c => exact .insert (x :: front) back c
  | remove front back c => exact .remove (x :: front) back c
  | replace front back c d => exact .replace (x :: front) back c d

theorem reverse (h : CharEdit a b) : CharEdit a.reverse b.reverse := by
  cases h with
  | insert front back c => simpa using CharEdit.insert back.reverse front.reverse c
  | remove front back c => simpa using CharEdit.remove back.reverse front.reverse c
  | replace front back c d => simpa using CharEdit.replace back.reverse front.reverse c d

/-- An edit changes the length by at most one. -/
theorem length_le (h : CharEdit a b) : a.length ≤ b.length + 1 ∧ b.length ≤ a.length + 1 := by
  cases h <;> simp only [List.length_append, List.length_cons] <;> omega

end CharEdit

namespace CharEdits

variable {n : Nat} {a b : List Char}

theorem behind (h : CharEdits n a b) (x : Char) : CharEdits n (x :: a) (x :: b) := by
  induction h with
  | none a => exact .none (x :: a)
  | cons first _ ih => exact .cons (first.behind x) ih

theorem reverse (h : CharEdits n a b) : CharEdits n a.reverse b.reverse := by
  induction h with
  | none a => exact .none a.reverse
  | cons first _ ih => exact .cons first.reverse ih

/-- So many edits change the length by no more. -/
theorem length_le (h : CharEdits n a b) : a.length ≤ b.length + n ∧ b.length ≤ a.length + n := by
  induction h with
  | none a => exact ⟨Nat.le_refl _, Nat.le_refl _⟩
  | cons first _ ih =>
      have hfirst := first.length_le
      omega

end CharEdits

/-! ### The recursion behind the table -/

/-- The distance of two texts by the characters that they begin with. -/
def recursiveDistance : List Char → List Char → Nat
  | [], b => b.length
  | a, [] => a.length
  | x :: a, y :: b =>
    min (min (recursiveDistance a b + if x = y then 0 else 1) (recursiveDistance a (y :: b) + 1))
      (recursiveDistance (x :: a) b + 1)

theorem recursiveDistance_nil_left (b : List Char) : recursiveDistance [] b = b.length := by
  rw [recursiveDistance]

theorem recursiveDistance_nil_right (a : List Char) : recursiveDistance a [] = a.length := by
  cases a <;> simp [recursiveDistance]

theorem recursiveDistance_cons (x y : Char) (a b : List Char) :
    recursiveDistance (x :: a) (y :: b)
      = min (min (recursiveDistance a b + if x = y then 0 else 1)
          (recursiveDistance a (y :: b) + 1)) (recursiveDistance (x :: a) b + 1) := by
  rw [recursiveDistance]

/-- There are as many edits as the recursion says. -/
theorem charEdits_recursiveDistance (a b : List Char) : CharEdits (recursiveDistance a b) a b := by
  induction a generalizing b with
  | nil =>
      rw [recursiveDistance_nil_left]
      induction b with
      | nil => exact .none []
      | cons y b ih => exact .cons (.insert [] [] y) (ih.behind y)
  | cons x a iha =>
      have hremove : ∀ b, CharEdits (recursiveDistance a b + 1) (x :: a) b := fun b =>
        .cons (.remove [] a x) (iha b)
      induction b with
      | nil =>
          rw [recursiveDistance_nil_right]
          have hall := hremove []
          rwa [recursiveDistance_nil_right] at hall
      | cons y b ihb =>
          have hinsert : CharEdits (recursiveDistance (x :: a) b + 1) (x :: a) (y :: b) :=
            .cons (.insert [] (x :: a) y) (ihb.behind y)
          have hkeep :
              CharEdits (recursiveDistance a b + if x = y then 0 else 1) (x :: a) (y :: b) := by
            split
            · rename_i hsame
              exact hsame ▸ (iha b).behind x
            · exact .cons (.replace [] a x y) ((iha b).behind y)
          rw [recursiveDistance_cons]
          rcases Nat.le_total (min (recursiveDistance a b + if x = y then 0 else 1)
            (recursiveDistance a (y :: b) + 1)) (recursiveDistance (x :: a) b + 1) with h | h
          · rw [Nat.min_eq_left h]
            rcases Nat.le_total (recursiveDistance a b + if x = y then 0 else 1)
              (recursiveDistance a (y :: b) + 1) with h | h
            · rw [Nat.min_eq_left h]
              exact hkeep
            · rw [Nat.min_eq_right h]
              exact hremove (y :: b)
          · rw [Nat.min_eq_right h]
            exact hinsert

/-! ### One edit -/

/-- A text is at most one edit further away from every other one than the second text is. -/
def OneAway (a b : List Char) : Prop :=
  ∀ c, recursiveDistance a c ≤ recursiveDistance b c + 1

namespace OneAway

variable {a b : List Char}

/-- A character in front of both changes nothing. -/
theorem behind (h : OneAway a b) (x : Char) : OneAway (x :: a) (x :: b) := by
  intro c
  induction c with
  | nil =>
      have hnil := h []
      simp only [recursiveDistance_nil_right, List.length_cons] at hnil ⊢
      omega
  | cons y c ih =>
      have hkeep := h c
      have hremove := h (y :: c)
      simp only [recursiveDistance_cons]
      omega

theorem remove (x : Char) (a : List Char) : OneAway (x :: a) a := by
  intro c
  cases c with
  | nil =>
      simp only [recursiveDistance_nil_right, List.length_cons]
      omega
  | cons y c =>
      rw [recursiveDistance_cons]
      omega

theorem insert (x : Char) (a : List Char) : OneAway a (x :: a) := by
  intro c
  have hgrow : ∀ y c, recursiveDistance a (y :: c) ≤ recursiveDistance a c + 1 := by
    intro y c
    cases a with
    | nil =>
        simp only [recursiveDistance_nil_left, List.length_cons]
        omega
    | cons z a =>
        rw [recursiveDistance_cons]
        omega
  induction c with
  | nil =>
      simp only [recursiveDistance_nil_right, List.length_cons]
      omega
  | cons y c ih =>
      have hnext := hgrow y c
      rw [recursiveDistance_cons]
      omega

theorem replace (x y : Char) (a : List Char) : OneAway (x :: a) (y :: a) := by
  intro c
  induction c with
  | nil =>
      simp only [recursiveDistance_nil_right, List.length_cons]
      omega
  | cons z c ih =>
      simp only [recursiveDistance_cons]
      split <;> split <;> omega

theorem of_charEdit (h : CharEdit a b) : OneAway a b := by
  have hbehind : ∀ (front : List Char) {a b : List Char}, OneAway a b →
      OneAway (front ++ a) (front ++ b) := by
    intro front a b h
    induction front with
    | nil => exact h
    | cons x front ih => exact ih.behind x
  cases h with
  | insert front back c => exact hbehind front (.insert c back)
  | remove front back c => exact hbehind front (.remove c back)
  | replace front back c d => exact hbehind front (.replace c d back)

end OneAway

theorem recursiveDistance_self (a : List Char) : recursiveDistance a a = 0 := by
  induction a with
  | nil => rw [recursiveDistance_nil_left, List.length_nil]
  | cons x a ih =>
      rw [recursiveDistance_cons, ih, if_pos rfl]
      omega

/-- No fewer edits than the recursion says will do. -/
theorem CharEdits.recursiveDistance_le {n : Nat} {a b : List Char} (h : CharEdits n a b) :
    recursiveDistance a b ≤ n := by
  induction h with
  | none a => exact Nat.le_of_eq (recursiveDistance_self a)
  | @cons n a b c first _ ih =>
      have hfirst := OneAway.of_charEdit first c
      omega

/-! ### The table -/

/--
A row has for each beginning of a text its distance to another text.  Both are read from their
ends.
-/
structure IsRow (read text : List Char) (row : Array Nat) : Prop where
  size : row.size = text.length + 1
  entry {i : Nat} (h : i ≤ text.length) :
    row.getD i 0 = recursiveDistance read (text.take i).reverse

/-- Writing one entry of a row. -/
theorem getD_setIfInBounds (row : Array Nat) {i : Nat} (h : i < row.size) (value j : Nat) :
    (row.setIfInBounds i value).getD j 0 = if i = j then value else row.getD j 0 := by
  rw [Array.getD_eq_getD_getElem?, Array.getD_eq_getD_getElem?, Array.getElem?_setIfInBounds]
  by_cases hsame : i = j
  · rw [if_pos hsame, if_pos hsame, if_pos h, Option.getD_some]
  · rw [if_neg hsame, if_neg hsame]

theorem take_succ_reverse (front back : List Char) (d : Char) :
    ((front ++ d :: back).take (front.length + 1)).reverse
      = d :: ((front ++ d :: back).take front.length).reverse := by
  rw [List.take_length_add_append, List.take_left, List.reverse_append]
  rfl

/--
A row is made from the row above it, over whatever stood there.  Up to the column the entries are
made already; the rest of the row is not looked at before it is overwritten.
-/
theorem isRow_editRow {read : List Char} {c : Char} {above row : Array Nat} (front : List Char)
    {back : List Char} (habove : IsRow read (front ++ back) above)
    (hsize : row.size = (front ++ back).length + 1)
    (hmade : ∀ i ≤ front.length,
      row.getD i 0 = recursiveDistance (c :: read) ((front ++ back).take i).reverse) :
    IsRow (c :: read) (front ++ back) (editRow c above back front.length row) := by
  induction back generalizing front row with
  | nil =>
      rw [List.append_nil] at hsize hmade ⊢
      exact ⟨hsize, fun h => hmade _ h⟩
  | cons d back ih =>
      have hfront : front ++ d :: back = (front ++ [d]) ++ back := by
        rw [List.append_assoc, List.singleton_append]
      have hlength : (front ++ d :: back).length = front.length + back.length + 1 := by
        rw [List.length_append, List.length_cons]
        omega
      have hnext := habove.entry (i := front.length + 1) (by omega)
      rw [take_succ_reverse] at hnext
      rw [editRow, habove.entry (by omega), hnext, hmade front.length (Nat.le_refl _),
        ← recursiveDistance_cons, ← take_succ_reverse]
      rw [hfront] at habove hsize hmade ⊢
      have hwidth : front.length + 1 = (front ++ [d]).length := by
        rw [List.length_append, List.length_singleton]
      rw [hwidth]
      refine ih (front ++ [d]) habove ?_ ?_
      · rw [Array.size_setIfInBounds, hsize]
      · intro i hi
        rw [getD_setIfInBounds _ (by rw [hsize, ← hfront, hlength]; omega)]
        split
        · rename_i hlast
          rw [hlast]
        · exact hmade i (by omega)

/-- The first row counts insertions. -/
theorem isRow_range (text : List Char) : IsRow [] text (Array.range (text.length + 1)) where
  size := Array.size_range
  entry := by
    intro i hi
    rw [recursiveDistance_nil_left, List.length_reverse, List.length_take, Nat.min_eq_left hi,
      Array.getD_eq_getD_getElem?, Array.getElem?_range, if_pos (by omega), Option.getD_some]

/-- Two rows are enough to come to the last one. -/
theorem isRow_editRows {read text : List Char} {above spare : Array Nat} (rest : List Char)
    (habove : IsRow read text above) (hspare : spare.size = text.length + 1) :
    IsRow (rest.reverse ++ read) text (editRows text above spare read.length rest) := by
  induction rest generalizing read above spare with
  | nil => exact habove
  | cons c rest ih =>
      have hrow : IsRow (c :: read) text
          (editRow c above text 0 (spare.setIfInBounds 0 (read.length + 1))) := by
        refine isRow_editRow [] habove ?_ ?_
        · rw [Array.size_setIfInBounds, hspare, List.nil_append]
        · intro i hi
          obtain rfl : i = 0 := Nat.le_zero.mp hi
          rw [getD_setIfInBounds _ (by omega), if_pos rfl, List.take_zero, List.reverse_nil,
            recursiveDistance_nil_right, List.length_cons]
      have hrest := ih hrow habove.size
      rw [List.length_cons] at hrest
      rw [editRows, List.reverse_cons, List.append_assoc, List.singleton_append]
      exact hrest

/-- The table ends with the distance of the whole texts. -/
theorem editDistance_eq (a b : List Char) :
    editDistance a b = recursiveDistance a.reverse b.reverse := by
  rw [editDistance]
  split
  · rename_i hempty
    rw [List.isEmpty_iff.mp hempty, List.reverse_nil, recursiveDistance_nil_left,
      List.length_reverse]
  split
  · rename_i hempty
    rw [List.isEmpty_iff.mp hempty, List.reverse_nil, recursiveDistance_nil_right,
      List.length_reverse]
  have hlast := isRow_editRows a (isRow_range b) (Array.size_replicate (v := 0))
  have hentry := hlast.entry (Nat.le_refl _)
  rwa [List.append_nil, List.take_length] at hentry

/-- **The distance is the least number of edits.** -/
theorem isLeast_charEdits (a b : List Char) : IsLeast {n | CharEdits n a b} (editDistance a b) := by
  constructor
  · have hedits := (charEdits_recursiveDistance a.reverse b.reverse).reverse
    rw [List.reverse_reverse, List.reverse_reverse, ← editDistance_eq] at hedits
    exact hedits
  · intro n hedits
    rw [editDistance_eq]
    exact hedits.reverse.recursiveDistance_le

/-- Texts are at least as many edits apart as their lengths. -/
theorem length_le_editDistance (a b : List Char) :
    a.length ≤ b.length + editDistance a b ∧ b.length ≤ a.length + editDistance a b :=
  (isLeast_charEdits a b).1.length_le

namespace InvertedIndex

/-- Comparing the lengths first rules out nothing that is few enough edits away. -/
theorem isSimilar_eq (term other : String) (maxEdits : Nat) :
    isSimilar term other maxEdits = decide (editDistance term.toList other.toList ≤ maxEdits) := by
  have hdistance := length_le_editDistance term.toList other.toList
  simp only [String.length_toList] at hdistance
  unfold isSimilar
  by_cases h : editDistance term.toList other.toList ≤ maxEdits
  · simp [h]
    omega
  · simp [h]

end InvertedIndex

end DocIndex
