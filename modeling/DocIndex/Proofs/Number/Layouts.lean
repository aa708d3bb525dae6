/-
The same number in JSON text and in query text.

Both texts show the shortest decimal of a number.  JSON text marks a number that is no integer of
the document by a point or an exponent, even if its value is an integer; query text has neither
unless there is a fraction, and never an exponent.  So of a double the two texts are the same just
if it has a fraction that JSON text shows in full.
-/
import DocIndex.Json.Printer
import DocIndex.Proofs.Number.Shortest
import DocIndex.Proofs.Text.Digits
import DocIndex.Query.Value

namespace DocIndex

/-! ### Digits with zeros behind them -/

theorem toDigits_mul_pow {n : Nat} (hpos : 0 < n) (k : Nat) :
    Nat.toDigits 10 (n * 10 ^ k) = Nat.toDigits 10 n ++ List.replicate k '0' := by
  induction k with
  | zero => simp
  | succ k ih =>
      have hmore : 0 < n * 10 ^ k := Nat.mul_pos hpos (Nat.pow_pos (by decide))
      have hzero := Nat.toDigits_append_toDigits (b := 10) (n := n * 10 ^ k) (d := 0)
        (by decide) hmore (by decide)
      rw [Nat.pow_succ, ← Nat.mul_assoc, Nat.mul_comm (n * 10 ^ k) 10, ← Nat.add_zero (10 * _),
        ← hzero, ih, List.replicate_succ', List.append_assoc]
      rfl

theorem not_mem_toDigits {c : Char} {n : Nat} (hc : c.isDigit = false) :
    c ∉ Nat.toDigits 10 n := by
  intro hmem
  rw [Nat.isDigit_of_mem_toDigits (by decide) (by decide) hmem] at hc
  cases hc

theorem not_mem_toString {c : Char} {n : Int} (hc : c.isDigit = false) (hminus : c ≠ '-') :
    c ∉ (toString n).toList := by
  rw [toList_toString]
  split
  · exact List.not_mem_cons_of_ne_of_not_mem hminus (not_mem_toDigits hc)
  · exact not_mem_toDigits hc

theorem exists_digit (n : Nat) : ∃ c ∈ Nat.toDigits 10 n, c.isDigit = true := by
  obtain ⟨c, hc⟩ := List.exists_mem_of_ne_nil _ (Nat.toDigits_ne_nil (n := n) (b := 10))
  exact ⟨c, hc, Nat.isDigit_of_mem_toDigits (by decide) (by decide) hc⟩

namespace Decimal

variable (d : Decimal)

/-- The place of the point, counted from the first digit. -/
def point : Int := (Nat.toDigits 10 d.digits).length + d.exponent

/-- The decimal in full, with what follows it if it has no fraction. -/
def inFull (wholeSuffix : String) : String :=
  let digits := Nat.toDigits 10 d.digits
  if 0 ≤ d.exponent then
    String.ofList (digits ++ List.replicate d.exponent.toNat '0') ++ wholeSuffix
  else if 0 < d.point then
    String.ofList (digits.take d.point.toNat ++ '.' :: digits.drop d.point.toNat)
  else String.ofList ('0' :: '.' :: List.replicate (-d.point).toNat '0' ++ digits)

/-- The decimal with one digit before the point, and an exponent. -/
def withExponent : String :=
  let digits := Nat.toDigits 10 d.digits
  let fraction := if digits.length ≤ 1 then [] else '.' :: digits.drop 1
  let sign := if 1 ≤ d.point then "+" else ""
  String.ofList (digits.take 1 ++ fraction) ++ "e" ++ sign ++ toString (d.point - 1)

theorem write_eq (layout : Layout) : d.write layout
    = if layout.positional d.point then d.inFull layout.wholeSuffix else d.withExponent := rfl

variable {d}

/-- In full, a decimal without fraction is the integer that it is. -/
theorem inFull_whole (hpos : 0 < d.digits) (h : 0 ≤ d.exponent) (wholeSuffix : String) :
    d.inFull wholeSuffix
      = String.ofList (Nat.toDigits 10 (d.digits * 10 ^ d.exponent.toNat)) ++ wholeSuffix := by
  rw [inFull, if_pos h, toDigits_mul_pow hpos]

/-- In full, what follows an integer does not follow a fraction. -/
theorem inFull_fraction (h : d.exponent < 0) (wholeSuffix : String) :
    d.inFull wholeSuffix = d.inFull "" := by
  simp only [inFull, if_neg (not_le.mpr h)]

theorem mem_withExponent : 'e' ∈ d.withExponent.toList := by
  simp [withExponent]

/-- In full, there is a point in a fraction, or in what follows an integer. -/
theorem mem_inFull {wholeSuffix : String} (hsuffix : '.' ∈ wholeSuffix.toList) :
    '.' ∈ (d.inFull wholeSuffix).toList := by
  rw [inFull]
  split
  · rw [String.toList_append]
    exact List.mem_append_right _ hsuffix
  · split <;> simp

/-- In full, there are digits and a point beside what follows. -/
theorem not_mem_inFull {c : Char} (hdigit : c.isDigit = false)
    (hpoint : d.exponent < 0 → c ≠ '.') : c ∉ (d.inFull "").toList := by
  have hdigits := not_mem_toDigits (n := d.digits) hdigit
  have hzero : c ≠ '0' := by
    rintro rfl
    cases hdigit
  have hzeros : ∀ n, c ∉ List.replicate n '0' := fun n hmem => hzero (List.eq_of_mem_replicate hmem)
  rw [inFull]
  split
  · simp [hdigits, hzero]
  · rename_i hexponent
    have hpoint := hpoint (not_le.mp hexponent)
    split
    · simp only [String.toList_ofList, List.mem_append, List.mem_cons, not_or]
      exact ⟨fun h => hdigits (List.mem_of_mem_take h), hpoint,
        fun h => hdigits (List.mem_of_mem_drop h)⟩
    · simp [hdigits, hzero, hpoint]

/-- In full, there is a digit. -/
theorem exists_digit_inFull (d : Decimal) (wholeSuffix : String) :
    ∃ c ∈ (d.inFull wholeSuffix).toList, c.isDigit = true := by
  obtain ⟨c, hc, hdigit⟩ := exists_digit d.digits
  rw [inFull]
  split
  · exact ⟨c, by simp [hc], hdigit⟩
  · split
    · refine ⟨c, ?_, hdigit⟩
      rw [← List.take_append_drop d.point.toNat (Nat.toDigits 10 d.digits)] at hc
      rw [String.toList_ofList]
      rcases List.mem_append.mp hc with hc | hc
      · exact List.mem_append_left _ hc
      · exact List.mem_append_right _ (List.mem_cons_of_mem _ hc)
    · exact ⟨'0', by simp, by decide⟩

end Decimal

/-! ### Doubles -/

namespace Double

variable {x : Double}

/-- Only the numbers that are integers are written without a fraction. -/
theorem exponent_shortest_neg (hfinite : x.isFinite = true) (hfraction : x.toInt? = none) :
    x.magnitude ≠ 0 ∧ (Decimal.shortest x).exponent < 0 := by
  have hnone : ∀ n, ¬x.HasWhole n := by
    intro n hwhole
    have hsome : x.toInt? = some (if x.negative then -(n : Int) else n) := by
      refine toInt?_eq_some.mpr ⟨hfinite, ?_, ?_⟩ <;> split <;> simp_all
    rw [hfraction] at hsome
    cases hsome
  have hmantissa : 0 < x.mantissa := by
    refine Nat.pos_of_ne_zero fun hzero => hnone 0 ?_
    rw [HasWhole, numerator, hzero, Nat.zero_mul, Nat.zero_mul]
  refine ⟨fun hzero => hmantissa.ne' (mantissa_eq_zero.mpr hzero), ?_⟩
  by_contra hwhole
  obtain ⟨n, hn⟩ := (Decimal.exponent_shortest_nonneg_iff hmantissa).mp (not_lt.mp hwhole)
  exact hnone n hn

/-- A sign stands in front of what is written of the absolute value. -/
theorem mem_write {layout : Decimal.Layout} {c : Char} (hminus : c ≠ '-') :
    c ∈ (x.write layout).toList ↔ c ∈ (if x.magnitude = 0 then "0" ++ layout.wholeSuffix
      else (Decimal.shortest x).write layout).toList := by
  rw [write, String.toList_append, List.mem_append, or_iff_right]
  split <;> simp [hminus]

/-- JSON text shows of each double that it is one. -/
theorem mem_write_json (x : Double) :
    '.' ∈ (x.write Json.numberLayout).toList ∨ 'e' ∈ (x.write Json.numberLayout).toList := by
  rw [mem_write (by decide), mem_write (by decide)]
  split
  · exact .inl (by decide)
  · rw [Decimal.write_eq]
    split
    · exact .inl (Decimal.mem_inFull (by decide))
    · exact .inr Decimal.mem_withExponent

/-- Query text has no exponent, and no point in an integer. -/
theorem not_mem_write_query {c : Char} (hminus : c ≠ '-') (hdigit : c.isDigit = false)
    (hpoint : x.magnitude ≠ 0 → (Decimal.shortest x).exponent < 0 → c ≠ '.') :
    c ∉ (x.write Query.Value.numberLayout).toList := by
  rw [mem_write hminus]
  split
  · have hzero : c ≠ '0' := by
      rintro rfl
      cases hdigit
    simp [Query.Value.numberLayout, hzero]
  · rename_i hsize
    exact Decimal.not_mem_inFull hdigit (hpoint hsize)

theorem exists_digit_write_query (x : Double) :
    ∃ c ∈ (x.write Query.Value.numberLayout).toList, c.isDigit = true := by
  by_cases hsize : x.magnitude = 0
  · refine ⟨'0', (mem_write (by decide)).mpr ?_, by decide⟩
    rw [if_pos hsize]
    decide
  · obtain ⟨c, hc, hdigit⟩ :=
      (Decimal.shortest x).exists_digit_inFull Query.Value.numberLayout.wholeSuffix
    have hminus : c ≠ '-' := by
      rintro rfl
      cases hdigit
    refine ⟨c, (mem_write hminus).mpr ?_, hdigit⟩
    rwa [if_neg hsize]

theorem not_mem_write_query_of_whole {n : Int} (h : x.toInt? = some n) :
    '.' ∉ (x.write Query.Value.numberLayout).toList := by
  refine not_mem_write_query (by decide) (by decide) fun hsize hneg => ?_
  have hmantissa := Nat.pos_of_ne_zero (mt mantissa_eq_zero.mp hsize)
  have hwhole := Decimal.exponent_shortest_nonneg hmantissa (toInt?_eq_some.mp h).2.1
  omega

/-- **Of the doubles, JSON text and query text agree on the fractions without an exponent.** -/
theorem write_json_eq_write_query_iff (hfinite : x.isFinite = true) :
    x.write Json.numberLayout = x.write Query.Value.numberLayout ↔
      x.toInt? = none ∧ 'e' ∉ (x.write Json.numberLayout).toList := by
  have hexponent : 'e' ∉ (x.write Query.Value.numberLayout).toList :=
    not_mem_write_query (by decide) (by decide) fun _ _ => by decide
  constructor
  · intro heq
    refine ⟨?_, heq ▸ hexponent⟩
    by_contra hsome
    obtain ⟨n, hn⟩ := Option.ne_none_iff_exists'.mp hsome
    have hmark := heq ▸ mem_write_json x
    exact not_or.mpr ⟨not_mem_write_query_of_whole hn, hexponent⟩ hmark
  · rintro ⟨hfraction, hplain⟩
    obtain ⟨hsize, hneg⟩ := exponent_shortest_neg hfinite hfraction
    rw [mem_write (by decide), if_neg hsize, Decimal.write_eq] at hplain
    split at hplain
    · rename_i hfull
      rw [write, write, if_neg hsize, if_neg hsize, Decimal.write_eq, if_pos hfull,
        Decimal.inFull_fraction hneg]
      rfl
    · exact absurd Decimal.mem_withExponent hplain

/-- An integer of 53 bits is written in queries alike, be it an integer or a double. -/
theorem write_query_ofInt {n : Int} (hn : n.natAbs < 2 ^ 53) :
    (ofInt n).write Query.Value.numberLayout = toString n := by
  have hmagnitude : (ofInt n).magnitude = roundedMagnitude n.natAbs := by
    rw [ofInt_eq, magnitude_ofMagnitude (roundedMagnitude_le _)]
  have hnegative : (ofInt n).negative = decide (n < 0) := by
    rw [ofInt_eq, negative_ofMagnitude (roundedMagnitude_le _)]
  by_cases hzero : n = 0
  · subst hzero
    decide +kernel
  have hsize : (ofInt n).magnitude ≠ 0 := by
    rw [hmagnitude]
    exact fun h => hzero (Int.natAbs_eq_zero.mp ((roundedMagnitude_of_lt hn).2 h))
  have hmantissa := Nat.pos_of_ne_zero (mt mantissa_eq_zero.mp hsize)
  obtain ⟨hexponent, hvalue⟩ :=
    Decimal.shortest_of_whole hmantissa hn (hasWhole_of_magnitude hn hmagnitude)
  have hdigits : 0 < (Decimal.shortest (ofInt n)).digits := by
    refine Nat.pos_of_ne_zero fun h => hzero (Int.natAbs_eq_zero.mp ?_)
    rw [← hvalue, h, Nat.zero_mul]
  have hfull : (Decimal.shortest (ofInt n)).write Query.Value.numberLayout
      = String.ofList (Nat.toDigits 10 n.natAbs) := by
    have hpositional : Query.Value.numberLayout.positional (Decimal.shortest (ofInt n)).point := rfl
    rw [Decimal.write_eq, if_pos hpositional, Decimal.inFull_whole hdigits hexponent, hvalue]
    exact String.append_empty
  rw [write, if_neg hsize, hfull, hnegative]
  refine String.toList_inj.mp ?_
  rw [toList_toString, String.toList_append, String.toList_ofList]
  by_cases hsign : n < 0
  · rw [if_pos hsign, if_pos (by simpa using hsign)]
    rfl
  · rw [if_neg hsign, if_neg (by simpa using hsign)]
    rfl

end Double

end DocIndex
