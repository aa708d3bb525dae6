/-
Integers of 64 bits that values are taken for.

A number or text is exactly one integer or none.  Text is only taken for an integer that fits.  A
number that does not fit is moved to the nearest one that does, and an integer of the document is
rounded to a double on the way: the doubles above the largest integer of 64 bits are all integers
above it, so rounding does not bring any of them back.
-/
import DocIndex.Document.Strategy
import DocIndex.Proofs.Number.Whole
import DocIndex.Proofs.Text.Digits

namespace DocIndex

/-- The integer that a number or text is. -/
inductive Json.IsInteger : Json → Int → Prop where
  | int (n : Int) : IsInteger (.int n) n
  | double {x : Double} {n : Int} : x.isFinite = true →
      (if x.negative then -(x.numerator : Int) else x.numerator) = n * x.denominator →
      IsInteger (.double x) n
  | text {s : String} {n : Int} : SignedDigits (Text.trim s.toList) n → IsInteger (.text s) n

theorem Json.isInteger_double {x : Double} {n : Int} :
    (Json.double x).IsInteger n ↔ x.toInt? = some n := by
  rw [Double.toInt?_iff]
  constructor
  · rintro (_ | ⟨hfinite, hvalue⟩)
    exact ⟨hfinite, hvalue⟩
  · rintro ⟨hfinite, hvalue⟩
    exact .double hfinite hvalue

theorem clampInt64_of_fits {n : Int} (h : fitsInt64 n = true) : clampInt64 n = n := by
  rw [fitsInt64, Bool.and_eq_true, decide_eq_true_eq, decide_eq_true_eq] at h
  rw [clampInt64, Int.min_eq_right h.2, Int.max_eq_right h.1]

theorem clampInt64_of_le {n : Int} (h : int64Max ≤ n) : clampInt64 n = int64Max := by
  rw [clampInt64, Int.min_eq_left h]
  decide

/-- Beyond 64 bits with a sign the nearest double is an integer that does not fit either. -/
theorem toInt?_ofInt_of_beyond {n : Int} (hlow : int64Max < n) (hhigh : n ≤ uint64Max) :
    ∃ m, (Double.ofInt n).toInt? = some m ∧ int64Max ≤ m := by
  have hnegative : (Double.ofInt n).negative = false := by
    rw [Double.ofInt_eq, Double.negative_ofMagnitude (Double.roundedMagnitude_le _)]
    exact decide_eq_false (by unfold int64Max at hlow; omega)
  have hmagnitude : (Double.ofInt n).magnitude = Double.roundedMagnitude n.natAbs := by
    rw [Double.ofInt_eq, Double.magnitude_ofMagnitude (Double.roundedMagnitude_le _)]
  have hlower := Double.roundedMagnitude_mono (show 2 ^ 63 ≤ n.natAbs by
    unfold int64Max at hlow; omega)
  have hupper := Double.roundedMagnitude_mono (show n.natAbs ≤ 2 ^ 64 by
    unfold uint64Max at hhigh; unfold int64Max at hlow; omega)
  have hleast : Double.roundedMagnitude (2 ^ 63) = 1086 * Double.exponentUnit := by decide
  have hmost : Double.roundedMagnitude (2 ^ 64) = 1087 * Double.exponentUnit := by decide
  rw [← hmagnitude, hleast] at hlower
  rw [← hmagnitude, hmost] at hupper
  have hfinite : (Double.ofInt n).isFinite = true := by
    rw [Double.isFinite, decide_eq_true_eq, Double.infiniteMagnitude]
    unfold Double.exponentUnit at hupper ⊢
    omega
  have hfield : 1086 ≤ (Double.ofInt n).exponentField :=
    (Nat.le_div_iff_mul_le (by decide)).mpr hlower
  obtain ⟨hlarge, hwhole⟩ := Double.toInt?_of_le_exponentField hfinite
    (Nat.le_trans (by decide) hfield)
  rw [hnegative] at hwhole
  refine ⟨_, hwhole, ?_⟩
  have hpower : 2 ^ 63 ≤ 2 ^ ((Double.ofInt n).exponentField - 1023) :=
    Nat.pow_le_pow_right (by decide) (by omega)
  rw [if_neg Bool.false_ne_true]
  unfold int64Max
  omega

namespace Strategy

variable {value : Json} {n : Int}

/-- An integer that fits is taken as it is. -/
theorem integer?_of_fits (h : value.IsInteger n) (hfits : fitsInt64 n = true) :
    integer? value = some n := by
  cases h with
  | int n => rw [integer?, if_pos hfits]
  | double hfinite hvalue =>
      rw [integer?, Double.toInt?_iff.mpr ⟨hfinite, hvalue⟩, Option.map_some,
        clampInt64_of_fits hfits]
  | text hdigits => exact readInt64?_eq_some.mpr ⟨hdigits, hfits⟩

/-- Beyond them a number is taken for the nearest one, and a text for none. -/
theorem integer?_of_not_fits (hrange : ∀ n, value = .int n → int64Min ≤ n ∧ n ≤ uint64Max)
    (h : value.IsInteger n) (hfits : fitsInt64 n = false) :
    integer? value = if value.text?.isSome then none else some (clampInt64 n) := by
  cases h with
  | int n =>
      obtain ⟨hleast, hmost⟩ := hrange n rfl
      have hbeyond : int64Max < n := by
        rw [fitsInt64, Bool.and_eq_false_iff, decide_eq_false_iff_not,
          decide_eq_false_iff_not] at hfits
        omega
      obtain ⟨m, hm, hmore⟩ := toInt?_ofInt_of_beyond hbeyond hmost
      rw [integer?, hfits, if_neg Bool.false_ne_true, hm, Option.map_some, clampInt64_of_le hmore,
        clampInt64_of_le (Int.le_of_lt hbeyond)]
      rfl
  | double hfinite hvalue =>
      rw [integer?, Double.toInt?_iff.mpr ⟨hfinite, hvalue⟩]
      rfl
  | text hdigits =>
      refine Option.eq_none_iff_forall_ne_some.mpr fun m hm => ?_
      obtain ⟨hread, hm⟩ := readInt64?_eq_some.mp hm
      rw [hread.unique hdigits, hfits] at hm
      cases hm

/-- What is taken for an integer is one. -/
theorem exists_isInteger (h : integer? value = some n) : ∃ m, value.IsInteger m := by
  cases value with
  | int m => exact ⟨m, .int m⟩
  | double x =>
      obtain ⟨m, hm, -⟩ := Option.map_eq_some_iff.mp h
      exact ⟨m, Json.isInteger_double.mpr hm⟩
  | text s => exact ⟨n, .text (readInt64?_eq_some.mp h).1⟩
  | null | bool | array | object => cases h

/-- The outcome of a projection follows from the integer that is taken. -/
theorem project_int64_eq (value : Json) (place : Place) : int64.project value place =
    match integer? value with
    | some n => .ok ⟨place.path, .integer, "int64", [.long place.path n]⟩
    | none => .error (.cannotProject place.contentType value.type.name place.path "int64") := by
  unfold project fields?
  cases integer? value <;> rfl

/-- **Numbers beyond 64 bits are moved to the nearest integer, and texts are not.**  For a value
that JSON can hold: an integer that fits is projected to itself; an integer that does not is an
error if it is a text, and the nearest one that fits if it is a number; and whatever is no integer
is an error. -/
theorem project_int64 (value : Json)
    (hrange : ∀ n, value = .int n → int64Min ≤ n ∧ n ≤ uint64Max) (place : Place) :
    (∀ n, value.IsInteger n → fitsInt64 n = true → int64.project value place =
      .ok ⟨place.path, .integer, "int64", [.long place.path n]⟩) ∧
    (∀ n, value.IsInteger n → fitsInt64 n = false → int64.project value place =
      if value.text?.isSome then
        .error (.cannotProject place.contentType value.type.name place.path "int64")
      else .ok ⟨place.path, .integer, "int64", [.long place.path (clampInt64 n)]⟩) ∧
    ((∀ n, ¬value.IsInteger n) → int64.project value place =
      .error (.cannotProject place.contentType value.type.name place.path "int64")) := by
  rw [project_int64_eq]
  refine ⟨?_, ?_, ?_⟩
  · intro n hn hfits
    rw [integer?_of_fits hn hfits]
  · intro n hn hfits
    rw [integer?_of_not_fits hrange hn hfits]
    cases value.text?.isSome <;> rfl
  · intro hnone
    have htaken : integer? value = none :=
      Option.eq_none_iff_forall_ne_some.mpr fun n hn => (exists_isInteger hn).elim hnone
    rw [htaken]

/-- The text of the least integer that is too large is refused. -/
theorem project_int64_tooLargeText :
    int64.project (.text "9223372036854775808") ⟨"person", "p"⟩ = .error (.cannotProject "person"
      (Json.text "9223372036854775808").type.name "p" "int64") := by
  have hdigits : SignedDigits (Text.trim "9223372036854775808".toList) 9223372036854775808 :=
    .plain (by decide)
  exact (project_int64 (.text "9223372036854775808") nofun ⟨"person", "p"⟩).2.1 _ (.text hdigits)
    (by decide)

/-- The least integer that is too large becomes the largest one that is not. -/
theorem project_int64_tooLarge :
    int64.project (.int 9223372036854775808) ⟨"person", "p"⟩ =
        .ok ⟨"p", .integer, "int64", [.long "p" 9223372036854775807]⟩ ∧
      (Json.int 9223372036854775808).IsInteger 9223372036854775808 ∧
      fitsInt64 9223372036854775808 = false :=
  ⟨rfl, .int _, by decide⟩

end Strategy

end DocIndex
