/-
Digits read off the front of a text.

A number comes back from its digits, however many zeros stand in front of it.  What follows
must not go on with a digit, and then it does not matter how many digits a reader would take.
An integer may have a plus or a minus in front of its digits, and without a sign in it the text
of an integer is a numeral.
-/
import Mathlib.Algebra.Group.Nat.Defs
import Mathlib.Data.List.Induction
import DocIndex.Text.CharSet
import DocIndex.Text.Reader

namespace DocIndex

theorem numeralValue_toDigits (n : Nat) : numeralValue (Nat.toDigits 10 n) = n :=
  Nat.ofDigitChars_eq_foldl.symm.trans Nat.ofDigitChars_ten_toDigits

theorem numeralValue_zeros (count : Nat) (digits : List Char) :
    numeralValue (List.replicate count '0' ++ digits) = numeralValue digits := by
  induction count with
  | zero => rfl
  | succ count ih =>
      rw [List.replicate_succ, List.cons_append]
      exact ih

theorem numeralValue_concat (digits : List Char) (c : Char) :
    numeralValue (digits ++ [c]) = 10 * numeralValue digits + digitValue c := by
  simp [numeralValue, List.foldl_append]

theorem numeralValue_append_zeros (digits : List Char) (count : Nat) :
    numeralValue (digits ++ List.replicate count '0') = numeralValue digits * 10 ^ count := by
  induction count with
  | zero => simp
  | succ count ih =>
      have hzero : digitValue '0' = 0 := rfl
      rw [List.replicate_succ', ← List.append_assoc, numeralValue_concat, ih, hzero, Nat.add_zero,
        Nat.pow_succ', Nat.mul_left_comm]

/-- An integer is printed with a sign if it is negative. -/
theorem toList_toString (n : Int) : (toString n).toList =
    if n < 0 then '-' :: Nat.toDigits 10 n.natAbs else Nat.toDigits 10 n.natAbs := by
  cases n with
  | ofNat n =>
      have hpos : ¬Int.ofNat n < 0 := Int.not_lt.mpr (Int.natCast_nonneg n)
      rw [if_neg hpos]
      exact Nat.toList_repr
  | negSucc n =>
      rw [if_pos (Int.negSucc_lt_zero n)]
      show ("-" ++ (n + 1).repr).toList = _
      rw [String.toList_append, Nat.toList_repr]
      rfl

theorem digitValue_lt {c : Char} (h : c.isDigit = true) : digitValue c < 10 := by
  have hcode : 48 ≤ c.toNat ∧ c.toNat ≤ 57 := by
    simpa [Char.isDigit, UInt32.le_iff_toNat_le] using h
  have hzero : '0'.toNat = 48 := rfl
  unfold digitValue
  omega

/-- So many digits write no greater number than as many nines. -/
theorem numeralValue_lt {digits : List Char} (h : ∀ c ∈ digits, c.isDigit = true) :
    numeralValue digits < 10 ^ digits.length := by
  have hbehind : ∀ start : Nat, digits.foldl (fun n c => 10 * n + digitValue c) start
      < (start + 1) * 10 ^ digits.length := by
    induction digits with
    | nil => simp
    | cons c more ih =>
        intro start
        obtain ⟨hc, hmore⟩ := List.forall_mem_cons.mp h
        have hdigit := digitValue_lt hc
        refine Nat.lt_of_lt_of_le (ih hmore (10 * start + digitValue c)) ?_
        rw [List.length_cons, Nat.pow_succ', ← Nat.mul_assoc]
        exact Nat.mul_le_mul_right _ (by omega)
  simpa [numeralValue] using hbehind 0

theorem digitChar_digitValue {c : Char} (h : c.isDigit = true) : (digitValue c).digitChar = c := by
  have hcode : 48 ≤ c.toNat ∧ c.toNat ≤ 57 := by
    simpa [Char.isDigit, UInt32.le_iff_toNat_le] using h
  have hvalue : digitValue c = c.toNat - 48 := rfl
  refine Char.toNat_inj.mp ?_
  rw [Nat.toNat_digitChar_of_lt_ten (digitValue_lt h), hvalue]
  omega

/-- Digits write a number as it is printed, behind some zeros. -/
theorem exists_zeros_toDigits {digits : List Char} (hne : digits ≠ [])
    (h : ∀ c ∈ digits, c.isDigit = true) : ∃ count,
      digits = List.replicate count '0' ++ Nat.toDigits 10 (numeralValue digits) := by
  induction digits using List.reverseRecOn with
  | nil => exact absurd rfl hne
  | append_singleton front c ih =>
      have hc : c.isDigit = true := h c (by simp)
      have hvalue := numeralValue_concat front c
      have hlast : Nat.toDigits 10 (digitValue c) = [c] := by
        rw [Nat.toDigits_of_lt_base (digitValue_lt hc), digitChar_digitValue hc]
      by_cases hfront : front = []
      · refine ⟨0, ?_⟩
        have hnone : numeralValue [] = 0 := rfl
        rw [hvalue, hfront, hnone, Nat.mul_zero, Nat.zero_add, hlast]
        rfl
      obtain ⟨count, hzeros⟩ := ih hfront fun d hd => h d (List.mem_append_left _ hd)
      by_cases hzero : numeralValue front = 0
      · refine ⟨count + 1, ?_⟩
        rw [hzero] at hvalue hzeros
        rw [hvalue, Nat.mul_zero, Nat.zero_add, hlast, List.replicate_succ']
        exact congrArg (· ++ [c]) hzeros
      · refine ⟨count, ?_⟩
        have hmore := Nat.toDigits_append_toDigits (b := 10) (n := numeralValue front)
          (d := digitValue c) (by decide) (Nat.pos_of_ne_zero hzero) (digitValue_lt hc)
        rw [hvalue, ← hmore, hlast, ← List.append_assoc, ← hzeros]

theorem isDigit_of_mem_numeral {count n : Nat} {c : Char}
    (h : c ∈ List.replicate count '0' ++ Nat.toDigits 10 n) : c.isDigit = true := by
  rcases List.mem_append.mp h with hzero | hdigit
  · rw [List.eq_of_mem_replicate hzero]
    decide
  · exact Nat.isDigit_of_mem_toDigits (by decide) (by decide) hdigit

/-- Numerals are the digits of a number behind any zeros. -/
theorem readNumeral?_eq_some {text : List Char} {n : Nat} :
    readNumeral? text = some n ↔
      ∃ count, text = List.replicate count '0' ++ Nat.toDigits 10 n := by
  rw [readNumeral?]
  constructor
  · intro h
    obtain ⟨hnumeral, hvalue⟩ := Option.ite_none_right_eq_some.mp h
    obtain rfl := Option.some.inj hvalue
    obtain ⟨hne, hdigits⟩ := Bool.and_eq_true_iff.mp hnumeral
    exact exists_zeros_toDigits (by simpa using hne) (List.all_eq_true.mp hdigits)
  · rintro ⟨count, rfl⟩
    have hdigits : (List.replicate count '0' ++ Nat.toDigits 10 n).all Char.isDigit = true :=
      List.all_eq_true.mpr fun c hc => isDigit_of_mem_numeral hc
    simp [hdigits, Nat.toDigits_ne_nil, numeralValue_zeros, numeralValue_toDigits]

/-- A number is read from a numeral with or without a plus sign. -/
theorem readUInt64?_eq_some {text : List Char} {n : Nat} :
    readUInt64? text = some n ↔ n ≤ uint64Max ∧ ∃ sign ∈ [[], ['+']], ∃ count,
      text = sign ++ (List.replicate count '0' ++ Nat.toDigits 10 n) := by
  have hunsigned : ∀ count rest,
      List.replicate count '0' ++ Nat.toDigits 10 n ≠ '+' :: rest := fun count rest heq =>
    absurd (isDigit_of_mem_numeral (heq ▸ List.mem_cons_self)) (by decide)
  unfold readUInt64?
  rw [Option.filter_eq_some_iff, decide_eq_true_iff, and_comm]
  refine and_congr_right fun _ => ?_
  simp only [List.mem_cons, List.not_mem_nil, or_false, exists_eq_or_imp, exists_eq_left,
    List.nil_append, List.singleton_append]
  split
  · rename_i rest
    rw [readNumeral?_eq_some]
    constructor
    · rintro ⟨count, rfl⟩
      exact .inr ⟨count, rfl⟩
    · rintro (⟨count, heq⟩ | ⟨count, heq⟩)
      · exact absurd heq.symm (hunsigned count rest)
      · exact ⟨count, (List.cons.inj heq).2⟩
  · rename_i hother
    rw [readNumeral?_eq_some]
    constructor
    · exact .inl
    · rintro (hplain | ⟨count, heq⟩)
      · exact hplain
      · exact absurd heq (hother _)

/-- A number that fits a word comes back from its digits. -/
theorem readUInt64?_toString {n : Nat} (h : n ≤ uint64Max) :
    readUInt64? (toString n).toList = some n :=
  readUInt64?_eq_some.mpr ⟨h, [], List.mem_cons_self, 0, Nat.toList_repr⟩

/-! ### Integers with a sign -/

/-- One or more digits. -/
def IsDigits (text : List Char) : Prop := text ≠ [] ∧ ∀ c ∈ text, c.isDigit = true

instance (text : List Char) : Decidable (IsDigits text) :=
  decidable_of_iff (text.isEmpty = false ∧ text.all Char.isDigit = true) (by simp [IsDigits])

/-- Digits with an optional sign, and the number that they write. -/
inductive SignedDigits : List Char → Int → Prop where
  | plain {digits : List Char} : IsDigits digits → SignedDigits digits (numeralValue digits)
  | plus {digits : List Char} : IsDigits digits →
      SignedDigits ('+' :: digits) (numeralValue digits)
  | minus {digits : List Char} : IsDigits digits →
      SignedDigits ('-' :: digits) (-(numeralValue digits : Int))

theorem readNumeral?_iff_isDigits {text : List Char} {n : Nat} :
    readNumeral? text = some n ↔ IsDigits text ∧ numeralValue text = n := by
  simp [readNumeral?, IsDigits, and_assoc]

theorem not_isDigits_cons {c : Char} (hc : c.isDigit = false) (rest : List Char) :
    ¬IsDigits (c :: rest) := by
  intro h
  have hdigit := h.2 c List.mem_cons_self
  rw [hc] at hdigit
  cases hdigit

/-- **A signed integer is read from signed digits of a number that fits.** -/
theorem readInt64?_eq_some {text : List Char} {n : Int} :
    readInt64? text = some n ↔ SignedDigits text n ∧ fitsInt64 n = true := by
  unfold readInt64?
  rw [Option.filter_eq_some_iff]
  refine and_congr_left fun _ => ?_
  split <;> simp only [Option.map_eq_some_iff, Option.bind_eq_bind, Option.bind_eq_some_iff,
    Option.pure_def, Option.some.injEq, readNumeral?_iff_isDigits]
  case h_1 =>
    constructor
    · rintro ⟨_, ⟨_, ⟨hdigits, rfl⟩, rfl⟩, rfl⟩
      exact .minus hdigits
    · rintro (hdigits | _ | hdigits)
      · exact absurd hdigits (not_isDigits_cons (by decide) _)
      · exact ⟨_, ⟨_, ⟨hdigits, rfl⟩, rfl⟩, rfl⟩
  case h_2 =>
    constructor
    · rintro ⟨_, ⟨_, ⟨hdigits, rfl⟩, rfl⟩, rfl⟩
      exact .plus hdigits
    · rintro (hdigits | hdigits | _)
      · exact absurd hdigits (not_isDigits_cons (by decide) _)
      · exact ⟨_, ⟨_, ⟨hdigits, rfl⟩, rfl⟩, rfl⟩
  case h_3 hminus hplus =>
    constructor
    · rintro ⟨_, ⟨_, ⟨hdigits, rfl⟩, rfl⟩, rfl⟩
      exact .plain hdigits
    · rintro (hdigits | _ | _)
      · exact ⟨_, ⟨_, ⟨hdigits, rfl⟩, rfl⟩, rfl⟩
      · exact absurd rfl (hplus _)
      · exact absurd rfl (hminus _)

namespace SignedDigits

variable {text : List Char} {n : Int}

/-- The characters of signed digits. -/
theorem cases_of_mem (h : SignedDigits text n) {c : Char} (hc : c ∈ text) :
    c.isDigit = true ∨ c = '+' ∨ c = '-' := by
  cases h with
  | plain hdigits => exact .inl (hdigits.2 c hc)
  | plus hdigits =>
      rcases List.mem_cons.mp hc with rfl | hc
      · exact .inr (.inl rfl)
      · exact .inl (hdigits.2 c hc)
  | minus hdigits =>
      rcases List.mem_cons.mp hc with rfl | hc
      · exact .inr (.inr rfl)
      · exact .inl (hdigits.2 c hc)

theorem not_mem (h : SignedDigits text n) {c : Char} (hdigit : c.isDigit = false)
    (hplus : c ≠ '+') (hminus : c ≠ '-') : c ∉ text := by
  intro hc
  rcases h.cases_of_mem hc with hc | hc | hc
  · rw [hdigit] at hc
    cases hc
  · exact hplus hc
  · exact hminus hc

/-- Without a sign there are digits only. -/
theorem isDigits (h : SignedDigits text n) (hplus : '+' ∉ text) (hminus : '-' ∉ text) :
    IsDigits text ∧ n = numeralValue text := by
  cases h with
  | plain hdigits => exact ⟨hdigits, rfl⟩
  | plus _ => exact absurd List.mem_cons_self hplus
  | minus _ => exact absurd List.mem_cons_self hminus

/-- Signed digits write one number only. -/
theorem unique {m : Int} (hm : SignedDigits text m) (hn : SignedDigits text n) : m = n := by
  cases hm with
  | plain hdigits =>
      cases hn with
      | plain _ => rfl
      | plus _ => exact absurd hdigits (not_isDigits_cons (by decide) _)
      | minus _ => exact absurd hdigits (not_isDigits_cons (by decide) _)
  | plus _ =>
      cases hn with
      | plain hdigits => exact absurd hdigits (not_isDigits_cons (by decide) _)
      | plus _ => rfl
  | minus _ =>
      cases hn with
      | plain hdigits => exact absurd hdigits (not_isDigits_cons (by decide) _)
      | minus _ => rfl

/-- The characters are single bytes. -/
theorem utf8Size_of_mem (h : SignedDigits text n) {c : Char} (hc : c ∈ text) :
    c.utf8Size = 1 := by
  rcases h.cases_of_mem hc with hdigit | rfl | rfl
  · have hcode : 48 ≤ c.toNat ∧ c.toNat ≤ 57 := by
      simpa [Char.isDigit, UInt32.le_iff_toNat_le] using hdigit
    refine Char.utf8Size_eq_one_iff.mpr (UInt32.le_iff_toNat_le.mpr ?_)
    exact Nat.le_trans hcode.2 (by decide)
  · decide
  · decide

/-- A number has no more digits than its text has characters. -/
theorem natAbs_lt (h : SignedDigits text n) : n.natAbs < 10 ^ text.length := by
  have hlonger : ∀ digits : List Char, 10 ^ digits.length ≤ 10 ^ (digits.length + 1) :=
    fun digits => Nat.pow_le_pow_right (by decide) (Nat.le_succ _)
  cases h with
  | plain hdigits => exact numeralValue_lt hdigits.2
  | plus hdigits => exact Nat.lt_of_lt_of_le (numeralValue_lt hdigits.2) (hlonger _)
  | minus hdigits =>
      rw [Int.natAbs_neg]
      exact Nat.lt_of_lt_of_le (numeralValue_lt hdigits.2) (hlonger _)

end SignedDigits

/-- Characters of one byte each are as many as the bytes. -/
theorem utf8ByteSize_of_single {text : List Char} (h : ∀ c ∈ text, c.utf8Size = 1) :
    (String.ofList text).utf8ByteSize = text.length := by
  induction text with
  | nil => rfl
  | cons c rest ih =>
      obtain ⟨hc, hrest⟩ := List.forall_mem_cons.mp h
      have hone : (String.ofList [c]).utf8ByteSize = 1 := by
        rw [← String.singleton_eq_ofList, String.utf8ByteSize_singleton, hc]
      rw [← List.singleton_append, String.ofList_append, String.utf8ByteSize_append, ih hrest, hone,
        List.length_append]
      rfl

namespace Text

/-- Text that does not go on with a digit. -/
def NoDigit (text : List Char) : Prop := ∀ c ∈ text.head?, c.isDigit = false

theorem noDigit_cons {c : Char} (h : c.isDigit = false) (rest : List Char) :
    NoDigit (c :: rest) := by
  intro d hd
  rw [List.head?_cons, Option.mem_some_iff] at hd
  rw [← hd]
  exact h

theorem takeWhile_isDigit {digits rest : List Char} (hdigits : ∀ c ∈ digits, c.isDigit = true)
    (hrest : NoDigit rest) : (digits ++ rest).takeWhile Char.isDigit = digits := by
  rw [List.takeWhile_append_of_pos hdigits]
  cases rest with
  | nil => simp
  | cons c rest =>
      have hc : c.isDigit = false := hrest c rfl
      simp [hc]

theorem dropWhile_isDigit {digits rest : List Char} (hdigits : ∀ c ∈ digits, c.isDigit = true)
    (hrest : NoDigit rest) : (digits ++ rest).dropWhile Char.isDigit = rest := by
  rw [List.dropWhile_append_of_pos hdigits]
  cases rest with
  | nil => rfl
  | cons c rest =>
      have hc : c.isDigit = false := hrest c rfl
      simp [hc]

/-- What is read has no more digits than it may have. -/
theorem lt_of_readDigits? {least most n : Nat} {text rest : List Char}
    (h : readDigits? least most text = some (n, rest)) : n < 10 ^ most := by
  have hlength : ((text.take most).takeWhile Char.isDigit).length ≤ most :=
    Nat.le_trans (List.takeWhile_sublist _).length_le
      (Nat.le_trans (Nat.le_of_eq List.length_take) (Nat.min_le_left _ _))
  have hall : ((text.take most).takeWhile Char.isDigit).all Char.isDigit = true :=
    List.all_takeWhile
  have hvalue := numeralValue_lt (List.all_eq_true.mp hall)
  unfold readDigits? at h
  simp only at h
  split at h
  · cases h
  · cases h
    exact Nat.lt_of_lt_of_le hvalue (Nat.pow_le_pow_right (by decide) hlength)

/-- Digits are read up to what follows them. -/
theorem readDigits?_append {least most : Nat} {digits rest : List Char}
    (hdigits : ∀ c ∈ digits, c.isDigit = true) (hleast : least ≤ digits.length)
    (hmost : digits.length ≤ most) (hrest : NoDigit rest) :
    readDigits? least most (digits ++ rest) = some (numeralValue digits, rest) := by
  have hfront : NoDigit (rest.take (most - digits.length)) := by
    intro c hc
    cases rest with
    | nil => simp at hc
    | cons d rest =>
        cases hcount : most - digits.length with
        | zero =>
            rw [hcount] at hc
            simp at hc
        | succ n =>
            rw [hcount] at hc
            exact hrest c hc
  have htake : ((digits ++ rest).take most).takeWhile Char.isDigit = digits := by
    rw [List.take_append, List.take_of_length_le hmost]
    exact takeWhile_isDigit hdigits hfront
  unfold readDigits?
  simp only [htake]
  rw [if_neg (Nat.not_lt.mpr hleast), List.drop_left]

/-- A digit is no blank. -/
theorem isBlank_of_isDigit {c : Char} (h : c.isDigit = true) : isBlank c = false := by
  have hcode : 48 ≤ c.toNat ∧ c.toNat ≤ 57 := by
    simpa [Char.isDigit, UInt32.le_iff_toNat_le] using h
  unfold isBlank inIntervals blankIntervals
  simp only [List.any_cons, List.any_nil, Bool.or_false, Bool.or_eq_false_iff,
    Bool.and_eq_false_iff, decide_eq_false_iff_not]
  omega

theorem trimLeft_cons {c : Char} (h : isBlank c = false) (rest : List Char) :
    trimLeft (c :: rest) = c :: rest := by
  unfold trimLeft
  rw [List.dropWhile_cons_of_neg]
  simp [h]

theorem trimLeft_digits {digits : List Char} (hdigits : ∀ c ∈ digits, c.isDigit = true)
    (hsome : digits ≠ []) (rest : List Char) : trimLeft (digits ++ rest) = digits ++ rest := by
  cases digits with
  | nil => exact absurd rfl hsome
  | cons c digits =>
      exact trimLeft_cons (isBlank_of_isDigit (hdigits c List.mem_cons_self)) (digits ++ rest)

end Text

end DocIndex
