/-
JSON texts and numbers read back.

An escaped character is read as the character that it stands for, so a quoted text comes back
one character after the other.  An integer comes back if it fits a word, because its digits
are then all kept and nothing behind them goes on with the number.
-/
import DocIndex.Json.Parser
import DocIndex.Json.Printer
import DocIndex.Proofs.Text.Digits

namespace DocIndex.Json

/-! ### Texts in quotes -/

theorem hexValue?_digit : ∀ n < 16, hexValue? (Hex.digit n) = some n := by decide

/-- A control character is read from its number. -/
theorem readEscape?_control {c : Char} (h : c.toNat < 0x20) (rest : List Char) :
    readEscape? ('u' :: '0' :: '0' :: Hex.digit (c.toNat / 16) :: Hex.digit (c.toNat % 16) :: rest)
      = some (c, rest) := by
  have hzero : hexValue? '0' = some 0 := rfl
  have hhigh := hexValue?_digit (c.toNat / 16) (by omega)
  have hlow := hexValue?_digit (c.toNat % 16) (by omega)
  have hvalue : (((0 * 16 + 0) * 16 + c.toNat / 16) * 16 + c.toNat % 16) = c.toNat := by omega
  have hunit : readUnit? ('0' :: '0' :: Hex.digit (c.toNat / 16) :: Hex.digit (c.toNat % 16)
      :: rest) = some (c.toNat, rest) := by
    simp only [readUnit?, hzero, hhigh, hlow, bind, Option.bind, hvalue]
    rfl
  have hlone : ¬(0xDC00 ≤ c.toNat ∧ c.toNat ≤ 0xDFFF) := by omega
  have hpair : ¬(0xD800 ≤ c.toNat ∧ c.toNat ≤ 0xDBFF) := by omega
  simp [readEscape?, readCodePoint?, hunit, hlone, hpair]

/-- A character stands for itself, or it is escaped and read from its escape. -/
theorem escapeChar_cases (c : Char) :
    (∃ escape, escapeChar c = '\\' :: escape ∧
      ∀ rest, readEscape? (escape ++ rest) = some (c, rest)) ∨
    (escapeChar c = [c] ∧ c ≠ '\x22' ∧ c ≠ '\\' ∧ 0x20 ≤ c.toNat) := by
  have hmark : ∀ mark escape, (∀ rest, readEscape? (escape ++ rest) = some (mark, rest)) →
      escapeChar mark = '\\' :: escape → c = mark → ∃ escape, escapeChar c = '\\' :: escape ∧
        ∀ rest, readEscape? (escape ++ rest) = some (c, rest) := by
    rintro mark escape hread hescape rfl
    exact ⟨escape, hescape, hread⟩
  by_cases hquote : c = '\x22'
  · exact .inl (hmark '\x22' ['\x22'] (fun _ => rfl) rfl hquote)
  by_cases hslash : c = '\\'
  · exact .inl (hmark '\\' ['\\'] (fun _ => rfl) rfl hslash)
  by_cases hback : c = '\x08'
  · exact .inl (hmark '\x08' ['b'] (fun _ => rfl) rfl hback)
  by_cases hfeed : c = '\x0c'
  · exact .inl (hmark '\x0c' ['f'] (fun _ => rfl) rfl hfeed)
  by_cases hline : c = '\n'
  · exact .inl (hmark '\n' ['n'] (fun _ => rfl) rfl hline)
  by_cases hreturn : c = '\r'
  · exact .inl (hmark '\r' ['r'] (fun _ => rfl) rfl hreturn)
  by_cases htab : c = '\t'
  · exact .inl (hmark '\t' ['t'] (fun _ => rfl) rfl htab)
  by_cases hcontrol : c.toNat < 0x20
  · refine .inl ⟨['u', '0', '0', Hex.digit (c.toNat / 16), Hex.digit (c.toNat % 16)], ?_,
      readEscape?_control hcontrol⟩
    simp [escapeChar, hquote, hslash, hback, hfeed, hline, hreturn, htab, hcontrol]
  · refine .inr ⟨?_, hquote, hslash, Nat.le_of_not_lt hcontrol⟩
    simp [escapeChar, hquote, hslash, hback, hfeed, hline, hreturn, htab, hcontrol]

/-- A character comes back from the way it stands inside quotes. -/
theorem readQuoted?_escapeChar (fuel : Nat) (found : List Char) (c : Char) (rest : List Char) :
    readQuoted? (fuel + 1) found (escapeChar c ++ rest) = readQuoted? fuel (c :: found) rest := by
  rcases escapeChar_cases c with ⟨escape, hescape, hread⟩ | ⟨hplain, hquote, hslash, hprinted⟩
  · rw [hescape, List.cons_append]
    simp [readQuoted?, hread]
  · have hsmall : ¬c.toNat < 0x20 := Nat.not_lt.mpr hprinted
    rw [hplain]
    simp [readQuoted?, hquote, hslash, hsmall]

/-- A text comes back from its quotes. -/
theorem readQuoted?_quoted (rest : List Char) : ∀ {chars : List Char} {fuel : Nat}
    {found : List Char}, chars.length < fuel →
      readQuoted? fuel found (chars.flatMap escapeChar ++ '\x22' :: rest)
        = some (String.ofList (found.reverse ++ chars), rest)
  | [], 0, _, h => absurd h (Nat.not_lt_zero _)
  | [], fuel + 1, found, _ => by simp [readQuoted?]
  | c :: chars, 0, _, h => absurd h (Nat.not_lt_zero _)
  | c :: chars, fuel + 1, found, h => by
      have hlength : chars.length < fuel := by
        rw [List.length_cons] at h
        omega
      rw [List.flatMap_cons, List.append_assoc, readQuoted?_escapeChar,
        readQuoted?_quoted rest hlength, List.reverse_cons, List.append_assoc]
      rfl

/-- No character takes less than a place inside quotes. -/
theorem length_le_quoted (chars : List Char) :
    chars.length ≤ (chars.flatMap escapeChar).length := by
  induction chars with
  | nil => exact Nat.le_refl _
  | cons c rest ih =>
      have hone : 1 ≤ (escapeChar c).length := by
        rcases escapeChar_cases c with ⟨escape, hescape, -⟩ | ⟨hplain, -⟩
        · rw [hescape, List.length_cons]
          omega
        · rw [hplain]
          exact Nat.le_refl _
      rw [List.flatMap_cons, List.length_append, List.length_cons]
      omega

/-! ### Integers -/

/-- Text behind a number that does not go on with it. -/
def Ends (rest : List Char) : Prop :=
  ∀ c ∈ rest.head?, c.isDigit = false ∧ c ≠ '.' ∧ c ≠ 'e' ∧ c ≠ 'E'

theorem takeWhile_digits {digits rest : List Char} (h : ∀ c ∈ digits, c.isDigit = true)
    (hends : Ends rest) : (digits ++ rest).takeWhile Char.isDigit = digits ∧
      (digits ++ rest).dropWhile Char.isDigit = rest := by
  have hrest : rest.takeWhile Char.isDigit = [] ∧ rest.dropWhile Char.isDigit = rest := by
    cases rest with
    | nil => exact ⟨rfl, rfl⟩
    | cons c rest =>
        have hc : c.isDigit = false := (hends c rfl).1
        simp [hc]
  rw [List.takeWhile_append_of_pos h, List.dropWhile_append_of_pos h, hrest.1, hrest.2,
    List.append_nil]
  exact ⟨rfl, rfl⟩

/-- Digits of a number that fits a word are all kept. -/
theorem keepDigits_eq : ∀ {digits : List Char} {significand : Nat},
    digits.foldl (fun n c => 10 * n + digitValue c) significand ≤ uint64Max →
      keepDigits significand digits
        = (digits.foldl (fun n c => 10 * n + digitValue c) significand, 0)
  | [], _, _ => rfl
  | c :: digits, significand, h => by
      have hgrows : ∀ (digits : List Char) (n : Nat),
          n ≤ digits.foldl (fun n c => 10 * n + digitValue c) n := by
        intro digits
        induction digits with
        | nil => exact fun n => Nat.le_refl n
        | cons c rest ih =>
            intro n
            have hrest := ih (10 * n + digitValue c)
            rw [List.foldl_cons]
            omega
      have hfits : 10 * significand + digitValue c ≤ uint64Max := Nat.le_trans (hgrows digits _) h
      simp only [keepDigits, if_pos hfits, List.foldl_cons]
      exact keepDigits_eq h

/-- A number does not begin with a zero, unless it is zero. -/
theorem head?_toDigits {n : Nat} (h : 0 < n) : (Nat.toDigits 10 n).head? ≠ some '0' := by
  induction n using Nat.strongRecOn with
  | ind n ih =>
      have hsmall : ∀ k < 10, 0 < k → k.digitChar ≠ '0' := by decide
      rw [Nat.toDigits_eq_if (by decide)]
      split
      · rename_i hlt
        intro hhead
        exact hsmall n hlt h (Option.some.inj hhead)
      · rename_i hge
        have hfirst := ih (n / 10) (Nat.div_lt_self h (by decide)) (by omega)
        obtain ⟨d, digits, hcons⟩ :=
          List.exists_cons_of_ne_nil (Nat.toDigits_ne_nil (n := n / 10) (b := 10))
        rw [hcons] at hfirst ⊢
        exact hfirst

theorem readPower?_ends {rest : List Char} (hends : Ends rest) :
    readPower? rest = some (none, rest) := by
  cases rest with
  | nil => rfl
  | cons c rest =>
      obtain ⟨-, -, he, hE⟩ := hends c rfl
      simp [readPower?, he, hE]

/-- **An integer that fits a word comes back.** -/
theorem readNumber?_toDigits {n : Nat} {rest : List Char} (h : n ≤ uint64Max) (hends : Ends rest) :
    readNumber? (Nat.toDigits 10 n ++ rest) = some (.int n, rest) := by
  have hdigits : ∀ c ∈ Nat.toDigits 10 n, c.isDigit = true := fun c hc =>
    Nat.isDigit_of_mem_toDigits (by decide) (by decide) hc
  obtain ⟨hwhole, hbehind⟩ := takeWhile_digits hdigits hends
  have hkeep : keepDigits 0 (Nat.toDigits 10 n) = (n, 0) := by
    have hvalue := numeralValue_toDigits n
    unfold numeralValue at hvalue
    rw [keepDigits_eq (by rw [hvalue]; exact h), hvalue]
  have hsome : (Nat.toDigits 10 n).isEmpty = false := by simp
  have hzeros : (decide (1 < (Nat.toDigits 10 n).length) &&
      (Nat.toDigits 10 n).head? == some '0') = false := by
    rcases Nat.eq_zero_or_pos n with rfl | hpos
    · rfl
    · simp [head?_toDigits hpos]
  have hsign : ∀ more, Nat.toDigits 10 n ++ rest ≠ '-' :: more := by
    intro more heq
    obtain ⟨d, digits, hcons⟩ := List.exists_cons_of_ne_nil (Nat.toDigits_ne_nil (n := n) (b := 10))
    have hd := hdigits d (by rw [hcons]; exact List.mem_cons_self)
    rw [hcons, List.cons_append] at heq
    rw [(List.cons.inj heq).1] at hd
    exact absurd hd (by decide)
  unfold readNumber?
  split
  rename_i negative text heq
  split at heq
  · rename_i more hminus
    exact absurd hminus (hsign more)
  · obtain ⟨rfl, rfl⟩ := Prod.mk.inj heq
    simp only [hwhole, hbehind, hsome, hzeros, hkeep, Bool.false_eq_true, if_false]
    split
    · rename_i more
      exact absurd rfl (hends '.' rfl).2.1
    · rw [readPower?_ends hends]
      simp

end DocIndex.Json
