/-
Words that change in lower case.

A text is kept by being put into lower case if and only if each of its characters is: the one
letter whose form depends on its place has two lower case forms, and neither is the capital.  What
changes is upper case, but for the title case letters, and of what numbers are written with only
some Roman numerals change.  Both follow from the table of lower case forms, where every run, or
all of it behind its first code point, lies in a run of upper case or title case letters.
-/
import Mathlib.Tactic.Common
import DocIndex.Analysis.Analyzer

namespace DocIndex

namespace Text

/-! ### Runs of code points -/

namespace CharRun

/-- Whether a run lies in another one. -/
def within (run outer : CharRun) : Bool :=
  outer.first.ble run.first && run.last.ble outer.last && outer.holds run.first &&
    (run.first == run.last || run.step % outer.step == 0)

/-- The run without its first code point. -/
def tail (run : CharRun) : CharRun := ⟨run.first + run.step, run.last, run.step⟩

/-- Whether each of the first code points lies in some run of a set, and what is left in one. -/
def covered (set : List CharRun) : Nat → CharRun → Bool
  | 0, run => set.any run.within
  | fuel + 1, run =>
    set.any run.within || set.any (fun outer => outer.holds run.first) && covered set fuel run.tail

/-- The code points of a run. -/
def codes (run : CharRun) : List Nat :=
  ((List.range (run.last + 1 - run.first)).map (run.first + ·)).filter run.holds

variable {run outer : CharRun} {code : Nat}

theorem holds_iff : run.holds code = true ↔
    run.first ≤ code ∧ code ≤ run.last ∧ run.step ∣ code - run.first := by
  simp [holds, and_assoc, Nat.dvd_iff_mod_eq_zero]

theorem holds_of_within (hwithin : run.within outer = true) (h : run.holds code = true) :
    outer.holds code = true := by
  obtain ⟨hfirst, hlast, hstep⟩ := holds_iff.mp h
  simp only [within, Bool.and_eq_true, Bool.or_eq_true, beq_iff_eq, Nat.ble_eq] at hwithin
  obtain ⟨⟨⟨hlow, hhigh⟩, hbegin⟩, hsteps⟩ := hwithin
  obtain ⟨-, -, hbase⟩ := holds_iff.mp hbegin
  refine holds_iff.mpr ⟨by omega, by omega, ?_⟩
  have hsplit : code - outer.first = code - run.first + (run.first - outer.first) := by omega
  rw [hsplit]
  refine Nat.dvd_add ?_ hbase
  rcases hsteps with hsingle | hsteps
  · rw [show code - run.first = 0 by omega]
    exact Nat.dvd_zero _
  · exact Nat.dvd_trans (Nat.dvd_of_mod_eq_zero hsteps) hstep

/-- What is not the first code point of a run is one of the others. -/
theorem holds_tail (h : run.holds code = true) (hne : code ≠ run.first) :
    run.tail.holds code = true := by
  obtain ⟨hfirst, hlast, steps, hsteps⟩ := holds_iff.mp h
  obtain ⟨steps, rfl⟩ : ∃ more, steps = more + 1 :=
    Nat.exists_eq_add_one.mpr (Nat.pos_of_ne_zero fun hzero => hne (by simp [hzero] at hsteps; omega))
  rw [Nat.mul_add, Nat.mul_one] at hsteps
  refine holds_iff.mpr ⟨?_, hlast, steps, ?_⟩ <;> simp only [tail] <;> omega

theorem exists_of_covered {set : List CharRun} : ∀ {fuel : Nat} {run : CharRun},
    covered set fuel run = true → run.holds code = true → ∃ outer ∈ set, outer.holds code = true
  | 0, run, hcovered, h => by
      obtain ⟨outer, houter, hwithin⟩ := List.any_eq_true.mp hcovered
      exact ⟨outer, houter, holds_of_within hwithin h⟩
  | fuel + 1, run, hcovered, h => by
      rw [covered, Bool.or_eq_true, Bool.and_eq_true] at hcovered
      rcases hcovered with hcovered | ⟨hfirst, hrest⟩
      · obtain ⟨outer, houter, hwithin⟩ := List.any_eq_true.mp hcovered
        exact ⟨outer, houter, holds_of_within hwithin h⟩
      · by_cases hcode : code = run.first
        · exact hcode ▸ List.any_eq_true.mp hfirst
        · exact exists_of_covered hrest (holds_tail h hcode)

theorem mem_codes (h : run.holds code = true) : code ∈ run.codes := by
  obtain ⟨hfirst, hlast, -⟩ := holds_iff.mp h
  refine List.mem_filter.mpr ⟨List.mem_map.mpr ⟨code - run.first, ?_, by omega⟩, h⟩
  exact List.mem_range.mpr (by omega)

end CharRun

theorem inRuns_iff {set : List CharRun} {c : Char} :
    inRuns set c = true ↔ ∃ run ∈ set, run.holds c.toNat = true :=
  List.any_eq_true

/-! ### Characters that change -/

/-- Two letters in one of which only the first is a capital, and Greek capitals with an iota. -/
def titlecaseRuns : List CharRun :=
  [⟨0x1C5, 0x1CB, 3⟩, ⟨0x1F2, 0x1F2, 1⟩, ⟨0x1F88, 0x1F8F, 1⟩, ⟨0x1F98, 0x1F9F, 1⟩,
   ⟨0x1FA8, 0x1FAF, 1⟩, ⟨0x1FBC, 0x1FBC, 1⟩, ⟨0x1FCC, 0x1FCC, 1⟩, ⟨0x1FFC, 0x1FFC, 1⟩]

/-- Whether a character is a title case letter. -/
def isTitlecase (c : Char) : Bool := inRuns titlecaseRuns c

/-- Roman numerals that are capitals. -/
def romanCapitalRuns : List CharRun := [⟨0x2160, 0x216F, 1⟩]

/-- Whether a character is a capital Roman numeral. -/
def isRomanCapital (c : Char) : Bool := inRuns romanCapitalRuns c

theorem shifts_covered : (lowercaseShifts.all fun shift =>
    shift.run.covered (titlecaseRuns ++ uppercaseRuns) 1) = true := by
  decide +kernel

theorem shifts_not_numeric : (lowercaseShifts.all fun shift =>
    romanCapitalRuns.any shift.run.within || numericIntervals.all fun interval =>
      shift.run.last.blt interval.1 || interval.2.blt shift.run.first) = true := by
  decide +kernel

theorem lowerChar_ne_of_code : ∀ code ∈ (romanCapitalRuns ++ titlecaseRuns).flatMap CharRun.codes,
    lowerChar (Char.ofNat code) ≠ [Char.ofNat code] := by
  decide +kernel

/-- Title case letters and capital Roman numerals change. -/
theorem lowerChar_ne {c : Char} (h : isRomanCapital c = true ∨ isTitlecase c = true) :
    lowerChar c ≠ [c] := by
  obtain ⟨run, hrun, hholds⟩ : ∃ run ∈ romanCapitalRuns ++ titlecaseRuns,
      run.holds c.toNat = true := by
    rcases h with h | h <;> obtain ⟨run, hrun, hholds⟩ := inRuns_iff.mp h
    · exact ⟨run, List.mem_append_left _ hrun, hholds⟩
    · exact ⟨run, List.mem_append_right _ hrun, hholds⟩
  have hne := lowerChar_ne_of_code c.toNat
    (List.mem_flatMap.mpr ⟨run, hrun, CharRun.mem_codes hholds⟩)
  rwa [Char.ofNat_toNat] at hne

/-- A character changes by a run of the table, or is one of two special cases. -/
theorem exists_shift {c : Char} (h : lowerChar c ≠ [c]) :
    (c.toNat < 0x80 ∧ c.isUpper = true) ∨ (0x80 ≤ c.toNat ∧
      (c = '\u0130' ∨ ∃ shift ∈ lowercaseShifts, shift.run.holds c.toNat = true)) := by
  unfold lowerChar at h
  split at h
  · rename_i hascii
    refine .inl ⟨hascii, ?_⟩
    by_contra hlower
    have hkept : c.toLower = c := dif_neg fun hcapital => hlower (decide_eq_true hcapital)
    exact h (congrArg (fun d => [d]) hkept)
  · rename_i hascii
    refine .inr ⟨Nat.not_lt.mp hascii, ?_⟩
    split at h
    · rename_i hdotted
      exact .inl (beq_iff_eq.mp hdotted)
    · split at h
      · rename_i shift hfind
        have hholds : shift.run.holds c.toNat = true := by simpa using List.find?_some hfind
        exact .inr ⟨shift, List.mem_of_find?_eq_some hfind, hholds⟩
      · exact absurd rfl h

/-- What changes without being upper case is a title case letter. -/
theorem lowerChar_of_not_upper {c : Char} (hupper : isUppercase c = false) :
    lowerChar c = [c] ↔ isTitlecase c = false := by
  constructor
  · intro h
    by_contra htitle
    exact lowerChar_ne (.inr (eq_true_of_ne_false htitle)) h
  · intro htitle
    by_contra h
    unfold isUppercase at hupper
    rcases exists_shift h with ⟨hascii, hcapital⟩ | ⟨hwide, rfl | ⟨shift, hshift, hholds⟩⟩
    · rw [if_pos hascii, hcapital] at hupper
      cases hupper
    · revert hupper
      decide
    · rw [if_neg (Nat.not_lt.mpr hwide)] at hupper
      obtain ⟨outer, houter, hin⟩ :=
        CharRun.exists_of_covered (List.all_eq_true.mp shifts_covered shift hshift) hholds
      rcases List.mem_append.mp houter with houter | houter
      · exact Bool.false_ne_true (htitle.symm.trans (inRuns_iff.mpr ⟨outer, houter, hin⟩))
      · exact Bool.false_ne_true (hupper.symm.trans (inRuns_iff.mpr ⟨outer, houter, hin⟩))

/-- Of what numbers are written with, the capital Roman numerals change. -/
theorem lowerChar_of_numeric {c : Char} (hnumeric : isNumeric c = true) :
    lowerChar c = [c] ↔ isRomanCapital c = false := by
  constructor
  · intro h
    by_contra hroman
    exact lowerChar_ne (.inl (eq_true_of_ne_false hroman)) h
  · intro hroman
    by_contra h
    unfold isNumeric at hnumeric
    rcases exists_shift h with ⟨hascii, hcapital⟩ | ⟨hwide, rfl | ⟨shift, hshift, hholds⟩⟩
    · rw [if_pos hascii] at hnumeric
      have hletter : 65 ≤ c.toNat := UInt32.le_iff_toNat_le.mp (of_decide_eq_true hcapital).1
      have hnine : c.toNat ≤ 57 :=
        UInt32.le_iff_toNat_le.mp (of_decide_eq_true ((Bool.and_eq_true _ _).mp hnumeric).2)
      omega
    · revert hnumeric
      decide
    · rw [if_neg (Nat.not_lt.mpr hwide)] at hnumeric
      obtain ⟨interval, hinterval, hin⟩ := List.any_eq_true.mp hnumeric
      have hapart := List.all_eq_true.mp shifts_not_numeric shift hshift
      rw [Bool.or_eq_true] at hapart
      rcases hapart with hcapital | hapart
      · obtain ⟨outer, houter, hwithin⟩ := List.any_eq_true.mp hcapital
        have hin := CharRun.holds_of_within hwithin hholds
        exact Bool.false_ne_true (hroman.symm.trans (inRuns_iff.mpr ⟨outer, houter, hin⟩))
      · have hdisjoint := List.all_eq_true.mp hapart interval hinterval
        obtain ⟨hfirst, hlast, -⟩ := CharRun.holds_iff.mp hholds
        simp only [Bool.or_eq_true, Nat.blt_eq] at hdisjoint
        simp only [Bool.and_eq_true, decide_eq_true_eq] at hin
        omega

/-! ### Texts that change -/

theorem lowerChar_cases (c : Char) : (∃ d, lowerChar c = [d]) ∨ c = '\u0130' := by
  unfold lowerChar
  split
  · exact .inl ⟨_, rfl⟩
  · split
    · rename_i hdotted
      exact .inr (beq_iff_eq.mp hdotted)
    · split <;> exact .inl ⟨_, rfl⟩

/-- A text is kept if and only if its characters are. -/
theorem lowercaseAfter_eq_self {before text : List Char} :
    lowercaseAfter before text = text ↔ ∀ c ∈ text, lowerChar c = [c] := by
  induction text generalizing before with
  | nil => simp [lowercaseAfter]
  | cons c rest ih =>
      rw [lowercaseAfter, List.forall_mem_cons]
      by_cases hsigma : c = 'Σ'
      · -- Neither form of a sigma is the capital.
        subst hsigma
        have hchanges : lowerChar 'Σ' ≠ ['Σ'] := by decide
        simp only [hchanges, false_and, iff_false, beq_self_eq_true, if_true]
        split <;> simp
      · rw [if_neg (by simpa using hsigma)]
        rcases lowerChar_cases c with ⟨d, hd⟩ | rfl
        · rw [hd, List.singleton_append, List.cons.injEq, List.cons.injEq, ih]
          simp
        · have hchanges : lowerChar '\u0130' = ['i', '\u0307'] := by decide
          simp [hchanges]

theorem lowercase_eq_self {text : String} :
    lowercase text = text ↔ ∀ c ∈ text.toList, lowerChar c = [c] := by
  have hkept : lowercaseAfter [] text.toList = text.toList ↔ ∀ c ∈ text.toList, lowerChar c = [c] :=
    lowercaseAfter_eq_self
  rw [lowercase, ← hkept]
  constructor
  · intro h
    exact String.ofList_injective (h.trans String.ofList_toList.symm)
  · intro h
    rw [h, String.ofList_toList]

/-! ### Characters that arise -/

theorem le_shifts : (lowercaseShifts.all fun shift =>
    decide (64 ≤ shift.run.first + shift.distance)) = true := by
  decide

theorem le_toLower : ∀ n < 0x80,
    (Char.ofNat n).toLower = Char.ofNat n ∨ 64 ≤ (Char.ofNat n).toLower.toNat := by
  decide

/-- A code point that is no character stands for the character of code point zero. -/
theorem le_toNat_ofNat {n : Nat} (hle : 64 ≤ n) (hpos : 0 < (Char.ofNat n).toNat) :
    64 ≤ (Char.ofNat n).toNat := by
  rw [Char.ofNat] at hpos ⊢
  by_cases hvalid : n.isValidChar
  · rw [dif_pos hvalid]
    exact hle
  · rw [dif_neg hvalid] at hpos
    exact absurd hpos (by decide)

/-- What changes becomes a letter or stands behind the letters of one byte. -/
theorem eq_of_mem_lowerChar {c d : Char} (h : d ∈ lowerChar c) (hpos : 0 < d.toNat)
    (hlow : d.toNat < 64) : d = c := by
  unfold lowerChar at h
  split at h
  · rename_i hascii
    obtain rfl := List.mem_singleton.mp h
    have hletter := le_toLower c.toNat hascii
    rw [Char.ofNat_toNat] at hletter
    exact hletter.resolve_right (Nat.not_le.mpr hlow)
  · split at h
    · have hletters : ∀ e ∈ ['i', '\u0307'], 64 ≤ e.toNat := by simp
      exact absurd hlow (Nat.not_lt.mpr (hletters d h))
    · split at h
      · rename_i shift hfind
        obtain rfl := List.mem_singleton.mp h
        have hholds : shift.run.holds c.toNat = true := by simpa using List.find?_some hfind
        have hfirst := (CharRun.holds_iff.mp hholds).1
        have hleast := List.all_eq_true.mp le_shifts shift (List.mem_of_find?_eq_some hfind)
        rw [decide_eq_true_eq] at hleast
        exact absurd hlow (Nat.not_lt.mpr (le_toNat_ofNat (by omega) hpos))
      · exact List.mem_singleton.mp h

/-- No character in front of the letters arises in lower case. -/
theorem mem_of_mem_lowercase {text : String} {d : Char} (h : d ∈ (lowercase text).toList)
    (hpos : 0 < d.toNat) (hlow : d.toNat < 64) : d ∈ text.toList := by
  have hafter : ∀ (text before : List Char), d ∈ lowercaseAfter before text → d ∈ text := by
    intro text
    induction text with
    | nil => exact fun _ h => h
    | cons c rest ih =>
        intro before h
        rw [lowercaseAfter, List.mem_append] at h
        rcases h with h | h
        · by_cases hsigma : c = 'Σ'
          · subst hsigma
            have hforms : ∀ e ∈ ['ς', 'σ'], 64 ≤ e.toNat := by simp
            simp only [beq_self_eq_true, if_true, List.mem_singleton] at h
            refine absurd hlow (Nat.not_lt.mpr (hforms d ?_))
            split at h <;> simp [h]
          · rw [if_neg (by simpa using hsigma)] at h
            rw [eq_of_mem_lowerChar h hpos hlow]
            exact List.mem_cons_self
        · exact List.mem_cons_of_mem _ (ih _ h)
  rw [lowercase, String.toList_ofList] at h
  exact hafter _ _ h

end Text

namespace Analysis

/-! ### Words of the standard analyzer -/

namespace Token

/-- The term of a token whose words are put into lower case. -/
def foldedTerm (t : Token) : String := if t.kind = .word then Filter.foldCase t.text else t.text

/-- A word has upper case or no title case letter, or a number has no capital Roman numeral. -/
def Folds (t : Token) : Prop :=
  match t.kind with
  | .word => (∃ c ∈ t.text.toList, Text.isUppercase c = true) ∨
      ∀ c ∈ t.text.toList, Text.isTitlecase c = false
  | .number => ∀ c ∈ t.text.toList, Text.isRomanCapital c = false

variable {t : Token}

/-- A token is indexed in lower case exactly if it has upper case or does not change. -/
theorem foldedTerm_eq_lowercase (hnumber : t.kind = .number →
    ∀ c ∈ t.text.toList, Text.isNumeric c = true) :
    t.foldedTerm = Text.lowercase t.text ↔ t.Folds := by
  unfold foldedTerm Folds
  cases hkind : t.kind with
  | word =>
      rw [if_pos rfl, Filter.foldCase]
      by_cases hupper : t.text.toList.any Text.isUppercase = true
      · rw [if_pos hupper]
        exact iff_of_true rfl (.inl (List.any_eq_true.mp hupper))
      · have hlower : ∀ c ∈ t.text.toList, Text.isUppercase c = false := by simpa using hupper
        rw [if_neg hupper, eq_comm, Text.lowercase_eq_self]
        constructor
        · exact fun h => .inr fun c hc => (Text.lowerChar_of_not_upper (hlower c hc)).mp (h c hc)
        · rintro (⟨d, hd, hcapital⟩ | h) c hc
          · exact absurd hcapital (Bool.eq_false_iff.mp (hlower d hd))
          · exact (Text.lowerChar_of_not_upper (hlower c hc)).mpr (h c hc)
  | number =>
      rw [if_neg (by decide), eq_comm, Text.lowercase_eq_self]
      exact forall₂_congr fun c hc => Text.lowerChar_of_numeric (hnumber hkind c hc)

/-- Otherwise it is indexed as it is written. -/
theorem foldedTerm_eq_text (h : ¬t.Folds) : t.foldedTerm = t.text := by
  unfold foldedTerm
  split
  · rename_i hkind
    unfold Folds at h
    rw [hkind] at h
    rw [Filter.foldCase, if_neg fun hupper => h (.inl (List.any_eq_true.mp hupper))]
  · rfl

end Token

theorem Tokenizer.isNumeric_of_mem_place {words : List (Nat × List Char)} : ∀ {position : Nat}
    {t : Token}, t ∈ place position words → t.kind = .number →
      ∀ c ∈ t.text.toList, Text.isNumeric c = true := by
  induction words with
  | nil => simp [place]
  | cons word rest ih =>
      intro position t ht hkind
      rcases List.mem_cons.mp ht with rfl | ht
      · simp only at hkind ⊢
        split at hkind
        · rename_i hnumeric
          rw [String.toList_ofList]
          exact List.all_eq_true.mp hnumeric
        · cases hkind
      · exact ih ht hkind

/-- Numbers are written with numeric characters only. -/
theorem Tokenizer.isNumeric_of_number {tokenizer : Tokenizer} {text : String} {t : Token}
    (ht : t ∈ tokenizer.tokens text) (hkind : t.kind = .number) :
    ∀ c ∈ t.text.toList, Text.isNumeric c = true := by
  cases tokenizer with
  | words maxLength => exact isNumeric_of_mem_place ht hkind
  | whole =>
      simp only [tokens] at ht
      split at ht
      · cases ht
      · rw [List.mem_singleton.mp ht] at hkind
        cases hkind

/-- The terms of the standard analyzer are those of the tokens, at their places. -/
theorem Analyzer.mem_analyze_standard {text : String} {t : Token}
    (ht : t ∈ Analyzer.standard.tokenizer.tokens text) :
    { t with text := t.foldedTerm } ∈ Analyzer.standard.analyze text := by
  refine List.mem_map.mpr ⟨t, ht, ?_⟩
  unfold Token.foldedTerm
  split <;> rfl

end Analysis

end DocIndex
