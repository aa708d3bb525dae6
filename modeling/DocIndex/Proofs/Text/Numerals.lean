/-
Numerals that are analysed.

Cutting a text at its word boundaries loses none of its characters: the units and then the segments
are the text again when they are joined.  So a letter or a digit of the text stands in one of the
words, and no word is longer than the text.

A numeral has a digit, and no other characters than digits, a point and a minus.  However it is
cut into words, one of them has the digit.  There is nothing in it to become lower case, and no
list of stop words that have letters only drops it; a stem may be another text, but it is one.  So
an analyzer leaves a term of every numeral that is not too long for it, unless it drops words after
they have become stems.
-/
import DocIndex.Analysis.Analyzer
import DocIndex.Text.Words

namespace DocIndex.Text

theorem flatMap_unattached (marks : List Char) :
    (wordUnits.unattached marks).flatMap WordUnit.chars = marks := by
  cases marks <;> simp [wordUnits.unattached, WordUnit.chars]

theorem flatMap_wordUnits (text : List Char) :
    (wordUnits text).1 ++ (wordUnits text).2.flatMap WordUnit.chars = text := by
  induction text with
  | nil => rfl
  | cons c rest ih =>
      simp only [wordUnits]
      split
      · rw [List.cons_append, ih]
      · split
        · rw [List.nil_append, List.cons_append, List.flatMap_cons, List.flatMap_append,
            flatMap_unattached, ih]
          rfl
        · rw [List.nil_append, List.flatMap_cons, WordUnit.chars, List.cons_append, ih]

theorem flatMap_unitsOf (text : List Char) : (unitsOf text).flatMap WordUnit.chars = text := by
  rw [unitsOf, List.flatMap_append, flatMap_unattached, flatMap_wordUnits]

theorem flatten_segmentsAfter (earlier : WordBreak) (left : WordUnit) (indicators : Nat)
    (rest : List WordUnit) : (segmentsAfter earlier left indicators rest).flatten
      = left.chars ++ rest.flatMap WordUnit.chars := by
  induction rest generalizing earlier left indicators with
  | nil => simp [segmentsAfter]
  | cons right rest ih =>
      have hrest := ih left.kind right
        (if right.kind == .regionalIndicator then indicators + 1 else 0)
      simp only [segmentsAfter, List.flatMap_cons, ← hrest]
      generalize segmentsAfter left.kind right _ rest = behind
      generalize isJoined earlier left right _ indicators = joined
      cases joined with
      | false => exact List.flatten_cons
      | true =>
          -- A joined segment goes on with the first of the segments behind it.
          cases behind with
          | nil => rfl
          | cons first others => exact List.append_assoc _ _ _

/-- The segments of a text are the text. -/
theorem flatten_segments (text : List Char) : (segments text).flatten = text := by
  have hunits := flatMap_unitsOf text
  rw [segments]
  cases h : unitsOf text with
  | nil =>
      rw [h] at hunits
      exact hunits
  | cons first rest =>
      rw [h] at hunits
      rw [flatten_segmentsAfter]
      exact hunits

theorem byteLength_append (a b : List Char) :
    byteLength (a ++ b) = byteLength a + byteLength b := by
  have hshift : ∀ (text : List Char) (n : Nat),
      text.foldl (fun n c => n + c.utf8Size) n = n + byteLength text := by
    intro text
    induction text with
    | nil => exact fun n => rfl
    | cons c text ih =>
        intro n
        rw [byteLength, List.foldl_cons, List.foldl_cons, ih, ih (0 + c.utf8Size)]
        omega
  rw [byteLength, List.foldl_append, hshift]
  rfl

theorem byteLength_le_flatten {segment : List Char} {all : List (List Char)}
    (h : segment ∈ all) : byteLength segment ≤ byteLength all.flatten := by
  induction all with
  | nil => cases h
  | cons first others ih =>
      rw [List.flatten_cons, byteLength_append]
      rcases List.mem_cons.mp h with rfl | h
      · omega
      · have := ih h
        omega

theorem mem_withOffsets {segment : List Char} {all : List (List Char)} (h : segment ∈ all)
    (offset : Nat) : ∃ before, (before, segment) ∈ withOffsets offset all := by
  induction all generalizing offset with
  | nil => cases h
  | cons first others ih =>
      rcases List.mem_cons.mp h with rfl | h
      · exact ⟨offset, List.mem_cons_self⟩
      · obtain ⟨before, hbefore⟩ := ih h (offset + byteLength first)
        exact ⟨before, List.mem_cons_of_mem _ hbefore⟩

/-- A letter or digit of a text stands in one of its words, which is a part of the text. -/
theorem exists_word {text : List Char} {c : Char} (hc : c ∈ text)
    (halphanumeric : isAlphanumeric c = true) :
    ∃ offset word, (offset, word) ∈ words text ∧ c ∈ word ∧ (∀ d ∈ word, d ∈ text) ∧
      byteLength word ≤ byteLength text := by
  rw [← flatten_segments text] at hc
  obtain ⟨word, hword, hin⟩ := List.mem_flatten.mp hc
  obtain ⟨offset, hoffset⟩ := mem_withOffsets hword 0
  refine ⟨offset, word, List.mem_filter.mpr ⟨hoffset, ?_⟩, hin, fun d hd => ?_, ?_⟩
  · exact List.any_eq_true.mpr ⟨c, hin, halphanumeric⟩
  · rw [← flatten_segments text]
    exact List.mem_flatten.mpr ⟨word, hword, hd⟩
  · calc byteLength word ≤ byteLength (segments text).flatten := byteLength_le_flatten hword
      _ = byteLength text := by rw [flatten_segments]

end DocIndex.Text

namespace DocIndex.Analysis

/-! ### Numerals -/

/-- What a numeral consists of. -/
def isNumeralChar (c : Char) : Bool := c.isDigit || c == '.' || c == '-'

/-- A digit, and no other characters than those of numerals. -/
def IsNumeral (text : List Char) : Prop :=
  (∃ c ∈ text, c.isDigit = true) ∧ ∀ c ∈ text, isNumeralChar c = true

theorem toNat_of_isNumeralChar {c : Char} (h : isNumeralChar c = true) : c.toNat < 0x41 := by
  simp only [isNumeralChar, Bool.or_eq_true, beq_iff_eq] at h
  rcases h with (hdigit | rfl) | rfl
  · simp only [Char.isDigit, Bool.and_eq_true, decide_eq_true_eq, UInt32.le_iff_toNat_le] at hdigit
    exact Nat.lt_of_le_of_lt hdigit.2 (by decide)
  · decide
  · decide

theorem isAlphanumeric_of_isDigit {c : Char} (h : c.isDigit = true) :
    Text.isAlphanumeric c = true := by
  have hsmall := toNat_of_isNumeralChar (c := c) (by simp [isNumeralChar, h])
  rw [Text.isAlphanumeric, if_pos (by omega), Char.isAlphanum, h, Bool.or_true]

/-- The capital letters come behind all characters of numerals. -/
theorem isUppercase_of_isNumeralChar {c : Char} (h : isNumeralChar c = true) :
    Text.isUppercase c = false := by
  have hsmall := toNat_of_isNumeralChar h
  rw [Text.isUppercase, if_pos (by omega)]
  refine decide_eq_false fun hupper => ?_
  exact absurd (UInt32.le_iff_toNat_le.mp hupper.1) (Nat.not_le_of_lt hsmall)

theorem foldCase_numeral {text : String} (h : IsNumeral text.toList) :
    Filter.foldCase text = text := by
  refine if_neg ?_
  rw [Bool.not_eq_true, List.any_eq_false]
  intro c hc
  rw [isUppercase_of_isNumeralChar (h.2 c hc)]
  decide

/-! ### Filters -/

/-- Stop words have no digits, and no words are dropped after they have become stems. -/
def Filter.sparesNumerals : List Filter → Bool
  | [] => true
  | .lowercase :: rest => sparesNumerals rest
  | .stopWords words :: rest =>
    words.all (fun word => !word.toList.any Char.isDigit) && sparesNumerals rest
  | .stem :: rest => rest.all fun filter => filter == .lowercase || filter == .stem

/-- A change of words leaves as many of them. -/
theorem apply_ne_nil {filters : List Filter}
    (h : ∀ filter ∈ filters, (filter == .lowercase || filter == .stem) = true)
    {tokens : List Token} (hne : tokens ≠ []) :
    filters.foldl (fun tokens filter => filter.apply tokens) tokens ≠ [] := by
  induction filters generalizing tokens with
  | nil => exact hne
  | cons filter rest ih =>
      obtain ⟨hfirst, hrest⟩ := List.forall_mem_cons.mp h
      refine ih hrest ?_
      rcases Bool.or_eq_true_iff.mp hfirst with hfilter | hfilter <;>
        rw [beq_iff_eq.mp hfilter] <;> simpa [Filter.apply, Filter.mapWords] using hne

/-- A numeral among the tokens is left by filters that spare it, at least as a stem. -/
theorem foldl_ne_nil {filters : List Filter} (h : Filter.sparesNumerals filters = true)
    {tokens : List Token} (hnumeral : ∃ token ∈ tokens, IsNumeral token.text.toList) :
    filters.foldl (fun tokens filter => filter.apply tokens) tokens ≠ [] := by
  induction filters generalizing tokens with
  | nil =>
      obtain ⟨token, htoken, -⟩ := hnumeral
      exact List.ne_nil_of_mem htoken
  | cons filter rest ih =>
      obtain ⟨token, htoken, htext⟩ := hnumeral
      cases filter with
      | lowercase =>
          refine ih h ⟨token, List.mem_map.mpr ⟨token, htoken, ?_⟩, htext⟩
          rw [foldCase_numeral htext]
          simp
      | stopWords words =>
          obtain ⟨hwords, hrest⟩ := Bool.and_eq_true_iff.mp h
          refine ih hrest ⟨token, List.mem_filter.mpr ⟨htoken, ?_⟩, htext⟩
          obtain ⟨c, hc, hdigit⟩ := htext.1
          have hdrop : token.text ∉ words := by
            intro hmem
            have hnone := List.all_eq_true.mp hwords _ hmem
            rw [List.any_eq_true.mpr ⟨c, hc, hdigit⟩] at hnone
            cases hnone
          simpa using hdrop
      | stem =>
          refine apply_ne_nil (List.all_eq_true.mp h) ?_
          exact List.ne_nil_of_mem (List.mem_map_of_mem htoken)

/-! ### Analyzers -/

theorem mem_place {offset : Nat} {word : List Char} {words : List (Nat × List Char)}
    (h : (offset, word) ∈ words) (position : Nat) :
    ∃ token ∈ Tokenizer.place position words, token.text = String.ofList word := by
  induction words generalizing position with
  | nil => cases h
  | cons first rest ih =>
      rcases List.mem_cons.mp h with rfl | h
      · exact ⟨_, List.mem_cons_self, rfl⟩
      · obtain ⟨token, htoken, htext⟩ := ih h (position + 1)
        exact ⟨token, List.mem_cons_of_mem _ htoken, htext⟩

/-- A text is not too long for a tokenizer. -/
def Tokenizer.Fits (tokenizer : Tokenizer) (text : String) : Prop :=
  match tokenizer with
  | words maxLength => Text.byteLength text.toList ≤ maxLength
  | whole => True

instance : (tokenizer : Tokenizer) → (text : String) → Decidable (tokenizer.Fits text)
  | .words maxLength, text => inferInstanceAs (Decidable (Text.byteLength text.toList ≤ maxLength))
  | .whole, _ => inferInstanceAs (Decidable True)

/-- A numeral is cut into tokens of which one is a numeral. -/
theorem exists_token {tokenizer : Tokenizer} {text : String} (hfits : tokenizer.Fits text)
    (hnumeral : IsNumeral text.toList) :
    ∃ token ∈ tokenizer.tokens text, IsNumeral token.text.toList := by
  obtain ⟨⟨c, hc, hdigit⟩, hall⟩ := id hnumeral
  cases tokenizer with
  | words maxLength =>
      obtain ⟨offset, word, hword, hin, hpart, hlength⟩ :=
        Text.exists_word hc (isAlphanumeric_of_isDigit hdigit)
      have hkept : (offset, word) ∈ (Text.words text.toList).filter fun place =>
          Text.byteLength place.2 ≤ maxLength :=
        List.mem_filter.mpr ⟨hword, decide_eq_true (Nat.le_trans hlength hfits)⟩
      obtain ⟨token, htoken, htext⟩ := mem_place hkept 0
      refine ⟨token, htoken, ?_⟩
      rw [htext, String.toList_ofList]
      exact ⟨⟨c, hin, hdigit⟩, fun d hd => hall d (hpart d hd)⟩
  | whole =>
      have hne : text.isEmpty = false := by
        rw [String.isEmpty_eq_false_iff]
        rintro rfl
        cases hc
      exact ⟨⟨text, 0, 0, .word⟩, by simp [Tokenizer.tokens, hne], hnumeral⟩

/-- **A term is left of a numeral** by an analyzer that it fits and whose filters spare it. -/
theorem analyze_ne_nil {analyzer : Analyzer} {text : String} (hnumeral : IsNumeral text.toList)
    (hfits : analyzer.tokenizer.Fits text)
    (hspares : Filter.sparesNumerals analyzer.filters = true) : analyzer.analyze text ≠ [] :=
  foldl_ne_nil hspares (exists_token hfits hnumeral)

/-- The analyzers that are always there spare numerals. -/
theorem sparesNumerals_builtIn :
    ∀ entry ∈ Analyzers.builtIn, Filter.sparesNumerals entry.2.filters = true := by
  decide +kernel

end DocIndex.Analysis
