/-
Runs of word characters.

What is not quoted, an operator or punctuation is read from a run of the characters that words
are made of.  The readers of relative times, numbers and words take nothing from behind the run,
so what they read does not depend on what stands there.  Only a date may go on behind its run,
with the colons of its clock.  If no colon stands there, a date is the whole run, and then it is
read in front of any other end of a run as well.

So a run that was read as a word or as a relative time is read as the same again, wherever it
ends with a blank, a closing parenthesis or a comma.
-/
import DocIndex.Proofs.Query.Dates

namespace DocIndex.Query.Lexer

open Text (readMark? readDigits? readMark?_eq_some)

/-- Characters that may all stand in one word. -/
def IsRun (text : List Char) : Prop := ∀ c ∈ text, isWordChar c = true

instance (text : List Char) : Decidable (IsRun text) :=
  decidable_of_iff (text.all isWordChar = true) List.all_eq_true

/-- What stands behind a token where it is printed. -/
def Stops (rest : List Char) : Prop := ∀ c ∈ rest.head?, c = ' ' ∨ c = ')' ∨ c = ','

variable {front rest : List Char}

/-! ### Ends of runs -/

theorem isWordChar_of_isAlphanum {c : Char} (h : c.isAlphanum = true) : isWordChar c = true := by
  have hascii : c.toNat < 0x80 := by
    have hkinds : (c.isUpper || c.isLower || c.isDigit) = true := h
    have hbelow : ∀ {last : Char}, c.val ≤ last.val → last.toNat < 0x80 → c.toNat < 0x80 :=
      fun hle hlast => Nat.lt_of_le_of_lt hle hlast
    rw [Bool.or_eq_true, Bool.or_eq_true] at hkinds
    rcases hkinds with (hupper | hlower) | hdigit
    · exact @hbelow 'Z' (of_decide_eq_true hupper).2 (by decide)
    · exact @hbelow 'z' (of_decide_eq_true ((Bool.and_eq_true _ _).mp hlower).2) (by decide)
    · exact @hbelow '9' (of_decide_eq_true ((Bool.and_eq_true _ _).mp hdigit).2) (by decide)
  rw [isWordChar, Text.isAlphanumeric, if_pos hascii, h, Bool.true_or]

/-- Only characters of words pass. -/
def WordTest (p : Char → Bool) : Prop := ∀ c, p c = true → isWordChar c = true

theorem wordTest_isDigit : WordTest Char.isDigit := fun c h =>
  isWordChar_of_isAlphanum (by rw [Char.isAlphanum, h, Bool.or_true])

theorem wordTest_isLetter : WordTest isLetter := fun c h =>
  isWordChar_of_isAlphanum (by rw [Char.isAlphanum, show c.isAlpha = true from h, Bool.true_or])

theorem wordTest_isWordChar : WordTest isWordChar := fun _ h => h

theorem Stops.atBoundary (h : Stops rest) : atBoundary rest = true := by
  cases rest with
  | nil => rfl
  | cons c more =>
      have hc : isWordChar c = false := by
        rcases h c rfl with rfl | rfl | rfl <;> decide
      rw [Lexer.atBoundary, hc, Bool.not_false]

theorem Stops.ne_colon (h : Stops rest) (more : List Char) : rest ≠ ':' :: more := by
  rintro rfl
  exact absurd (h ':' rfl) (by decide)

/-- What stands behind the longest run is the end of one. -/
theorem atBoundary_dropWhile (text : List Char) :
    atBoundary (text.dropWhile isWordChar) = true := by
  cases hdrop : text.dropWhile isWordChar with
  | nil => rfl
  | cons c more =>
      have hc := List.head_dropWhile_not isWordChar (l := text) (by rw [hdrop]; exact nofun)
      simp only [hdrop, List.head_cons] at hc
      rw [atBoundary, hc, Bool.not_false]

theorem isRun_takeWhile (text : List Char) : IsRun (text.takeWhile isWordChar) :=
  List.all_eq_true.mp List.all_takeWhile

/-- A number with its sign. -/
def signed (negative : Bool) (n : Nat) : Int := if negative then -(n : Int) else n

/-- Reads a number behind its sign. -/
def readDecimal? (negative : Bool) (text : List Char) : Option (Token × List Char) :=
  let digits := text.takeWhile Char.isDigit
  let (fraction, rest) := readFraction (text.dropWhile Char.isDigit)
  let value := signed negative (numeralValue digits)
  if digits.isEmpty || !atBoundary rest then none
  else if fraction.isEmpty && fitsInt64 value then some (.integer value, rest)
  else
    let x := Double.ofDecimal negative (numeralValue (digits ++ fraction)) (-fraction.length)
    some (.number x, rest)

theorem readNumber?_of_unsigned {text : List Char} (h : ∀ more, text ≠ '-' :: more) :
    readNumber? text = readDecimal? false text := by
  unfold readNumber? readDecimal?
  split
  rename_i negative body hsign
  split at hsign
  · exact absurd rfl (h _)
  · obtain ⟨rfl, rfl⟩ := Prod.mk.inj hsign
    rfl

theorem readNumber?_minus (text : List Char) :
    readNumber? ('-' :: text) = readDecimal? true text := rfl

section Boundary

variable (hrest : atBoundary rest = true)

include hrest

theorem ne_cons_of_atBoundary {c : Char} (hc : isWordChar c = true) (more : List Char) :
    rest ≠ c :: more := by
  rintro rfl
  rw [atBoundary, hc] at hrest
  cases hrest

theorem atBoundary_append (front : List Char) : atBoundary (front ++ rest) = atBoundary front := by
  cases front with
  | nil => exact hrest
  | cons c more => rfl

/-- Characters of a word are not taken from behind a run. -/
theorem takeWhile_append {p : Char → Bool} (hp : WordTest p) (front : List Char) :
    (front ++ rest).takeWhile p = front.takeWhile p := by
  induction front with
  | nil =>
      cases rest with
      | nil => rfl
      | cons c more =>
          rw [List.nil_append, List.takeWhile_cons_of_neg, List.takeWhile_nil]
          exact fun hc => ne_cons_of_atBoundary hrest (hp c hc) more rfl
  | cons c more ih => rw [List.cons_append, List.takeWhile_cons, List.takeWhile_cons, ih]

theorem dropWhile_append {p : Char → Bool} (hp : WordTest p) (front : List Char) :
    (front ++ rest).dropWhile p = front.dropWhile p ++ rest := by
  have hsplit := List.takeWhile_append_dropWhile (p := p) (l := front ++ rest)
  rw [takeWhile_append hrest hp] at hsplit
  refine List.append_cancel_left (hsplit.trans ?_)
  rw [← List.append_assoc, List.takeWhile_append_dropWhile]

/-- No word goes on behind the run that it may begin in. -/
theorem isPrefixOf_append {word : List Char} (hword : IsRun word) (front : List Char) :
    word.isPrefixOf (front ++ rest) = word.isPrefixOf front := by
  induction word generalizing front with
  | nil => simp
  | cons c more ih =>
      obtain ⟨hc, hmore⟩ := List.forall_mem_cons.mp hword
      cases front with
      | nil =>
          cases rest with
          | nil => rfl
          | cons d others =>
              have hne : c ≠ d := fun heq =>
                ne_cons_of_atBoundary hrest (heq ▸ hc) others rfl
              simp [List.isPrefixOf, hne]
      | cons d others => simp [List.isPrefixOf, ih hmore others]

/-! ### Readers that stay in a run -/

theorem readAnchor_append (front : List Char) :
    readAnchor (front ++ rest) = ((readAnchor front).1, (readAnchor front).2 ++ rest) := by
  have hdrop : ∀ word : List Char, word.isPrefixOf front = true →
      (front ++ rest).drop word.length = front.drop word.length ++ rest := fun word hword =>
    List.drop_append_of_le_length (List.isPrefixOf_iff_prefix.mp hword).length_le
  unfold readAnchor
  rw [isPrefixOf_append hrest (by decide), isPrefixOf_append hrest (by decide)]
  split
  · rename_i hnow
    exact congrArg (Prod.mk _) (hdrop _ hnow)
  · split
    · rename_i htoday
      exact congrArg (Prod.mk _) (hdrop _ htoday)
    · rfl

theorem readGroups_append (fuel : Nat) (front : List Char) : readGroups fuel (front ++ rest)
    = ((readGroups fuel front).1, (readGroups fuel front).2 ++ rest) := by
  induction fuel generalizing front with
  | zero => rfl
  | succ fuel ih =>
      simp only [readGroups, takeWhile_append hrest wordTest_isDigit,
        dropWhile_append hrest wordTest_isDigit,
        takeWhile_append hrest wordTest_isLetter,
        dropWhile_append hrest wordTest_isLetter, ih]
      split <;> rfl

omit hrest in
/-- More fuel than there are characters makes no difference. -/
theorem readGroups_fuel {fuel other : Nat} {text : List Char} (hfuel : text.length ≤ fuel)
    (hother : text.length ≤ other) : readGroups fuel text = readGroups other text := by
  have hnil : ∀ fuel, readGroups fuel [] = ([], []) := fun fuel => by cases fuel <;> rfl
  induction fuel generalizing text other with
  | zero =>
      obtain rfl := List.length_eq_zero_iff.mp (Nat.le_zero.mp hfuel)
      rw [hnil, hnil]
  | succ fuel ih =>
      cases other with
      | zero =>
          obtain rfl := List.length_eq_zero_iff.mp (Nat.le_zero.mp hother)
          rw [hnil, hnil]
      | succ other =>
          rw [readGroups, readGroups]
          by_cases hempty : ((text.takeWhile Char.isDigit).isEmpty ||
              ((text.dropWhile Char.isDigit).takeWhile isLetter).isEmpty) = true
          · simp only [hempty, if_true]
          · have hsplit := congrArg List.length
              (List.takeWhile_append_dropWhile (p := Char.isDigit) (l := text))
            have hletters :=
              (List.dropWhile_sublist isLetter (l := text.dropWhile Char.isDigit)).length_le
            have hdigits : 0 < (text.takeWhile Char.isDigit).length := by
              refine List.length_pos_iff.mpr fun hnone => hempty ?_
              rw [hnone]
              rfl
            rw [List.length_append] at hsplit
            simp only [hempty, Bool.false_eq_true, if_false]
            rw [ih (by omega) (by omega : _ ≤ other)]

/-- What is read as a relative time does not depend on what stands behind the run. -/
theorem readRelativeLiteral?_append (front : List Char) : readRelativeLiteral? (front ++ rest)
    = (readRelativeLiteral? front).map fun found => (found.1, found.2 ++ rest) := by
  unfold readRelativeLiteral?
  rw [readAnchor_append hrest]
  generalize readAnchor front = anchored
  obtain ⟨anchor, left⟩ := anchored
  have hbare : ∀ left : List Char, (anchor.map fun a => (RelativeLiteral.mk (some a) false [],
      left ++ rest)) = (anchor.map fun a => (RelativeLiteral.mk (some a) false [], left)).map
        fun found => (found.1, found.2 ++ rest) := fun left => by cases anchor <;> rfl
  cases left with
  | nil =>
      simp only [List.nil_append]
      cases rest with
      | nil => cases anchor <;> rfl
      | cons c more =>
          have hsign : (c == '+' || c == '-') = false := by
            rw [Bool.or_eq_false_iff, beq_eq_false_iff_ne, beq_eq_false_iff_ne]
            constructor <;> rintro rfl <;>
              exact ne_cons_of_atBoundary hrest (by decide) more rfl
          simp only [hsign, Bool.false_eq_true, if_false]
          exact hbare []
  | cons c more =>
      simp only [List.cons_append]
      split
      · have hfuel : readGroups (more ++ rest).length more = readGroups more.length more := by
          refine readGroups_fuel ?_ (Nat.le_refl _)
          rw [List.length_append]
          omega
        rw [readGroups_append hrest, hfuel]
        generalize readGroups more.length more = grouped
        obtain ⟨groups, left⟩ := grouped
        cases groups with
        | nil => exact hbare (c :: more)
        | cons group groups => rfl
      · exact hbare (c :: more)

theorem bounded_append {α : Type} (reading : Option (α × List Char)) :
    bounded (reading.map fun found => (found.1, found.2 ++ rest))
      = (bounded reading).map fun found => (found.1, found.2 ++ rest) := by
  cases reading with
  | none => rfl
  | some found =>
      simp only [bounded, Option.map_some, Option.filter_some, atBoundary_append hrest]
      split <;> rfl

theorem readRelative?_append (front : List Char) : readRelative? (front ++ rest)
    = (readRelative? front).map fun found => (found.1, found.2 ++ rest) := by
  unfold readRelative?
  rw [readRelativeLiteral?_append hrest, bounded_append hrest]
  cases bounded (readRelativeLiteral? front) with
  | none => rfl
  | some found =>
      obtain ⟨literal, left⟩ := found
      have hraw : (front ++ rest).take ((front ++ rest).length - (left ++ rest).length)
          = front.take (front.length - left.length) := by
        rw [List.length_append, List.length_append, Nat.add_sub_add_right,
          List.take_append_of_le_length (Nat.sub_le _ _)]
      simp only [Option.map_some, Option.bind_eq_bind, Option.bind_some, hraw]
      cases literal.shift? <;> rfl

theorem readFraction_append (front : List Char) : readFraction (front ++ rest)
    = ((readFraction front).1, (readFraction front).2 ++ rest) := by
  cases front with
  | nil =>
      have hnone : readFraction rest = ([], rest) := by
        unfold readFraction
        split
        · rename_i more
          exact absurd rfl (ne_cons_of_atBoundary hrest (by decide : isWordChar '.' = true) more)
        · rfl
      exact hnone
  | cons c more =>
      by_cases hpoint : c = '.'
      · subst hpoint
        simp only [List.cons_append, readFraction,
          takeWhile_append hrest wordTest_isDigit,
          dropWhile_append hrest wordTest_isDigit]
        split <;> rfl
      · simp [readFraction, hpoint]

/-- What is read as a number behind its sign does not depend on what stands behind the run. -/
theorem readDecimal?_append (negative : Bool) (front : List Char) :
    readDecimal? negative (front ++ rest)
      = (readDecimal? negative front).map fun found => (found.1, found.2 ++ rest) := by
  unfold readDecimal?
  simp only [takeWhile_append hrest wordTest_isDigit,
    dropWhile_append hrest wordTest_isDigit, readFraction_append hrest,
    atBoundary_append hrest]
  split
  · rfl
  · split <;> rfl

theorem readNumber?_append (front : List Char) : readNumber? (front ++ rest)
    = (readNumber? front).map fun found => (found.1, found.2 ++ rest) := by
  have hminus : ∀ more, rest ≠ '-' :: more := ne_cons_of_atBoundary hrest (by decide)
  cases front with
  | nil =>
      rw [List.nil_append, readNumber?_of_unsigned hminus]
      exact readDecimal?_append hrest false []
  | cons c more =>
      by_cases hc : c = '-'
      · subst hc
        exact readDecimal?_append hrest true more
      · have hplain : ∀ others left : List Char, c :: others ≠ '-' :: left := fun _ _ heq =>
          hc (List.cons.inj heq).1
        rw [List.cons_append, readNumber?_of_unsigned (hplain _),
          readNumber?_of_unsigned (hplain _)]
        exact readDecimal?_append hrest false (c :: more)

/-- The whole run is a word. -/
theorem readWord?_append (hfront : IsRun front) (hne : front ≠ []) :
    readWord? (front ++ rest) = some (keywordOrWord front, rest) := by
  have htake : (front ++ rest).takeWhile isWordChar = front := by
    rw [List.takeWhile_append_of_pos hfront]
    exact (congrArg (front ++ ·) (takeWhile_append hrest wordTest_isWordChar [])).trans
      (List.append_nil front)
  have hdrop : (front ++ rest).dropWhile isWordChar = rest := by
    rw [List.dropWhile_append_of_pos hfront]
    exact dropWhile_append hrest wordTest_isWordChar []
  unfold readWord?
  simp only [htake, hdrop, List.isEmpty_iff, hne, if_false]

/-! ### Dates -/

theorem atBoundary_take (count : Nat) : atBoundary (rest.take count) = true := by
  cases count with
  | zero => rfl
  | succ count =>
      cases rest with
      | nil => rfl
      | cons c more => exact hrest

theorem readDigits?_append (least most : Nat) (front : List Char) :
    readDigits? least most (front ++ rest)
      = (readDigits? least most front).map fun found => (found.1, found.2 ++ rest) := by
  have hdigits : ((front ++ rest).take most).takeWhile Char.isDigit
      = (front.take most).takeWhile Char.isDigit := by
    rw [List.take_append]
    exact takeWhile_append (atBoundary_take hrest _) wordTest_isDigit _
  have hlength : ((front.take most).takeWhile Char.isDigit).length ≤ front.length :=
    ((List.takeWhile_sublist _).trans (List.take_sublist _ _)).length_le
  unfold readDigits?
  simp only [hdigits]
  split
  · rfl
  · rw [List.drop_append_of_le_length hlength]
    rfl

/-- Digits in front of the end of a run belong to the run. -/
theorem exists_readDigits? {least most n : Nat} {left : List Char}
    (h : readDigits? least most (front ++ rest) = some (n, left)) :
    ∃ more, left = more ++ rest ∧ readDigits? least most front = some (n, more) := by
  rw [readDigits?_append hrest] at h
  obtain ⟨⟨_, more⟩, hmore, heq⟩ := Option.map_eq_some_iff.mp h
  obtain ⟨rfl, rfl⟩ := Prod.mk.inj heq
  exact ⟨more, rfl, hmore⟩

/-- So do digits and the mark of a word behind them. -/
theorem exists_readDigits?_mark {least most n : Nat} {mark : Char} {left : List Char}
    (hmark : isWordChar mark = true)
    (h : readDigits? least most (front ++ rest) = some (n, mark :: left)) :
    ∃ more, left = more ++ rest ∧ readDigits? least most front = some (n, mark :: more) := by
  obtain ⟨more, hleft, hread⟩ := exists_readDigits? hrest h
  cases more with
  | nil => exact absurd hleft.symm (ne_cons_of_atBoundary hrest hmark left)
  | cons c more =>
      obtain ⟨rfl, rfl⟩ := List.cons.inj hleft
      exact ⟨more, rfl, hread⟩

theorem readClock_of_atBoundary : readClock rest = ((none, 0), rest) := by
  rcases readClock_cases rest with hnone | ⟨hours, _, _, _, _, heq, -⟩
  · exact hnone
  · exact absurd heq (ne_cons_of_atBoundary hrest (by decide) hours)

end Boundary

/-- A run that is the date of a day, from the first to the last character. -/
def IsDay (run : List Char) (date : Date) : Prop :=
  ∃ year months month days day, readDigits? 4 4 run = some (year, '-' :: months) ∧
    readDigits? 2 2 months = some (month, '-' :: days) ∧
    readDigits? 2 2 days = some (day, []) ∧ date = ⟨(year : Int), month, day⟩

/-- The date of a day is read in front of any end of a run. -/
theorem IsDay.readDateLiteral? {run : List Char} {date : Date} (h : IsDay run date)
    (hrest : atBoundary rest = true) :
    readDateLiteral? (run ++ rest) = some (⟨date, none, 0⟩, rest) := by
  obtain ⟨year, months, month, days, day, hyear, hmonth, hday, rfl⟩ := h
  refine readDateLiteral?_eq_some.mpr
    ⟨year, months ++ rest, month, days ++ rest, day, rest, ?_, ?_, ?_, ?_, ?_⟩
  · rw [readDigits?_append hrest, hyear]
    rfl
  · rw [readDigits?_append hrest, hmonth]
    rfl
  · rw [readDigits?_append hrest, hday]
    rfl
  · rw [readClock_of_atBoundary hrest]
  · rw [readClock_of_atBoundary hrest]

/-- In front of anything but a colon, a date is a whole run. -/
theorem isDay_of_readDate? {run left : List Char} {token : Token} (hrun : IsRun run)
    (hrest : Stops rest) (h : readDate? (run ++ rest) = some (token, left)) :
    ∃ date, IsDay run date ∧ DateLiteral.token? ⟨date, none, 0⟩ = some token := by
  have hboundary := hrest.atBoundary
  obtain ⟨literal, hliteral, hend, htoken⟩ := readDate?_eq_some.mp h
  obtain ⟨year, _, month, _, day, _, hyears, hmonths, hdays, rfl, rfl⟩ :=
    readDateLiteral?_eq_some.mp hliteral
  obtain ⟨months, rfl, hyear⟩ := exists_readDigits?_mark hboundary (by decide) hyears
  obtain ⟨days, rfl, hmonth⟩ := exists_readDigits?_mark hboundary (by decide) hmonths
  obtain ⟨tail, rfl, hday⟩ := exists_readDigits? hboundary hdays
  have htail : IsRun tail := by
    have hin := ((List.suffix_cons _ _).trans (readDigits?_suffix hmonth)).trans
      ((List.suffix_cons _ _).trans (readDigits?_suffix hyear))
    exact fun c hc => hrun c (((readDigits?_suffix hday).trans hin).subset hc)
  rcases readClock_cases (tail ++ rest) with hnone | ⟨hours, hour, minutes, _, _, heq, hhours, -⟩
  · rw [hnone] at hend htoken
    cases tail with
    | nil => exact ⟨_, ⟨year, months, month, days, day, hyear, hmonth, hday, rfl⟩, htoken⟩
    | cons c more =>
        rw [atBoundary_append hboundary, atBoundary, htail c List.mem_cons_self] at hend
        cases hend
  · -- The colon behind the hours is neither in the run nor behind it.
    cases tail with
    | nil => exact absurd heq (ne_cons_of_atBoundary hboundary (by decide) hours)
    | cons c more =>
        obtain ⟨rfl, rfl⟩ := List.cons.inj heq
        obtain ⟨after, hafter, hhour⟩ := exists_readDigits? hboundary hhours
        cases after with
        | nil => exact absurd hafter.symm (hrest.ne_colon minutes)
        | cons d others =>
            have hin : ':' ∈ more := by
              rw [(List.cons.inj hafter).1]
              exact (readDigits?_suffix hhour).subset List.mem_cons_self
            exact absurd (htail ':' (List.mem_cons_of_mem _ hin)) (by decide)

/-- A run that is no date in one place is none where it is printed. -/
theorem readDate?_eq_none {run other : List Char} (hrun : IsRun run)
    (hother : atBoundary other = true) (h : readDate? (run ++ other) = none)
    (hrest : Stops rest) : readDate? (run ++ rest) = none := by
  refine Option.eq_none_iff_forall_ne_some.mpr fun found hfound => ?_
  obtain ⟨date, hday, htoken⟩ := isDay_of_readDate? hrun hrest hfound
  rw [readDate?_eq_some.mpr ⟨_, hday.readDateLiteral? hother, hother, htoken⟩] at h
  cases h

/-! ### What the readers give -/

theorem readGroups_suffix (fuel : Nat) (text : List Char) :
    (readGroups fuel text).2 <:+ text := by
  induction fuel generalizing text with
  | zero => exact List.suffix_rfl
  | succ fuel ih =>
      rw [readGroups]
      simp only
      split
      · exact List.suffix_rfl
      · exact (ih _).trans ((List.dropWhile_suffix _).trans (List.dropWhile_suffix _))

theorem readAnchor_suffix (text : List Char) : (readAnchor text).2 <:+ text := by
  unfold readAnchor
  split
  · exact List.drop_suffix _ _
  · split
    · exact List.drop_suffix _ _
    · exact List.suffix_rfl

theorem readRelativeLiteral?_suffix {text : List Char} {literal : RelativeLiteral}
    (h : readRelativeLiteral? text = some (literal, rest)) : rest <:+ text := by
  have hanchor := readAnchor_suffix text
  unfold readRelativeLiteral? at h
  generalize readAnchor text = anchored at h hanchor
  obtain ⟨anchor, left⟩ := anchored
  have hbare : (anchor.map fun a => (RelativeLiteral.mk (some a) false [], left))
      = some (literal, rest) → rest <:+ text := by
    intro hsome
    obtain ⟨a, -, heq⟩ := Option.map_eq_some_iff.mp hsome
    exact (Prod.mk.inj heq).2 ▸ hanchor
  cases left with
  | nil => exact hbare h
  | cons c more =>
      have hgroups := readGroups_suffix more.length more
      simp only at h
      generalize readGroups more.length more = grouped at h hgroups
      obtain ⟨groups, left⟩ := grouped
      split at h
      · cases groups with
        | nil => exact hbare h
        | cons group groups =>
            cases h
            exact hgroups.trans ((List.suffix_cons c more).trans hanchor)
      · exact hbare h

/-- A relative time has the text that it was read from. -/
theorem readRelative?_eq_some {text : List Char} {token : Token}
    (h : readRelative? text = some (token, rest)) : rest <:+ text ∧ atBoundary rest = true ∧
      ∃ t, token = .relative t ∧ t.raw = String.ofList (text.take (text.length - rest.length)) := by
  obtain ⟨⟨literal, left⟩, hliteral, h⟩ := Option.bind_eq_some_iff.mp h
  obtain ⟨shift, -, h⟩ := Option.bind_eq_some_iff.mp h
  cases h
  obtain ⟨hread, hboundary⟩ := Option.filter_eq_some_iff.mp hliteral
  exact ⟨readRelativeLiteral?_suffix hread, hboundary, _, rfl, rfl⟩

theorem readDecimal?_eq_some {negative : Bool} {text : List Char} {token : Token}
    (h : readDecimal? negative text = some (token, rest)) :
    rest <:+ text ∧ atBoundary rest = true ∧
      ((∃ n, token = .integer n ∧ fitsInt64 n = true) ∨ ∃ x, token = .number x) := by
  have hsuffix := (readFraction_suffix (text.dropWhile Char.isDigit)).trans
    (List.dropWhile_suffix _)
  unfold readDecimal? at h
  simp only at h
  split at h
  · cases h
  · rename_i hend
    have hboundary : atBoundary (readFraction (text.dropWhile Char.isDigit)).2 = true := by
      simp only [Bool.or_eq_true, not_or, Bool.not_eq_true', Bool.not_eq_false] at hend
      exact hend.2
    split at h
    · rename_i hvalue
      cases h
      exact ⟨hsuffix, hboundary, .inl ⟨_, rfl, (Bool.and_eq_true_iff.mp hvalue).2⟩⟩
    · cases h
      exact ⟨hsuffix, hboundary, .inr ⟨_, rfl⟩⟩

/-- A number is an integer that fits, or it is not one. -/
theorem readNumber?_eq_some {text : List Char} {token : Token}
    (h : readNumber? text = some (token, rest)) : rest <:+ text ∧ atBoundary rest = true ∧
      ((∃ n, token = .integer n ∧ fitsInt64 n = true) ∨ ∃ x, token = .number x) := by
  by_cases hsign : ∃ more, text = '-' :: more
  · obtain ⟨more, rfl⟩ := hsign
    rw [readNumber?_minus] at h
    obtain ⟨hsuffix, hboundary, htoken⟩ := readDecimal?_eq_some h
    exact ⟨hsuffix.trans (List.suffix_cons _ _), hboundary, htoken⟩
  · rw [readNumber?_of_unsigned (not_exists.mp hsign)] at h
    exact readDecimal?_eq_some h

/-! ### Tokens of runs -/

/-- What a run is read as if it is no date. -/
def readRun (run : List Char) : Token × List Char :=
  (readRelative? run <|> readNumber? run).getD (keywordOrWord run, [])

theorem readToken_run {c : Char} {more : List Char} (hrun : IsRun (c :: more))
    (hrest : atBoundary rest = true) (hdate : readDate? (c :: (more ++ rest)) = none) :
    readToken c (more ++ rest)
      = .ok ((readRun (c :: more)).1, (readRun (c :: more)).2 ++ rest) := by
  have hc : isWordChar c = true := hrun c List.mem_cons_self
  have hquote : c ≠ '\x22' := ne_of_isWordChar hc (by decide)
  have hrelative := readRelative?_append hrest (c :: more)
  have hnumber := readNumber?_append hrest (c :: more)
  have hword := readWord?_append hrest hrun (List.cons_ne_nil c more)
  rw [List.cons_append] at hrelative hnumber hword
  unfold readToken readRun
  simp only [beq_iff_eq, hquote, if_false, hdate, hrelative, hnumber, hword,
    readOperator?_of_isWordChar hc, readPunctuation?_of_isWordChar hc]
  cases readRelative? (c :: more) with
  | some found => rfl
  | none => cases readNumber? (c :: more) <;> rfl

/-- A run is read whole. -/
theorem readRun_snd {run : List Char} (hrun : IsRun run) : (readRun run).2 = [] := by
  have hend : ∀ left, left <:+ run → atBoundary left = true → left = [] := by
    intro left hsuffix hboundary
    cases left with
    | nil => rfl
    | cons c more =>
        rw [atBoundary, hrun c (hsuffix.subset List.mem_cons_self)] at hboundary
        cases hboundary
  unfold readRun
  cases hrelative : readRelative? run with
  | some found =>
      obtain ⟨hsuffix, hboundary, -⟩ := readRelative?_eq_some hrelative
      exact hend _ hsuffix hboundary
  | none =>
      cases hnumber : readNumber? run with
      | some found =>
          obtain ⟨hsuffix, hboundary, -⟩ := readNumber?_eq_some hnumber
          exact hend _ hsuffix hboundary
      | none => rfl

end DocIndex.Query.Lexer
