/-
A query is blanks and pieces in turns.

Each token is read from a piece of the text, which begins where the token is placed, and between
the pieces are blanks only.  A piece does not depend on what stands behind it.  A sign is as long
as it is because of its own characters, a phrase ends with its quote, and a word, a number and a
relative time are whole runs of word characters.

Only the clock of a date may go on behind its run, with a colon.  It is read as far as it goes,
part by part, and the text behind it may have decided that a part is not read.  That text does
not begin with a word character, and only the colons of a clock are none: a part that is not read
because of it is not read either where the text ends.  So each piece is read as the same token
where nothing stands around it.
-/
import DocIndex.Proofs.Query.Backslashes

namespace DocIndex.Query

open Text (Blank readMark? readDigits? readMark?_eq_some)

namespace Lexer

variable {front tail text rest : List Char} {token : Token} {c : Char}

/-! ### Dates in front of other text -/

/-- Reads hours and minutes with a colon between them. -/
def readPair? (text : List Char) : Option ((Nat × Nat) × List Char) := do
  let (hours, rest) ← readDigits? 2 2 text
  let rest ← readMark? ':' rest
  let (minutes, rest) ← readDigits? 2 2 rest
  return ((hours, minutes), rest)

theorem readPair?_eq_some {hours minutes : Nat} :
    readPair? text = some ((hours, minutes), rest) ↔ ∃ after,
      readDigits? 2 2 text = some (hours, ':' :: after) ∧
        readDigits? 2 2 after = some (minutes, rest) := by
  simp only [readPair?, Option.bind_eq_bind, Option.bind_eq_some_iff, Prod.exists,
    readMark?_eq_some, Option.pure_def, Option.some.injEq, Prod.mk.injEq]
  constructor
  · rintro ⟨_, _, hhours, after, rfl, _, _, hminutes, ⟨rfl, rfl⟩, rfl⟩
    exact ⟨after, hhours, hminutes⟩
  · rintro ⟨after, hhours, hminutes⟩
    exact ⟨_, _, hhours, after, rfl, _, _, hminutes, ⟨rfl, rfl⟩, rfl⟩

/-- The seconds of an offset with its sign. -/
def zoneSeconds (sign : Char) (pair : Nat × Nat) : Int :=
  let seconds : Int := (pair.1 * 3600 + pair.2 * 60 : Nat)
  if sign == '-' then -seconds else seconds

theorem readOffset_sign (hsign : c = '+' ∨ c = '-') (text : List Char) :
    readOffset (c :: text) = ((readPair? text).map fun found =>
      (zoneSeconds c found.1, found.2)).getD (0, c :: text) := by
  have hutc : (c == 'Z') = false := by rcases hsign with rfl | rfl <;> rfl
  have hany : (c == '+' || c == '-') = true := by rcases hsign with rfl | rfl <;> rfl
  simp only [readOffset, hutc, hany, Bool.false_eq_true, if_false, if_true, readPair?,
    Option.bind_eq_bind]
  cases readDigits? 2 2 text with
  | none => rfl
  | some found =>
      simp only [Option.bind_some]
      cases readMark? ':' found.2 with
      | none => rfl
      | some after =>
          simp only [Option.bind_some]
          cases readDigits? 2 2 after <;> rfl

theorem readOffset_none (hutc : c ≠ 'Z') (hplus : c ≠ '+') (hminus : c ≠ '-')
    (text : List Char) : readOffset (c :: text) = (0, c :: text) := by
  simp [readOffset, hutc, hplus, hminus]

theorem readClock_letter (text : List Char) :
    readClock ('T' :: text) = ((readPair? text).map fun found =>
      ((some (found.1.1, found.1.2, (readSeconds found.2).1),
        (readOffset (readSeconds found.2).2).1), (readOffset (readSeconds found.2).2).2)).getD
        ((none, 0), 'T' :: text) := by
  simp only [readClock, Text.readMark?_self, readPair?, Option.bind_eq_bind, Option.bind_some]
  cases readDigits? 2 2 text with
  | none => rfl
  | some found =>
      simp only [Option.bind_some]
      cases readMark? ':' found.2 with
      | none => rfl
      | some after =>
          simp only [Option.bind_some]
          cases readDigits? 2 2 after <;> rfl

theorem readClock_none (hc : c ≠ 'T') (text : List Char) :
    readClock (c :: text) = ((none, 0), c :: text) := by
  simp [readClock, readMark?, hc]

theorem readSeconds_of_ne (hc : c ≠ ':') (text : List Char) :
    readSeconds (c :: text) = ((0, []), c :: text) := by
  simp [readSeconds, readMark?, hc]

/-- What stands behind has no part in what is read in front, or some of it is taken. -/
def SameInFront {α : Type} (read : List Char → α × List Char) (front rest : List Char) : Prop :=
  read (front ++ rest) = ((read front).1, (read front).2 ++ rest) ∨
    (read (front ++ rest)).2.length < rest.length

section Boundary

variable (hrest : atBoundary rest = true)

include hrest

/-- Hours and minutes stay in front of the end of a run, or their colon stands behind it. -/
theorem readPair?_append (front : List Char) :
    readPair? (front ++ rest) = (readPair? front).map (fun found => (found.1, found.2 ++ rest)) ∨
      ∃ pair left, readPair? (front ++ rest) = some (pair, left) ∧ left.length < rest.length := by
  simp only [readPair?, readDigits?_append hrest, Option.bind_eq_bind]
  cases readDigits? 2 2 front with
  | none => exact .inl rfl
  | some found =>
      obtain ⟨hours, left⟩ := found
      simp only [Option.map_some, Option.bind_some]
      cases left with
      | nil =>
          rw [List.nil_append]
          cases hcolon : readMark? ':' rest with
          | none => exact .inl rfl
          | some after =>
              obtain rfl := readMark?_eq_some.mp hcolon
              cases hminutes : readDigits? 2 2 after with
              | none => exact .inl (by simp [hminutes, readMark?])
              | some found =>
                  refine .inr ⟨_, found.2, by simp [hminutes]; rfl, ?_⟩
                  have hlength := (readDigits?_suffix hminutes).length_le
                  rw [List.length_cons]
                  omega
      | cons d more =>
          rw [List.cons_append]
          by_cases hd : d = ':'
          · subst hd
            simp only [Text.readMark?_self, Option.bind_some, readDigits?_append hrest]
            left
            cases readDigits? 2 2 more <;> rfl
          · left
            simp [readMark?, hd]

/-- Seconds, too. -/
theorem readSeconds_append (front : List Char) :
    SameInFront readSeconds front rest := by
  cases front with
  | nil =>
      cases rest with
      | nil => exact .inl rfl
      | cons c more =>
          by_cases hc : c = ':'
          · subst hc
            cases hsecond : readDigits? 2 2 more with
            | none => exact .inl (readSeconds_none hsecond)
            | some found =>
                right
                have hlength := ((readFraction_suffix found.2).trans
                  (readDigits?_suffix hsecond)).length_le
                rw [List.nil_append, readSeconds_second hsecond, List.length_cons]
                exact Nat.lt_succ_of_le hlength
          · exact .inl (readSeconds_of_ne hc more)
  | cons c more =>
      left
      rw [List.cons_append]
      by_cases hc : c = ':'
      · subst hc
        have happend := readDigits?_append hrest 2 2 more
        cases hsecond : readDigits? 2 2 more with
        | none =>
            rw [readSeconds_none (by rw [happend, hsecond]; rfl), readSeconds_none hsecond]
            rfl
        | some found =>
            rw [readSeconds_second (by rw [happend, hsecond]; rfl), readFraction_append hrest,
              readSeconds_second hsecond]
      · rw [readSeconds_of_ne hc, readSeconds_of_ne hc]
        rfl

theorem readOffset_append (front : List Char) : SameInFront readOffset front rest := by
  cases front with
  | nil =>
      left
      cases rest with
      | nil => rfl
      | cons c more =>
          have hne : ∀ {d : Char}, isWordChar d = true → c ≠ d := fun hd heq =>
            ne_cons_of_atBoundary hrest hd more (congrArg (· :: more) heq)
          exact readOffset_none (hne (by decide)) (hne (by decide)) (hne (by decide)) more
  | cons c more =>
      rw [SameInFront, List.cons_append]
      by_cases hutc : c = 'Z'
      · subst hutc
        exact .inl rfl
      by_cases hsign : c = '+' ∨ c = '-'
      · rw [readOffset_sign hsign, readOffset_sign hsign]
        rcases readPair?_append hrest more with heq | ⟨pair, left, heq, hlength⟩
        · left
          rw [heq]
          cases readPair? more <;> rfl
        · right
          rw [heq]
          exact hlength
      · obtain ⟨hplus, hminus⟩ := not_or.mp hsign
        rw [readOffset_none hutc hplus hminus, readOffset_none hutc hplus hminus]
        exact .inl rfl

theorem readClock_append (front : List Char) : SameInFront readClock front rest := by
  cases front with
  | nil => exact .inl (readClock_of_atBoundary hrest)
  | cons c more =>
      rw [SameInFront, List.cons_append]
      by_cases hc : c = 'T'
      · subst hc
        rw [readClock_letter, readClock_letter]
        rcases readPair?_append hrest more with heq | ⟨pair, left, heq, hlength⟩
        · rw [heq]
          cases readPair? more with
          | none => exact .inl rfl
          | some found =>
              simp only [Option.map_some, Option.getD_some]
              rcases readSeconds_append hrest found.2 with hseconds | hpast
              · rw [hseconds]
                rcases readOffset_append hrest (readSeconds found.2).2 with hoffset | hpast
                · rw [hoffset]
                  exact .inl rfl
                · exact .inr hpast
              · exact .inr ((readOffset_suffix _).length_le.trans_lt hpast)
        · right
          rw [heq]
          exact ((readOffset_suffix _).trans (readSeconds_suffix _)).length_le.trans_lt hlength
      · rw [readClock_none hc, readClock_none hc]
        exact .inl rfl

/-- **A date is read as the same date where the text ends behind it.** -/
theorem readDate?_cut (h : readDate? (front ++ rest) = some (token, rest)) :
    readDate? front = some (token, []) := by
  obtain ⟨literal, hliteral, hend, htoken⟩ := readDate?_eq_some.mp h
  obtain ⟨year, _, month, _, day, _, hyears, hmonths, hdays, rfl, hleft⟩ :=
    readDateLiteral?_eq_some.mp hliteral
  obtain ⟨months, rfl, hyear⟩ := exists_readDigits?_mark hrest (by decide) hyears
  obtain ⟨days, rfl, hmonth⟩ := exists_readDigits?_mark hrest (by decide) hmonths
  obtain ⟨clock, rfl, hday⟩ := exists_readDigits? hrest hdays
  rcases readClock_append hrest clock with hclock | hpast
  · rw [hclock] at hleft htoken
    have hnil : (readClock clock).2 = [] := by simpa using hleft
    exact readDate?_eq_some.mpr ⟨_, readDateLiteral?_eq_some.mpr
      ⟨year, months, month, days, day, clock, hyear, hmonth, hday, rfl, hnil.symm⟩, rfl, htoken⟩
  · rw [← hleft] at hpast
    exact absurd hpast (Nat.lt_irrefl _)

end Boundary

/-! ### Pieces without blanks -/

/-- No blanks. -/
def Solid (text : List Char) : Prop := ∀ c ∈ text, Text.isBlank c = false

/-- A text that goes on with another one, without blanks before. -/
def Passes (text rest : List Char) : Prop := ∃ front, Solid front ∧ text = front ++ rest

theorem Passes.refl (text : List Char) : Passes text text := ⟨[], nofun, rfl⟩

theorem Passes.trans (h : Passes text tail) (hrest : Passes tail rest) : Passes text rest := by
  obtain ⟨first, hfirst, rfl⟩ := h
  obtain ⟨second, hsecond, rfl⟩ := hrest
  exact ⟨first ++ second, fun c hc => (List.mem_append.mp hc).elim (hfirst c) (hsecond c),
    (List.append_assoc ..).symm⟩

theorem Passes.cons (hc : Text.isBlank c = false) (h : Passes text rest) :
    Passes (c :: text) rest := by
  obtain ⟨front, hfront, rfl⟩ := h
  exact ⟨c :: front, List.forall_mem_cons.mpr ⟨hc, hfront⟩, rfl⟩

theorem Passes.solid (h : Passes (front ++ rest) rest) : Solid front := by
  obtain ⟨other, hother, heq⟩ := h
  rwa [List.append_cancel_right heq]

theorem solid_takeWhile_isDigit (text : List Char) : Solid (text.takeWhile Char.isDigit) :=
  fun c hc => Text.isBlank_of_isDigit (List.all_eq_true.mp List.all_takeWhile c hc)

theorem readDigits?_passes {least most n : Nat}
    (h : readDigits? least most text = some (n, rest)) : Passes text rest := by
  unfold readDigits? at h
  simp only at h
  split at h
  · cases h
  · obtain ⟨-, rfl⟩ := Prod.mk.inj (Option.some.inj h)
    have hfront : (text.take most).takeWhile Char.isDigit <+: text :=
      (List.takeWhile_prefix _).trans (List.take_prefix _ _)
    exact ⟨_, solid_takeWhile_isDigit _, (List.prefix_iff_eq_append.mp hfront).symm⟩

theorem readFraction_passes (text : List Char) : Passes text (readFraction text).2 := by
  unfold readFraction
  split
  · rename_i more
    simp only
    split
    · exact Passes.refl _
    · exact Passes.cons (by decide)
        ⟨_, solid_takeWhile_isDigit more, List.takeWhile_append_dropWhile.symm⟩
  · exact Passes.refl _

theorem readPair?_passes {pair : Nat × Nat} (h : readPair? text = some (pair, rest)) :
    Passes text rest := by
  obtain ⟨after, hhours, hminutes⟩ := readPair?_eq_some.mp h
  exact (readDigits?_passes hhours).trans (Passes.cons (by decide) (readDigits?_passes hminutes))

theorem readSeconds_passes (text : List Char) : Passes text (readSeconds text).2 := by
  cases hcolon : readMark? ':' text with
  | none =>
      rw [show readSeconds text = ((0, []), text) by simp [readSeconds, hcolon]]
      exact Passes.refl _
  | some more =>
      obtain rfl := readMark?_eq_some.mp hcolon
      cases hsecond : readDigits? 2 2 more with
      | none =>
          rw [readSeconds_none hsecond]
          exact Passes.refl _
      | some found =>
          rw [readSeconds_second hsecond]
          exact Passes.cons (by decide)
            ((readDigits?_passes hsecond).trans (readFraction_passes _))

theorem readOffset_passes (text : List Char) : Passes text (readOffset text).2 := by
  cases text with
  | nil => exact Passes.refl _
  | cons c more =>
      by_cases hutc : c = 'Z'
      · subst hutc
        exact Passes.cons (by decide) (Passes.refl _)
      by_cases hsign : c = '+' ∨ c = '-'
      · rw [readOffset_sign hsign]
        cases hpair : readPair? more with
        | none => exact Passes.refl _
        | some found =>
            exact Passes.cons (by rcases hsign with rfl | rfl <;> decide) (readPair?_passes hpair)
      · obtain ⟨hplus, hminus⟩ := not_or.mp hsign
        rw [readOffset_none hutc hplus hminus]
        exact Passes.refl _

theorem readClock_passes (text : List Char) : Passes text (readClock text).2 := by
  cases text with
  | nil => exact Passes.refl _
  | cons c more =>
      by_cases hc : c = 'T'
      · subst hc
        rw [readClock_letter]
        cases hpair : readPair? more with
        | none => exact Passes.refl _
        | some found =>
            exact Passes.cons (by decide) ((readPair?_passes hpair).trans
              ((readSeconds_passes _).trans (readOffset_passes _)))
      · rw [readClock_none hc]
        exact Passes.refl _

theorem readDate?_passes (h : readDate? text = some (token, rest)) : Passes text rest := by
  obtain ⟨literal, hliteral, -, -⟩ := readDate?_eq_some.mp h
  obtain ⟨year, months, month, days, day, clock, hyear, hmonth, hday, -, rfl⟩ :=
    readDateLiteral?_eq_some.mp hliteral
  have hdash : Text.isBlank '-' = false := by decide
  exact (readDigits?_passes hyear).trans (Passes.cons hdash ((readDigits?_passes hmonth).trans
    (Passes.cons hdash ((readDigits?_passes hday).trans (readClock_passes clock)))))

/-! ### Tokens alone -/

/-- A phrase ends with its quote, whatever stands behind it. -/
theorem readQuoted?_piece {phrase : List Char} (h : readQuoted? text = some (phrase, rest)) :
    ∃ more, text = more ++ rest ∧ readQuoted? more = some (phrase, []) := by
  induction text using readQuoted?.induct generalizing phrase with
  | case1 => cases h
  | case2 => cases h
  | case3 c others ih =>
      rw [readQuoted?] at h
      obtain ⟨⟨inner, left⟩, hinner, heq⟩ := Option.map_eq_some_iff.mp h
      cases heq
      obtain ⟨more, rfl, hmore⟩ := ih hinner
      refine ⟨'\\' :: c :: more, rfl, ?_⟩
      rw [readQuoted?, hmore]
      rfl
  | case4 c others hlast hescape hquote =>
      rw [readQuoted?, if_pos hquote] at h
      · cases h
        rw [beq_iff_eq.mp hquote]
        exact ⟨['\x22'], rfl, rfl⟩
      · exact hlast
      · exact hescape
  | case5 c others hlast hescape hquote ih =>
      have hback : c ≠ '\\' := by
        rintro rfl
        cases others with
        | nil => exact hlast rfl rfl
        | cons d more => exact hescape d more rfl rfl
      have hstep : ∀ text, readQuoted? (c :: text)
          = (readQuoted? text).map fun read => (c :: read.1, read.2) := by
        intro text
        rw [readQuoted?, if_neg hquote]
        · exact fun heq => absurd heq hback
        · exact fun _ _ heq => absurd heq hback
      rw [hstep] at h
      obtain ⟨⟨inner, left⟩, hinner, heq⟩ := Option.map_eq_some_iff.mp h
      cases heq
      obtain ⟨more, rfl, hmore⟩ := ih hinner
      refine ⟨c :: more, rfl, ?_⟩
      rw [hstep, hmore]
      rfl

/-- An operator or punctuation mark is as long as it is because of its own characters. -/
theorem readSign_piece
    (h : (readOperator? (c :: text) <|> readPunctuation? (c :: text)) = some (token, rest)) :
    ∃ more, text = more ++ rest ∧ (more = [] ∨ more = ['='] ∨ more = ['~']) ∧
      (readOperator? (c :: more) <|> readPunctuation? (c :: more)) = some (token, []) := by
  cases hoperator : readOperator? (c :: text) with
  | some found =>
      rw [hoperator] at h
      cases h
      unfold readOperator? at hoperator
      split at hoperator <;> rename_i heq <;> cases hoperator <;> cases heq <;> first
        | exact ⟨[], rfl, .inl rfl, rfl⟩
        | exact ⟨['='], rfl, .inr (.inl rfl), rfl⟩
        | exact ⟨['~'], rfl, .inr (.inr rfl), rfl⟩
  | none =>
      rw [hoperator] at h
      have hpunctuation : readPunctuation? (c :: text) = some (token, rest) := h
      unfold readPunctuation? at hpunctuation
      split at hpunctuation <;> rename_i heq <;> cases hpunctuation <;> cases heq <;>
        exact ⟨[], rfl, .inl rfl, rfl⟩

theorem readToken_quote (h : readToken '\x22' text = .ok (token, rest)) :
    ∃ more phrase, text = more ++ rest ∧ token = .quoted phrase ∧
      readToken '\x22' more = .ok (token, []) := by
  unfold readToken at h
  simp only [beq_self_eq_true, if_true] at h
  split at h
  · rename_i phrase left hquoted
    cases h
    obtain ⟨more, htext, hmore⟩ := readQuoted?_piece hquoted
    refine ⟨more, _, htext, rfl, ?_⟩
    simp [readToken, hmore]
  · cases h

theorem readToken_date (hquote : c ≠ '\x22') {found : Token × List Char}
    (h : readDate? (c :: text) = some found) : readToken c text = .ok found := by
  simp [readToken, hquote, h]

/-- A word, a number or a relative time is a whole run, and a date is one or goes on behind it. -/
theorem readToken_word (hc : isWordChar c = true) (h : readToken c text = .ok (token, rest)) :
    ∃ more, text = more ++ rest ∧ Solid (c :: more) ∧ readToken c more = .ok (token, []) := by
  have hquote : c ≠ '\x22' := ne_of_isWordChar hc (by decide)
  cases hdate : readDate? (c :: text) with
  | some found =>
      rw [readToken_date hquote hdate] at h
      cases h
      obtain ⟨more, rfl⟩ := readDate?_suffix hdate
      obtain ⟨-, -, hrest, -⟩ := readDate?_eq_some.mp hdate
      rw [← List.cons_append] at hdate
      exact ⟨more, rfl, (readDate?_passes hdate).solid,
        readToken_date hquote (readDate?_cut hrest hdate)⟩
  | none =>
      obtain ⟨more, rfl, hrun, hrest, rfl⟩ := exists_run hc hdate h
      have hnone : readDate? ((c :: more) ++ []) = none := readDate?_eq_none hrun hrest hdate nofun
      have halone := readToken_run hrun rfl hnone
      rw [List.append_nil, readRun_snd hrun, List.append_nil] at halone
      exact ⟨more, rfl, fun d hd => isBlank_of_isWordChar (hrun d hd), halone⟩

/--
**A token is read from its piece alone.**  The text is the piece and what is left, the token is
read from the piece where nothing stands behind it, and only a phrase has blanks.
-/
theorem readToken_piece (hblank : Text.isBlank c = false)
    (h : readToken c text = .ok (token, rest)) :
    ∃ more, text = more ++ rest ∧ readToken c more = .ok (token, []) ∧
      ((∀ phrase, token ≠ .quoted phrase) → Solid (c :: more)) := by
  by_cases hquote : c = '\x22'
  · subst hquote
    obtain ⟨more, phrase, htext, hphrase, halone⟩ := readToken_quote h
    exact ⟨more, htext, halone, fun hno => absurd hphrase (hno phrase)⟩
  cases hc : isWordChar c with
  | true =>
      obtain ⟨more, htext, hsolid, halone⟩ := readToken_word hc h
      exact ⟨more, htext, halone, fun _ => hsolid⟩
  | false =>
      rw [readToken_sign hc hquote] at h
      split at h
      · rename_i found hsign
        cases h
        obtain ⟨more, htext, hmore, halone⟩ := readSign_piece hsign
        refine ⟨more, htext, ?_, fun _ => List.forall_mem_cons.mpr ⟨hblank, ?_⟩⟩
        · rw [readToken_sign hc hquote, halone]
        · rcases hmore with rfl | rfl | rfl
          · exact List.forall_mem_nil _
          · exact List.forall_mem_singleton.mpr (by decide)
          · exact List.forall_mem_singleton.mpr (by decide)
      · cases h

end Lexer

/-! ### Texts in pieces -/

/-- A piece of a text, the token that is read from it, and the number of characters before it. -/
structure Piece where
  position : Nat
  chars : List Char
  token : Token

namespace Piece

def placed (p : Piece) : PlacedToken := ⟨p.token, p.position⟩

/-- Whether a character of the text, by its number, is one of the piece. -/
def Covers (p : Piece) (i : Nat) : Prop := p.position ≤ i ∧ i < p.position + p.chars.length

/-- The piece stands at its place, begins with no blank, and is what is read for its token. -/
def ReadIn (p : Piece) (text : List Char) : Prop :=
  ∃ c more rest, p.chars = c :: more ∧ Text.isBlank c = false ∧
    text.drop p.position = c :: (more ++ rest) ∧
    Lexer.readToken c (more ++ rest) = .ok (p.token, rest)

/-- The rest of a text, behind as many characters, is blanks and the pieces in turns. -/
def Alternate (position : Nat) (text : List Char) : List Piece → Prop
  | [] => Blank text
  | p :: pieces => ∃ gap rest, Blank gap ∧ text = gap ++ (p.chars ++ rest) ∧
      p.position = position + gap.length ∧ Alternate (p.position + p.chars.length) rest pieces

end Piece

namespace Lexer

/-- How the rest of a text is cut into pieces, with one case for each step through the text. -/
inductive Parted : Nat → List Char → List Piece → Prop where
  | done {position : Nat} : Parted position [] []
  | blank {position : Nat} {c : Char} {text : List Char} {pieces : List Piece}
      (hc : Text.isBlank c = true) (h : Parted (position + 1) text pieces) :
      Parted position (c :: text) pieces
  | piece {position : Nat} {c : Char} {more rest : List Char} {token : Token}
      {pieces : List Piece} (hc : Text.isBlank c = false)
      (hread : readToken c (more ++ rest) = .ok (token, rest))
      (h : Parted (position + (c :: more).length) rest pieces) :
      Parted position (c :: (more ++ rest)) (⟨position, c :: more, token⟩ :: pieces)

variable {position pending : Nat} {pieces : List Piece} {tokens : List PlacedToken}

/-- What is scanned without an error is cut into the pieces of its tokens. -/
theorem parted_of_scan (h : scan position pending text = .ok tokens)
    (hpending : pending ≤ text.length) : ∃ pieces, pieces.map Piece.placed = tokens ∧
      Parted (position + pending) (text.drop pending) pieces := by
  induction text generalizing position pending tokens with
  | nil =>
      cases h
      exact ⟨[], rfl, by rw [List.drop_nil]; exact .done⟩
  | cons c text ih =>
      cases pending with
      | succ pending =>
          obtain ⟨pieces, hplaced, hpieces⟩ := ih h (Nat.le_of_succ_le_succ hpending)
          rw [Nat.add_right_comm] at hpieces
          exact ⟨pieces, hplaced, hpieces⟩
      | zero =>
          rw [scan] at h
          split at h
          · rename_i hc
            obtain ⟨pieces, hplaced, hpieces⟩ := ih h (Nat.zero_le _)
            exact ⟨pieces, hplaced, .blank hc hpieces⟩
          · rename_i hblank
            rw [Bool.not_eq_true] at hblank
            split at h
            · cases h
            · rename_i token rest hread
              obtain ⟨others, hothers, h⟩ := bind_eq_ok.mp h
              cases h
              obtain ⟨more, rfl, -⟩ := readToken_piece hblank hread
              obtain ⟨pieces, hplaced, hpieces⟩ := ih hothers (Nat.sub_le _ _)
              rw [List.length_append, Nat.add_sub_cancel, List.drop_left, Nat.add_assoc,
                Nat.add_comm 1] at hpieces
              exact ⟨⟨position, c :: more, token⟩ :: pieces, by rw [List.map_cons, hplaced]; rfl,
                .piece hblank hread hpieces⟩

namespace Parted

variable (h : Parted position text pieces)

include h

theorem alternate : Piece.Alternate position text pieces := by
  induction h with
  | done => exact nofun
  | @blank position c text pieces hc _ ih =>
      cases pieces with
      | nil => exact List.forall_mem_cons.mpr ⟨hc, ih⟩
      | cons p pieces =>
          obtain ⟨gap, rest, hgap, rfl, hplace, hrest⟩ := ih
          refine ⟨c :: gap, rest, List.forall_mem_cons.mpr ⟨hc, hgap⟩, rfl, ?_, hrest⟩
          rw [hplace, List.length_cons]
          omega
  | piece hc hread _ ih => exact ⟨[], _, nofun, rfl, rfl, ih⟩

theorem position_le : ∀ p ∈ pieces, position ≤ p.position := by
  induction h with
  | done => exact nofun
  | blank _ _ ih => exact fun p hp => Nat.le_of_succ_le (ih p hp)
  | piece _ _ _ ih =>
      refine List.forall_mem_cons.mpr ⟨Nat.le_refl _, fun p hp => ?_⟩
      exact (Nat.le_add_right _ _).trans (ih p hp)

theorem increasing : (pieces.map Piece.position).Pairwise (· < ·) := by
  induction h with
  | done => exact List.Pairwise.nil
  | blank _ _ ih => exact ih
  | @piece position c more _ _ _ _ _ hrest ih =>
      refine List.pairwise_cons.mpr ⟨fun place hplace => ?_, ih⟩
      obtain ⟨p, hp, rfl⟩ := List.mem_map.mp hplace
      exact Nat.lt_of_lt_of_le (Nat.lt_add_of_pos_right (Nat.zero_lt_succ more.length))
        (hrest.position_le p hp)

theorem readIn {before : List Char} (hbefore : before.length = position) :
    ∀ p ∈ pieces, p.ReadIn (before ++ text) := by
  induction h generalizing before with
  | done => exact nofun
  | @blank position c text pieces _ _ ih =>
      have hall := @ih (before ++ [c]) (by rw [List.length_append, hbefore]; rfl)
      rwa [List.append_assoc] at hall
  | @piece position c more rest token pieces hc hread _ ih =>
      have hall := @ih (before ++ c :: more) (by rw [List.length_append, hbefore])
      rw [List.append_assoc] at hall
      refine List.forall_mem_cons.mpr ⟨⟨c, more, rest, rfl, hc, ?_, hread⟩, hall⟩
      rw [← hbefore, List.drop_left]

/-- Each character that is no blank is in one piece. -/
theorem once {i : Nat} {d : Char} (hi : text[i]? = some d) (hd : Text.isBlank d = false) :
    ∃! p, p ∈ pieces ∧ p.Covers (position + i) := by
  induction h generalizing i with
  | done => cases hi
  | @blank position c text pieces hc _ ih =>
      cases i with
      | zero =>
          obtain rfl := Option.some.inj hi
          rw [hc] at hd
          cases hd
      | succ i =>
          rw [← Nat.add_assoc, Nat.add_right_comm]
          exact ih hi
  | @piece position c more rest token pieces hc hread hrest ih =>
      by_cases hfirst : i < (c :: more).length
      · refine ⟨_, ⟨List.mem_cons_self, Nat.le_add_right _ _, Nat.add_lt_add_left hfirst _⟩, ?_⟩
        rintro p ⟨hp, hcovers⟩
        rcases List.mem_cons.mp hp with rfl | hp
        · rfl
        · exact absurd ((hrest.position_le p hp).trans hcovers.1) (by omega)
      · rw [← List.cons_append, List.getElem?_append_right (Nat.not_lt.mp hfirst)] at hi
        obtain ⟨p, ⟨hp, hcovers⟩, hunique⟩ := ih hi
        rw [Nat.add_assoc, Nat.add_sub_cancel' (Nat.not_lt.mp hfirst)] at hcovers hunique
        refine ⟨p, ⟨List.mem_cons_of_mem _ hp, hcovers⟩, ?_⟩
        rintro q ⟨hq, hother⟩
        rcases List.mem_cons.mp hq with rfl | hq
        · exact absurd (Nat.add_lt_add_iff_left.mp hother.2) hfirst
        · exact hunique q ⟨hq, hother⟩

end Parted

end Lexer

/-- A piece is read as the same token alone, and without blanks in it if it is no phrase. -/
theorem Piece.ReadIn.alone {p : Piece} {text : List Char} (h : p.ReadIn text) :
    tokenize (String.ofList p.chars) = .ok [⟨p.token, 0⟩] ∧
      ((∀ phrase, p.token ≠ .quoted phrase) → Lexer.Solid p.chars) := by
  obtain ⟨c, more, rest, hchars, hc, -, hread⟩ := h
  obtain ⟨front, htext, halone, hsolid⟩ := Lexer.readToken_piece hc hread
  obtain rfl := List.append_cancel_right htext
  rw [hchars]
  refine ⟨?_, hsolid⟩
  rw [tokenize, String.toList_ofList]
  rw [← List.append_nil more] at halone ⊢
  exact Lexer.scan_token more hc halone rfl

/-- What the tokens of a text have to do with the text. -/
structure IsPartition (text : List Char) (tokens : List PlacedToken) (pieces : List Piece) :
    Prop where
  placed : pieces.map Piece.placed = tokens
  /-- The text is blanks and pieces in turns, and nothing else. -/
  alternate : Piece.Alternate 0 text pieces
  increasing : (tokens.map PlacedToken.position).Pairwise (· < ·)
  /-- Each piece stands where its token is placed, and its token was read from it. -/
  readIn : ∀ p ∈ pieces, p.ReadIn text
  /-- A character that is no blank is in one piece and no other. -/
  once : ∀ i c, text[i]? = some c → Text.isBlank c = false → ∃! p, p ∈ pieces ∧ p.Covers i
  /-- Blanks are in phrases only. -/
  solid : ∀ p ∈ pieces, (∀ phrase, p.token ≠ .quoted phrase) → Lexer.Solid p.chars
  /-- Each piece is the same single token where it is the whole text. -/
  alone : ∀ p ∈ pieces, tokenize (String.ofList p.chars) = .ok [⟨p.token, 0⟩]

/--
**A text that is read as tokens is blanks and their pieces in turns.**  The tokens are placed at
the beginnings of their pieces, in order; every character that is no blank is in one piece; and
each piece is the same token alone, so that what a token is depends on nothing around it.
-/
theorem tokenize_isPartition {text : String} {tokens : List PlacedToken}
    (h : tokenize text = .ok tokens) : ∃ pieces, IsPartition text.toList tokens pieces := by
  obtain ⟨pieces, rfl, hparted⟩ := Lexer.parted_of_scan h (Nat.zero_le _)
  have hread : ∀ p ∈ pieces, p.ReadIn text.toList := hparted.readIn List.length_nil
  refine ⟨pieces, ⟨rfl, hparted.alternate, ?_, hread, fun i c hi hc => ?_,
    fun p hp => (hread p hp).alone.2, fun p hp => (hread p hp).alone.1⟩⟩
  · rw [List.map_map]
    exact hparted.increasing
  · simpa only [Nat.zero_add] using hparted.once hi hc

/-- A date whose clock goes on behind a colon, one that does not exist, and a phrase with blanks. -/
def datedText : String := "at:2014-09-10T11:30Z  NOT on:2014-13-01 \x22a b\x22"

def datedTokens : List PlacedToken :=
  [⟨.word "at", 0⟩, ⟨.colon, 2⟩, ⟨.time ⟨1410348600, 0, 0⟩ .instant, 3⟩, ⟨.notWord, 22⟩,
    ⟨.word "on", 26⟩, ⟨.colon, 28⟩, ⟨.word "2014-13-01", 29⟩, ⟨.quoted "a b", 40⟩]

theorem tokenize_isPartition_dated : tokenize datedText = .ok datedTokens ∧
    ∃ pieces, IsPartition datedText.toList datedTokens pieces := by
  have htokens : tokenize datedText = .ok datedTokens := by decide +kernel
  exact ⟨htokens, tokenize_isPartition htokens⟩

end DocIndex.Query
