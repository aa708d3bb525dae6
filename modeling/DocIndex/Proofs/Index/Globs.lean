/-
Wildcard patterns as globs and as regular expressions.

In the glob sense a star stands for any characters, a question mark for one character and every
other character for itself.  A pattern is written out as a regular expression between anchors, in
which a full stop takes the place of a wildcard.  A full stop stands for no line feed, so a text
fits a pattern exactly if it fits the glob without a wildcard standing for a line feed.  Since
every line feed of the glob stands for one in the text, this is so exactly if the text has as many
of them as the glob.
-/
import Mathlib.Tactic.Common
import DocIndex.Index.Pattern

namespace DocIndex

/-! ### Globs -/

/--
A text fits a glob.  A star stands for characters of a kind, as many as there may be, a question
mark for one of them, and every other character for itself.
-/
inductive Globs (kind : Char → Prop) : List Char → List Char → Prop
  | nil : Globs kind [] []
  | star {glob text : List Char} (run : List Char) (hrun : ∀ c ∈ run, kind c)
    (h : Globs kind glob text) : Globs kind ('*' :: glob) (run ++ text)
  | mark {glob text : List Char} {c : Char} (hc : kind c) (h : Globs kind glob text) :
    Globs kind ('?' :: glob) (c :: text)
  | self {glob text : List Char} {c : Char} (hstar : c ≠ '*') (hmark : c ≠ '?')
    (h : Globs kind glob text) : Globs kind (c :: glob) (c :: text)

/-- Any character. -/
def anyChar (_ : Char) : Prop := True

/-- Any character but a line feed. -/
def onLine (c : Char) : Prop := c ≠ '\n'

namespace Globs

variable {kind : Char → Prop} {glob text : List Char}

theorem nil_iff : Globs kind [] text ↔ text = [] := by
  constructor
  · rintro ⟨⟩
    rfl
  · rintro rfl
    exact .nil

theorem star_iff : Globs kind ('*' :: glob) text ↔
    ∃ run rest, text = run ++ rest ∧ (∀ c ∈ run, kind c) ∧ Globs kind glob rest := by
  constructor
  · intro h
    cases h with
    | star run hrun h => exact ⟨run, _, rfl, hrun, h⟩
    | self hstar _ _ => exact absurd rfl hstar
  · rintro ⟨run, rest, rfl, hrun, h⟩
    exact .star run hrun h

theorem mark_iff : Globs kind ('?' :: glob) text ↔
    ∃ c rest, text = c :: rest ∧ kind c ∧ Globs kind glob rest := by
  constructor
  · intro h
    cases h with
    | mark hc h => exact ⟨_, _, rfl, hc, h⟩
    | self _ hmark _ => exact absurd rfl hmark
  · rintro ⟨c, rest, rfl, hc, h⟩
    exact .mark hc h

theorem self_iff {c : Char} (hstar : c ≠ '*') (hmark : c ≠ '?') :
    Globs kind (c :: glob) text ↔ ∃ rest, text = c :: rest ∧ Globs kind glob rest := by
  constructor
  · intro h
    cases h with
    | star _ _ _ => exact absurd rfl hstar
    | mark _ _ => exact absurd rfl hmark
    | self _ _ h => exact ⟨_, rfl, h⟩
  · rintro ⟨rest, rfl, h⟩
    exact .self hstar hmark h

/-- A glob without wildcards stands for itself alone. -/
theorem plain_iff (hstar : '*' ∉ glob) (hmark : '?' ∉ glob) : Globs kind glob text ↔ text = glob := by
  induction glob generalizing text with
  | nil => exact nil_iff
  | cons c rest ih =>
      rw [List.mem_cons, not_or] at hstar hmark
      rw [self_iff (Ne.symm hstar.1) (Ne.symm hmark.1)]
      simp only [ih hstar.2 hmark.2, exists_eq_right]

/-! ### Line feeds -/

/-- Every line feed of a glob stands for one in the text. -/
theorem count_le (h : Globs anyChar glob text) : glob.count '\n' ≤ text.count '\n' := by
  induction h with
  | nil => exact Nat.le_refl _
  | star run _ _ ih =>
      rw [List.count_cons_of_ne (by decide), List.count_append]
      omega
  | mark _ _ ih =>
      rw [List.count_cons_of_ne (by decide)]
      exact Nat.le_trans ih List.count_le_count_cons
  | self _ _ _ ih =>
      rw [List.count_cons, List.count_cons]
      omega

/-- If no wildcard stands for a line feed, then the text has no others. -/
theorem count_eq (h : Globs onLine glob text) : text.count '\n' = glob.count '\n' := by
  induction h with
  | nil => rfl
  | star run hrun _ ih =>
      have hnone : run.count '\n' = 0 := List.count_eq_zero.mpr fun hmem => hrun _ hmem rfl
      rw [List.count_append, hnone, List.count_cons_of_ne (by decide), Nat.zero_add, ih]
  | mark hc _ ih => rw [List.count_cons_of_ne hc, List.count_cons_of_ne (by decide), ih]
  | self _ _ _ ih => rw [List.count_cons, List.count_cons, ih]

theorem mono {other : Char → Prop} (h : Globs kind glob text) (hkind : ∀ c, kind c → other c) :
    Globs other glob text := by
  induction h with
  | nil => exact .nil
  | star run hrun _ ih => exact .star run (fun c hc => hkind c (hrun c hc)) ih
  | mark hc _ ih => exact .mark (hkind _ hc) ih
  | self hstar hmark _ ih => exact .self hstar hmark ih

/-- If the text has no other line feeds, then no wildcard stands for one. -/
theorem onLine_of_count (h : Globs anyChar glob text) (hcount : text.count '\n' = glob.count '\n') :
    Globs onLine glob text := by
  induction h with
  | nil => exact .nil
  | star run _ h ih =>
      have hle := h.count_le
      rw [List.count_cons_of_ne (by decide), List.count_append] at hcount
      have hnone : run.count '\n' = 0 := by omega
      refine .star run (fun c hc heq => ?_) (ih (by omega))
      exact List.count_eq_zero.mp hnone (heq ▸ hc)
  | @mark glob text c _ h ih =>
      have hle := h.count_le
      rw [List.count_cons, List.count_cons_of_ne (by decide : '?' ≠ '\n')] at hcount
      by_cases hc : c = '\n'
      · rw [if_pos (beq_iff_eq.mpr hc)] at hcount
        omega
      · rw [if_neg (mt beq_iff_eq.mp hc)] at hcount
        exact .mark hc (ih hcount)
  | self hstar hmark _ ih =>
      rw [List.count_cons, List.count_cons] at hcount
      exact .self hstar hmark (ih (by omega))

/-- **No wildcard stands for a line feed exactly if the text has no more of them than the glob.** -/
theorem onLine_iff : Globs onLine glob text ↔
    Globs anyChar glob text ∧ text.count '\n' = glob.count '\n' :=
  ⟨fun h => ⟨h.mono fun _ _ => trivial, h.count_eq⟩, fun h => h.1.onLine_of_count h.2⟩

end Globs

/-! ### Patterns -/

namespace Pattern

theorem isOpen_iff {c : Char} : isOpen c = true ↔ onLine c := bne_iff_ne

/-- The piece of a pattern that a character writes. -/
def pieceOf (c : Char) : PatternPiece :=
  if c == '*' then .anyText else if c == '?' then .anyChar else .literal c

theorem ofText_eq (text : String) : ofText text = text.toList.map pieceOf := rfl

theorem pieceOf_self {c : Char} (hstar : c ≠ '*') (hmark : c ≠ '?') : pieceOf c = .literal c := by
  rw [pieceOf, if_neg (mt beq_iff_eq.mp hstar), if_neg (mt beq_iff_eq.mp hmark)]

theorem fitsAfterAny_iff {rest : List Char → Bool} {text : List Char} :
    fitsAfterAny rest text = true ↔
      ∃ run tail, text = run ++ tail ∧ (∀ c ∈ run, onLine c) ∧ rest tail = true := by
  induction text with
  | nil =>
      rw [fitsAfterAny]
      constructor
      · exact fun h => ⟨[], [], rfl, List.forall_mem_nil _, h⟩
      · rintro ⟨run, tail, hsplit, -, h⟩
        obtain ⟨-, rfl⟩ := List.append_eq_nil_iff.mp hsplit.symm
        exact h
  | cons c text ih =>
      rw [fitsAfterAny, Bool.or_eq_true, Bool.and_eq_true, isOpen_iff, ih]
      constructor
      · rintro (h | ⟨hc, run, tail, rfl, hrun, h⟩)
        · exact ⟨[], c :: text, rfl, List.forall_mem_nil _, h⟩
        · exact ⟨c :: run, tail, rfl, List.forall_mem_cons.mpr ⟨hc, hrun⟩, h⟩
      · rintro ⟨run, tail, hsplit, hrun, h⟩
        cases run with
        | nil => exact Or.inl (hsplit ▸ h)
        | cons d run =>
            obtain ⟨rfl, rfl⟩ := List.cons.inj hsplit
            obtain ⟨hc, hrun⟩ := List.forall_mem_cons.mp hrun
            exact Or.inr ⟨hc, run, tail, rfl, hrun, h⟩

/-- **A text fits a pattern if it fits the glob and no wildcard stands for a line feed.** -/
theorem fits_iff_globs (glob text : List Char) :
    fits (glob.map pieceOf) text = true ↔ Globs onLine glob text := by
  induction glob generalizing text with
  | nil => rw [Globs.nil_iff, List.map_nil, fits, List.isEmpty_iff]
  | cons c glob ih =>
      rw [List.map_cons]
      by_cases hstar : c = '*'
      · subst hstar
        show fitsAfterAny (fits (glob.map pieceOf)) text = true ↔ _
        rw [fitsAfterAny_iff, Globs.star_iff]
        simp only [ih]
      by_cases hmark : c = '?'
      · subst hmark
        show fits (.anyChar :: glob.map pieceOf) text = true ↔ _
        rw [Globs.mark_iff]
        cases text with
        | nil => simp [fits]
        | cons d text =>
            rw [fits, Bool.and_eq_true, isOpen_iff, ih]
            simp
      · rw [pieceOf_self hstar hmark, Globs.self_iff hstar hmark]
        cases text with
        | nil => simp [fits]
        | cons d text =>
            rw [fits, Bool.and_eq_true, beq_iff_eq, ih]
            simp [and_comm, eq_comm]

end Pattern

/-! ### Regular expressions -/

/-- A part of a regular expression, as far as patterns need them. -/
inductive RegexPart where
  /-- The start of the text. -/
  | start
  /-- The end of the text. -/
  | stop
  /-- One character that is no line feed. -/
  | dot
  /-- Any number of characters, none of which is a line feed. -/
  | dots
  | char (c : Char)

namespace RegexPart

/-- The part that a character writes when nothing stands in front of it. -/
def ofChar? (c : Char) : Option RegexPart :=
  if c = '^' then some .start
  else if c = '$' then some .stop
  else if c = '.' then some .dot
  else if Pattern.regexMeta.contains c then none
  else some (.char c)

/--
Reads a regular expression: anchors, full stops, which may be repeated, and characters that stand
for themselves, behind a backslash if they would mean something else.  No other one is read.
-/
def readAll? : List Char → Option (List RegexPart)
  | [] => some []
  | '.' :: '*' :: rest => (readAll? rest).map (.dots :: ·)
  | '\\' :: c :: rest =>
    if Pattern.regexMeta.contains c then (readAll? rest).map (.char c :: ·) else none
  | c :: rest => (ofChar? c).bind fun part => (readAll? rest).map (part :: ·)

/-- Parts that a text goes on with behind some other text; they need not stand for all of it. -/
def Follow : List RegexPart → List Char → List Char → Prop
  | [], _, _ => True
  | .start :: parts, before, text => before = [] ∧ Follow parts before text
  | .stop :: parts, before, text => text = [] ∧ Follow parts before text
  | .dot :: parts, before, text =>
    ∃ c rest, text = c :: rest ∧ onLine c ∧ Follow parts (before ++ [c]) rest
  | .dots :: parts, before, text =>
    ∃ run rest, text = run ++ rest ∧ (∀ c ∈ run, onLine c) ∧ Follow parts (before ++ run) rest
  | .char c :: parts, before, text => ∃ rest, text = c :: rest ∧ Follow parts (before ++ [c]) rest

/-- Somewhere in a text the parts follow each other. -/
def IsMatch (parts : List RegexPart) (text : List Char) : Prop :=
  ∃ before rest, text = before ++ rest ∧ Follow parts before rest

end RegexPart

namespace Pattern

open RegexPart

/-- The part of a regular expression for a piece of a pattern. -/
def partOf : PatternPiece → RegexPart
  | .anyText => .dots
  | .anyChar => .dot
  | .literal c => .char c

/-- A piece of a pattern as it is written in a regular expression. -/
def writePiece : PatternPiece → List Char
  | .anyText => ['.', '*']
  | .anyChar => ['.']
  | .literal c => if regexMeta.contains c then ['\\', c] else [c]

theorem toList_toRegex (pattern : Pattern) :
    pattern.toRegex.toList = '^' :: pattern.flatMap writePiece ++ ['$'] := by
  rw [toRegex, String.toList_ofList]
  rfl

/-- A character that is written for itself is read as itself. -/
theorem readAll?_cons {c : Char} (hc : regexMeta.contains c = false) (rest : List Char) :
    readAll? (c :: rest) = (readAll? rest).map (.char c :: ·) := by
  have hne : ∀ d, regexMeta.contains d = true → c ≠ d := by
    rintro d hd rfl
    rw [hc] at hd
    cases hd
  rw [readAll?]
  · rw [ofChar?, if_neg (hne '^' rfl), if_neg (hne '$' rfl), if_neg (hne '.' rfl), hc]
    rfl
  · exact fun _ hdot => absurd hdot (hne '.' rfl)
  · exact fun _ _ hbackslash => absurd hbackslash (hne '\\' rfl)

/-- What is written after a piece does not repeat it. -/
theorem ne_star (pattern : Pattern) (rest : List Char) :
    pattern.flatMap writePiece ++ ['$'] ≠ '*' :: rest := by
  intro h
  cases pattern with
  | nil => exact absurd (List.cons.inj h).1 (by decide)
  | cons piece pattern =>
      cases piece with
      | anyText => exact absurd (List.cons.inj h).1 (by decide)
      | anyChar => exact absurd (List.cons.inj h).1 (by decide)
      | literal c =>
          rw [List.flatMap_cons, writePiece] at h
          split at h
          · exact absurd (List.cons.inj h).1 (by decide)
          · rename_i hc
            obtain rfl := (List.cons.inj h).1
            exact hc rfl

theorem readAll?_pieces (pattern : Pattern) :
    readAll? (pattern.flatMap writePiece ++ ['$']) = some (pattern.map partOf ++ [.stop]) := by
  induction pattern with
  | nil => rfl
  | cons piece pattern ih =>
      rw [List.flatMap_cons, List.append_assoc, List.map_cons, List.cons_append]
      cases piece with
      | anyText =>
          show readAll? ('.' :: '*' :: (pattern.flatMap writePiece ++ ['$'])) = _
          rw [readAll?, ih]
          rfl
      | anyChar =>
          show readAll? ('.' :: (pattern.flatMap writePiece ++ ['$'])) = _
          rw [readAll?]
          · rw [ih]
            rfl
          · exact fun rest _ h => ne_star pattern rest h
          · exact fun _ _ hbackslash => absurd hbackslash (by decide)
      | literal c =>
          rw [writePiece]
          by_cases hc : regexMeta.contains c = true
          · rw [if_pos hc]
            show readAll? ('\\' :: c :: (pattern.flatMap writePiece ++ ['$'])) = _
            rw [readAll?, if_pos hc, ih]
            rfl
          · rw [if_neg hc]
            show readAll? (c :: (pattern.flatMap writePiece ++ ['$'])) = _
            rw [readAll?_cons (Bool.not_eq_true _ ▸ hc), ih]
            rfl

/-- Up to the end of a text the parts for a pattern follow exactly if the text fits it. -/
theorem follow_iff_fits (pattern : Pattern) (before text : List Char) :
    Follow (pattern.map partOf ++ [.stop]) before text ↔ pattern.fits text = true := by
  induction pattern generalizing before text with
  | nil =>
      rw [fits, List.isEmpty_iff]
      exact and_iff_left trivial
  | cons piece pattern ih =>
      rw [List.map_cons, List.cons_append]
      cases piece with
      | anyText =>
          rw [partOf, Follow, fits, fitsAfterAny_iff]
          simp only [ih]
      | anyChar =>
          rw [partOf, Follow]
          cases text with
          | nil => simp [fits]
          | cons d text =>
              rw [fits, Bool.and_eq_true, isOpen_iff]
              simp [ih]
      | literal c =>
          rw [partOf, Follow]
          cases text with
          | nil => simp [fits]
          | cons d text =>
              rw [fits, Bool.and_eq_true, beq_iff_eq]
              simp [ih]

/--
**A pattern is written as a regular expression for the texts that fit it.**  It is read back part
by part, whatever characters the pattern has, and between its anchors it stands for whole texts.
-/
theorem exists_regex (pattern : Pattern) :
    ∃ regex, readAll? pattern.toRegex.toList = some regex ∧
      ∀ text, IsMatch regex text ↔ pattern.fits text = true := by
  refine ⟨.start :: (pattern.map partOf ++ [.stop]), ?_, fun text => ?_⟩
  · rw [toList_toRegex, List.cons_append, readAll?]
    · rw [readAll?_pieces]
      rfl
    · exact fun _ hdot => absurd hdot (by decide)
    · exact fun _ _ hbackslash => absurd hbackslash (by decide)
  · constructor
    · rintro ⟨before, rest, rfl, rfl, hfollow⟩
      exact (follow_iff_fits pattern [] rest).mp hfollow
    · intro hfits
      exact ⟨[], text, rfl, rfl, (follow_iff_fits pattern [] text).mpr hfits⟩

end Pattern

end DocIndex
