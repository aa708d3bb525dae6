/-
JSON text read back.

Both printers lay a value out in the same way and differ in the blanks between its tokens
alone, which a reader passes over.  So a value is spelled here with any blanks, and what is
spelled comes back as it was written, provided that it is not too deep for the reader.
Doubles are left out: the reader rounds them, and their last bit may be off.
-/
import DocIndex.Proofs.Json.Scalars
import DocIndex.Proofs.Table

namespace DocIndex.Json

/-! ### Blanks -/

/-- The blanks that JSON allows between tokens. -/
def isGap (c : Char) : Bool := c == ' ' || c == '\n' || c == '\t' || c == '\r'

/-- What stands in front of a line of some indentation, and after a colon. -/
structure Spacing where
  line : Nat → List Char
  colon : List Char
  gapLine : ∀ indent, ∀ c ∈ line indent, isGap c = true
  gapColon : ∀ c ∈ colon, isGap c = true

namespace Spacing

/-- No blanks at all. -/
def tight : Spacing := ⟨fun _ => [], [], by simp, by simp⟩

/-- A line for each item and member. -/
def lines : Spacing where
  line indent := (newLine indent).toList
  colon := [' ']
  gapLine := by
    intro indent c hc
    simp only [newLine, String.toList_ofList, List.mem_cons, List.mem_replicate] at hc
    rcases hc with rfl | ⟨-, rfl⟩
    · rfl
    · rfl
  gapColon := by simp [isGap]

end Spacing

theorem skipBlanks_append {gap : List Char} (h : ∀ c ∈ gap, isGap c = true) (text : List Char) :
    skipBlanks (gap ++ text) = skipBlanks text :=
  List.dropWhile_append_of_pos h

theorem skipBlanks_cons {c : Char} (h : isGap c = false) (text : List Char) :
    skipBlanks (c :: text) = c :: text :=
  List.dropWhile_cons_of_neg (by rw [← Bool.not_eq_true] at h; exact h)

theorem skipBlanks_idem (text : List Char) : skipBlanks (skipBlanks text) = skipBlanks text := by
  induction text with
  | nil => rfl
  | cons c rest ih =>
      by_cases h : isGap c = true
      · have hskip : skipBlanks (c :: rest) = skipBlanks rest := List.dropWhile_cons_of_pos h
        rw [hskip, ih]
      · have hskip := skipBlanks_cons (Bool.not_eq_true _ ▸ h) rest
        rw [hskip, hskip]

/-! ### Spelling -/

/-- A text in quotes. -/
def spellText (text : String) : List Char := '\x22' :: text.toList.flatMap escapeChar ++ ['\x22']

mutual

/-- The text of a value at an indentation. -/
def spell (spacing : Spacing) (indent : Nat) : Json → List Char
  | null => ['n', 'u', 'l', 'l']
  | bool true => ['t', 'r', 'u', 'e']
  | bool false => ['f', 'a', 'l', 's', 'e']
  | int n => (toString n).toList
  | double x => (writeDouble x).toList
  | text s => spellText s
  | array [] => ['[', ']']
  | array items =>
    '[' :: spellItems spacing (indent + 1) items ++ spacing.line indent ++ [']']
  | object [] => ['\x7b', '\x7d']
  | object members =>
    '\x7b' :: spellMembers spacing (indent + 1) members ++ spacing.line indent ++ ['\x7d']

def spellItems (spacing : Spacing) (indent : Nat) : List Json → List Char
  | [] => []
  | [item] => spacing.line indent ++ spell spacing indent item
  | item :: rest =>
    spacing.line indent ++ spell spacing indent item ++ ',' :: spellItems spacing indent rest

def spellMembers (spacing : Spacing) (indent : Nat) : List (String × Json) → List Char
  | [] => []
  | [(key, value)] =>
    spacing.line indent ++ spellText key ++ ':' :: spacing.colon ++ spell spacing indent value
  | (key, value) :: rest =>
    spacing.line indent ++ spellText key ++ ':' :: spacing.colon ++ spell spacing indent value ++
      ',' :: spellMembers spacing indent rest

end

theorem toList_quote (text : String) : (quote text).toList = spellText text := by
  rw [quote, String.toList_ofList]
  rfl

mutual

/-- The text on one line is spelled without blanks. -/
theorem toList_write : ∀ (json : Json) (indent : Nat), json.write.toList = spell .tight indent json
  | null, _ => rfl
  | bool true, _ => rfl
  | bool false, _ => rfl
  | int n, _ => rfl
  | double x, _ => rfl
  | text s, _ => toList_quote s
  | array [], _ => rfl
  | array (item :: rest), indent => by
      have hitems := toList_writeItems (item :: rest) (indent + 1)
      simp [write, spell, String.toList_append, hitems, Spacing.tight]
  | object [], _ => rfl
  | object (member :: rest), indent => by
      have hmembers := toList_writeMembers (member :: rest) (indent + 1)
      simp [write, spell, String.toList_append, hmembers, Spacing.tight]

theorem toList_writeItems : ∀ (items : List Json) (indent : Nat),
    (writeItems items).toList = spellItems .tight indent items
  | [], _ => rfl
  | [item], indent => by
      have hitem := toList_write item indent
      simp [writeItems, spellItems, hitem, Spacing.tight]
  | item :: next :: rest, indent => by
      have hitem := toList_write item indent
      have hrest := toList_writeItems (next :: rest) indent
      simp [writeItems, spellItems, String.toList_append, hitem, hrest, Spacing.tight]

theorem toList_writeMembers : ∀ (members : List (String × Json)) (indent : Nat),
    (writeMembers members).toList = spellMembers .tight indent members
  | [], _ => rfl
  | [(key, value)], indent => by
      have hvalue := toList_write value indent
      simp [writeMembers, spellMembers, String.toList_append, toList_quote, hvalue, Spacing.tight]
  | (key, value) :: next :: rest, indent => by
      have hvalue := toList_write value indent
      have hrest := toList_writeMembers (next :: rest) indent
      simp [writeMembers, spellMembers, String.toList_append, toList_quote, hvalue, hrest,
        Spacing.tight]

end

mutual

/-- The indented text is spelled with a line for each item and member. -/
theorem toList_writeIndented : ∀ (json : Json) (indent : Nat),
    (writeIndented indent json).toList = spell .lines indent json
  | null, _ => by simp [writeIndented, spell]
  | bool true, _ => by simp [writeIndented, spell]
  | bool false, _ => by simp [writeIndented, spell]
  | int n, _ => by simp [writeIndented, spell]
  | double x, _ => by simp [writeIndented, spell]
  | text s, _ => by simp [writeIndented, spell, toList_quote]
  | array [], _ => by simp [writeIndented, spell]
  | array (item :: rest), indent => by
      have hitems := toList_writeItemLines (item :: rest) (indent + 1)
      simp [writeIndented, spell, String.toList_append, hitems, Spacing.lines]
  | object [], _ => by simp [writeIndented, spell]
  | object (member :: rest), indent => by
      have hmembers := toList_writeMemberLines (member :: rest) (indent + 1)
      simp [writeIndented, spell, String.toList_append, hmembers, Spacing.lines]

theorem toList_writeItemLines : ∀ (items : List Json) (indent : Nat),
    (writeItemLines indent items).toList = spellItems .lines indent items
  | [], _ => rfl
  | [item], indent => by
      have hitem := toList_writeIndented item indent
      simp [writeItemLines, spellItems, String.toList_append, hitem, Spacing.lines]
  | item :: next :: rest, indent => by
      have hitem := toList_writeIndented item indent
      have hrest := toList_writeItemLines (next :: rest) indent
      simp [writeItemLines, spellItems, String.toList_append, hitem, hrest, Spacing.lines]

theorem toList_writeMemberLines : ∀ (members : List (String × Json)) (indent : Nat),
    (writeMemberLines indent members).toList = spellMembers .lines indent members
  | [], _ => rfl
  | [(key, value)], indent => by
      have hvalue := toList_writeIndented value indent
      simp [writeMemberLines, spellMembers, String.toList_append, toList_quote, hvalue,
        Spacing.lines]
  | (key, value) :: next :: rest, indent => by
      have hvalue := toList_writeIndented value indent
      have hrest := toList_writeMemberLines (next :: rest) indent
      simp [writeMemberLines, spellMembers, String.toList_append, toList_quote, hvalue, hrest,
        Spacing.lines]

end

/-! ### Reading -/

mutual

/-- Whether a value can be read back: without doubles, and not too deep. -/
def Legible (depth : Nat) : Json → Prop
  | null | bool _ | text _ => True
  | int n => 0 ≤ n ∧ n ≤ uint64Max
  | double _ => False
  | array items => 0 < depth ∧ LegibleItems (depth - 1) items
  | object members => 0 < depth ∧ LegibleMembers (depth - 1) members

def LegibleItems (depth : Nat) : List Json → Prop
  | [] => True
  | item :: rest => Legible depth item ∧ LegibleItems depth rest

def LegibleMembers (depth : Nat) : List (String × Json) → Prop
  | [] => True
  | (_, value) :: rest => Legible depth value ∧ LegibleMembers depth rest

end

mutual

instance decidableLegible (depth : Nat) : (json : Json) → Decidable (json.Legible depth)
  | null | bool _ | text _ => isTrue trivial
  | int n => inferInstanceAs (Decidable (0 ≤ n ∧ n ≤ uint64Max))
  | double _ => isFalse id
  | array items => @instDecidableAnd _ _ _ (decidableLegibleItems (depth - 1) items)
  | object members => @instDecidableAnd _ _ _ (decidableLegibleMembers (depth - 1) members)

instance decidableLegibleItems (depth : Nat) :
    (items : List Json) → Decidable (LegibleItems depth items)
  | [] => isTrue trivial
  | item :: rest =>
    @instDecidableAnd _ _ (decidableLegible depth item) (decidableLegibleItems depth rest)

instance decidableLegibleMembers (depth : Nat) :
    (members : List (String × Json)) → Decidable (LegibleMembers depth members)
  | [] => isTrue trivial
  | (_, value) :: rest =>
    @instDecidableAnd _ _ (decidableLegible depth value) (decidableLegibleMembers depth rest)

end

theorem isGap_of_isDigit {c : Char} (h : c.isDigit = true) : isGap c = false := by
  cases hgap : isGap c with
  | false => rfl
  | true =>
      simp only [isGap, Bool.or_eq_true, beq_iff_eq] at hgap
      rcases hgap with ((rfl | rfl) | rfl) | rfl <;> exact absurd h (by decide)

/-- What a value begins with: no blank, and nothing that ends an array or an object. -/
theorem spell_head (spacing : Spacing) (indent : Nat) {depth : Nat} {json : Json}
    (h : json.Legible depth) : ∃ c rest, spell spacing indent json = c :: rest ∧
      isGap c = false ∧ c ≠ ']' ∧ c ≠ '\x7d' := by
  cases json with
  | null => exact ⟨'n', _, rfl, by decide⟩
  | bool b =>
      cases b with
      | true => exact ⟨'t', _, rfl, by decide⟩
      | false => exact ⟨'f', _, rfl, by decide⟩
  | int n =>
      obtain ⟨hpos, -⟩ := h
      obtain ⟨k, rfl⟩ := Int.eq_ofNat_of_zero_le hpos
      have hdigits : spell spacing indent (.int k) = Nat.toDigits 10 k := Nat.toList_repr
      obtain ⟨d, digits, hcons⟩ :=
        List.exists_cons_of_ne_nil (Nat.toDigits_ne_nil (n := k) (b := 10))
      have hd : d.isDigit = true := by
        refine Nat.isDigit_of_mem_toDigits (b := 10) (n := k) (by decide) (by decide) ?_
        rw [hcons]
        exact List.mem_cons_self
      refine ⟨d, digits, hdigits.trans hcons, isGap_of_isDigit hd, ?_, ?_⟩
      · rintro rfl
        exact absurd hd (by decide)
      · rintro rfl
        exact absurd hd (by decide)
  | double x => exact absurd h id
  | text s => exact ⟨'\x22', _, rfl, by decide⟩
  | array items =>
      cases items with
      | nil => exact ⟨'[', _, rfl, by decide⟩
      | cons item rest => exact ⟨'[', _, rfl, by decide⟩
  | object members =>
      cases members with
      | nil => exact ⟨'\x7b', _, rfl, by decide⟩
      | cons member rest => exact ⟨'\x7b', _, rfl, by decide⟩

/-! Readers pass over blanks in front of what they read. -/

theorem readValue?_skipBlanks (fuel depth : Nat) (text : List Char) :
    readValue? fuel depth (skipBlanks text) = readValue? fuel depth text := by
  cases fuel with
  | zero => rfl
  | succ fuel => simp only [readValue?, skipBlanks_idem]

theorem readItems?_skipBlanks (fuel depth : Nat) (found : List Json) (text : List Char) :
    readItems? fuel depth found (skipBlanks text) = readItems? fuel depth found text := by
  cases fuel with
  | zero => rfl
  | succ fuel => simp only [readItems?, readValue?_skipBlanks]

theorem readMembers?_skipBlanks (fuel depth : Nat) (found : List (String × Json))
    (text : List Char) :
    readMembers? fuel depth found (skipBlanks text) = readMembers? fuel depth found text := by
  cases fuel with
  | zero => rfl
  | succ fuel => simp only [readMembers?, skipBlanks_idem]

/-! The first character tells what is read. -/

theorem readValue?_array {fuel depth : Nat} {text tail : List Char} {c : Char}
    (hhead : skipBlanks text = c :: tail) (hc : c ≠ ']') :
    readValue? (fuel + 1) (depth + 1) ('[' :: text)
      = (readItems? fuel depth [] text).map fun (items, rest) => (array items, rest) := by
  have hmark : skipBlanks ('[' :: text) = '[' :: text := skipBlanks_cons rfl text
  rw [readValue?, hmark, ← readItems?_skipBlanks, hhead]
  simp [hhead, hc]

theorem readValue?_object {fuel depth : Nat} {text tail : List Char} {c : Char}
    (hhead : skipBlanks text = c :: tail) (hc : c ≠ '\x7d') :
    readValue? (fuel + 1) (depth + 1) ('\x7b' :: text)
      = (readMembers? fuel depth [] text).map fun (members, rest) => (object members, rest) := by
  have hmark : skipBlanks ('\x7b' :: text) = '\x7b' :: text := skipBlanks_cons rfl text
  rw [readValue?, hmark, ← readMembers?_skipBlanks, hhead]
  simp [hhead, hc]

theorem readQuoted?_spellText (text : String) (rest : List Char) :
    readQuoted? (text.toList.flatMap escapeChar ++ '\x22' :: rest).length []
      (text.toList.flatMap escapeChar ++ '\x22' :: rest) = some (text, rest) := by
  have hlength : text.toList.length
      < (text.toList.flatMap escapeChar ++ '\x22' :: rest).length := by
    have hle := length_le_quoted text.toList
    rw [List.length_append, List.length_cons]
    omega
  rw [readQuoted?_quoted rest hlength, List.reverse_nil, List.nil_append, String.ofList_toList]

theorem readValue?_text (fuel depth : Nat) (text : String) (rest : List Char) :
    readValue? (fuel + 1) depth (spellText text ++ rest) = some (.text text, rest) := by
  have hmark : ∀ more, skipBlanks ('\x22' :: more) = '\x22' :: more := skipBlanks_cons rfl
  have happend : spellText text ++ rest
      = '\x22' :: (text.toList.flatMap escapeChar ++ '\x22' :: rest) := by simp [spellText]
  rw [happend, readValue?, hmark]
  simp only [beq_self_eq_true, if_true, readQuoted?_spellText, Option.map_some]

theorem readValue?_int {n : Nat} (hn : n ≤ uint64Max) (fuel depth : Nat) {rest : List Char}
    (hends : Ends rest) :
    readValue? (fuel + 1) depth (Nat.toDigits 10 n ++ rest) = some (.int n, rest) := by
  have hread := readNumber?_toDigits hn hends
  obtain ⟨d, digits, hcons⟩ :=
    List.exists_cons_of_ne_nil (Nat.toDigits_ne_nil (n := n) (b := 10))
  have hd : d.isDigit = true := by
    refine Nat.isDigit_of_mem_toDigits (b := 10) (n := n) (by decide) (by decide) ?_
    rw [hcons]
    exact List.mem_cons_self
  have hne : ∀ mark : Char, mark.isDigit = false → d ≠ mark := by
    rintro mark hmark rfl
    rw [hd] at hmark
    cases hmark
  rw [hcons, List.cons_append] at hread ⊢
  rw [readValue?, skipBlanks_cons (isGap_of_isDigit hd)]
  simp [hne '\x22' rfl, hne '[' rfl, hne '\x7b' rfl, hne 't' rfl, hne 'f' rfl, hne 'n' rfl, hread]

/-! A value, or a member, is followed by a comma or by the end of what it stands in. -/

theorem ends_cons {c : Char} (h : c.isDigit = false ∧ c ≠ '.' ∧ c ≠ 'e' ∧ c ≠ 'E')
    (rest : List Char) : Ends (c :: rest) := by
  intro d hd
  obtain rfl : c = d := Option.some.inj hd
  exact h

theorem ends_gap {gap : List Char} (hgap : ∀ c ∈ gap, isGap c = true) {c : Char}
    (h : c.isDigit = false ∧ c ≠ '.' ∧ c ≠ 'e' ∧ c ≠ 'E') (rest : List Char) :
    Ends (gap ++ c :: rest) := by
  cases gap with
  | nil => exact ends_cons h rest
  | cons d gap =>
      have hd := hgap d List.mem_cons_self
      simp only [isGap, Bool.or_eq_true, beq_iff_eq] at hd
      refine ends_cons ?_ _
      rcases hd with ((rfl | rfl) | rfl) | rfl <;> decide

section Reading

variable {fuel depth : Nat} {text behind rest : List Char}

theorem readItems?_more {found : List Json} {item : Json}
    (hitem : readValue? fuel depth text = some (item, behind))
    (hbehind : skipBlanks behind = ',' :: rest) :
    readItems? (fuel + 1) depth found text = readItems? fuel depth (item :: found) rest := by
  simp only [readItems?, hitem, hbehind]

theorem readItems?_last {found : List Json} {item : Json}
    (hitem : readValue? fuel depth text = some (item, behind))
    (hbehind : skipBlanks behind = ']' :: rest) :
    readItems? (fuel + 1) depth found text = some ((item :: found).reverse, rest) := by
  simp only [readItems?, hitem, hbehind]

/-- The text of a member as far as its value. -/
def memberStart (spacing : Spacing) (indent : Nat) (key : String) : List Char :=
  spacing.line indent ++ spellText key ++ ':' :: spacing.colon

theorem skipBlanks_memberStart (spacing : Spacing) (indent : Nat) (key : String)
    (text : List Char) : skipBlanks (memberStart spacing indent key ++ text)
      = '\x22' :: (key.toList.flatMap escapeChar ++ '\x22' :: ':' :: (spacing.colon ++ text)) := by
  have happend : memberStart spacing indent key ++ text = spacing.line indent ++ '\x22' ::
      (key.toList.flatMap escapeChar ++ '\x22' :: ':' :: (spacing.colon ++ text)) := by
    simp [memberStart, spellText]
  rw [happend, skipBlanks_append (spacing.gapLine indent)]
  exact skipBlanks_cons rfl _

theorem skipBlanks_colon (text : List Char) : skipBlanks (':' :: text) = ':' :: text :=
  skipBlanks_cons rfl text

theorem readValue?_colon {spacing : Spacing} {value : Json}
    (hvalue : readValue? fuel depth text = some (value, behind)) :
    readValue? fuel depth (spacing.colon ++ text) = some (value, behind) := by
  rw [← readValue?_skipBlanks, skipBlanks_append spacing.gapColon, readValue?_skipBlanks, hvalue]

theorem readMembers?_more (spacing : Spacing) (indent : Nat) (key : String)
    {found : List (String × Json)} {value : Json}
    (hvalue : readValue? fuel depth text = some (value, behind))
    (hbehind : skipBlanks behind = ',' :: rest) :
    readMembers? (fuel + 1) depth found (memberStart spacing indent key ++ text)
      = readMembers? fuel depth ((key, value) :: found) rest := by
  simp only [readMembers?, skipBlanks_memberStart, readQuoted?_spellText, skipBlanks_colon,
    readValue?_colon hvalue, hbehind]

theorem readMembers?_last (spacing : Spacing) (indent : Nat) (key : String)
    {found : List (String × Json)} {value : Json}
    (hvalue : readValue? fuel depth text = some (value, behind))
    (hbehind : skipBlanks behind = '\x7d' :: rest) :
    readMembers? (fuel + 1) depth found (memberStart spacing indent key ++ text)
      = some (((key, value) :: found).reverse, rest) := by
  simp only [readMembers?, skipBlanks_memberStart, readQuoted?_spellText, skipBlanks_colon,
    readValue?_colon hvalue, hbehind]

end Reading

/-- Behind the line that it stands on, a value is read as it is spelled. -/
theorem readValue?_line (spacing : Spacing) (indent : Nat) {fuel depth : Nat}
    {text behind : List Char} {value : Json}
    (h : readValue? fuel depth text = some (value, behind)) :
    readValue? fuel depth (spacing.line indent ++ text) = some (value, behind) := by
  rw [← readValue?_skipBlanks, skipBlanks_append (spacing.gapLine indent), readValue?_skipBlanks, h]

/-- The first item does not look like the end of its array. -/
theorem skipBlanks_spellItems (spacing : Spacing) (indent : Nat) {depth : Nat} {item : Json}
    {items : List Json} (h : LegibleItems depth (item :: items)) (rest : List Char) :
    ∃ c tail, skipBlanks (spellItems spacing indent (item :: items) ++ rest) = c :: tail ∧
      c ≠ ']' := by
  obtain ⟨c, chars, hcons, hgap, hc, -⟩ := spell_head spacing indent h.1
  have hskip : ∀ more, skipBlanks (spacing.line indent ++ (spell spacing indent item ++ more))
      = c :: (chars ++ more) := by
    intro more
    rw [skipBlanks_append (spacing.gapLine indent), hcons]
    exact skipBlanks_cons hgap _
  cases items with
  | nil => exact ⟨c, chars ++ rest, by rw [spellItems, List.append_assoc, hskip], hc⟩
  | cons next items =>
      have happend : spellItems spacing indent (item :: next :: items) ++ rest
          = spacing.line indent ++ (spell spacing indent item ++
            (',' :: spellItems spacing indent (next :: items) ++ rest)) := by
        simp [spellItems]
      exact ⟨c, _, by rw [happend, hskip], hc⟩

/-- A member begins with the quote of its key. -/
theorem skipBlanks_spellMembers (spacing : Spacing) (indent : Nat) (key : String) (value : Json)
    (members : List (String × Json)) (rest : List Char) :
    ∃ tail, skipBlanks (spellMembers spacing indent ((key, value) :: members) ++ rest)
      = '\x22' :: tail := by
  cases members with
  | nil =>
      have happend : spellMembers spacing indent [(key, value)] ++ rest
          = memberStart spacing indent key ++ (spell spacing indent value ++ rest) := by
        simp [spellMembers, memberStart]
      exact ⟨_, by rw [happend, skipBlanks_memberStart]⟩
  | cons next members =>
      have happend : spellMembers spacing indent ((key, value) :: next :: members) ++ rest
          = memberStart spacing indent key ++ (spell spacing indent value ++
            (',' :: spellMembers spacing indent (next :: members) ++ rest)) := by
        simp [spellMembers, memberStart]
      exact ⟨_, by rw [happend, skipBlanks_memberStart]⟩

theorem length_spell_pos (spacing : Spacing) (indent : Nat) {depth : Nat} {json : Json}
    (h : json.Legible depth) : 0 < (spell spacing indent json).length := by
  obtain ⟨c, rest, hcons, -⟩ := spell_head spacing indent h
  rw [hcons, List.length_cons]
  exact Nat.succ_pos _

mutual

/-- **What is spelled is read, with as much fuel as it has characters.** -/
theorem readValue?_spell (spacing : Spacing) : ∀ {json : Json} {depth indent fuel : Nat}
    {rest : List Char}, json.Legible depth → Ends rest →
      (spell spacing indent json).length < fuel →
        readValue? fuel depth (spell spacing indent json ++ rest) = some (json, rest)
  | json, _, _, 0, _, _, _, hfuel => absurd hfuel (Nat.not_lt_zero _)
  | null, depth, indent, fuel + 1, rest, _, _, _ => by
      simp [spell, readValue?, skipBlanks, after?]
  | bool true, depth, indent, fuel + 1, rest, _, _, _ => by
      simp [spell, readValue?, skipBlanks, after?]
  | bool false, depth, indent, fuel + 1, rest, _, _, _ => by
      simp [spell, readValue?, skipBlanks, after?]
  | double x, _, _, _, _, h, _, _ => absurd h id
  | text s, depth, indent, fuel + 1, rest, _, _, _ => readValue?_text fuel depth s rest
  | int n, depth, indent, fuel + 1, rest, h, hends, _ => by
      obtain ⟨hpos, hmax⟩ := h
      obtain ⟨k, rfl⟩ := Int.eq_ofNat_of_zero_le hpos
      have hdigits : spell spacing indent (.int k) = Nat.toDigits 10 k := Nat.toList_repr
      rw [hdigits]
      exact readValue?_int (by omega) fuel depth hends
  | array _, 0, _, _ + 1, _, h, _, _ => absurd h.1 (Nat.lt_irrefl 0)
  | object _, 0, _, _ + 1, _, h, _, _ => absurd h.1 (Nat.lt_irrefl 0)
  | array [], d + 1, indent, fuel + 1, rest, h, _, _ => by
      simp [spell, readValue?, skipBlanks]
  | array (item :: items), d + 1, indent, fuel + 1, rest, h, _, hfuel => by
      have hitems : LegibleItems d (item :: items) := h.2
      have happend : spell spacing indent (array (item :: items)) ++ rest
          = '[' :: (spellItems spacing (indent + 1) (item :: items) ++
            (spacing.line indent ++ ']' :: rest)) := by simp [spell]
      have hlength : (spellItems spacing (indent + 1) (item :: items)).length + 1 < fuel := by
        simp only [spell, List.length_append, List.length_cons, List.length_nil] at hfuel
        omega
      obtain ⟨c, tail, hhead, hc⟩ := skipBlanks_spellItems spacing (indent + 1) hitems
        (spacing.line indent ++ ']' :: rest)
      rw [happend, readValue?_array hhead hc,
        readItems?_spell spacing hitems (spacing.gapLine indent) hlength]
      rfl
  | object [], d + 1, indent, fuel + 1, rest, h, _, _ => by
      simp [spell, readValue?, skipBlanks]
  | object ((key, value) :: members), d + 1, indent, fuel + 1, rest, h, _, hfuel => by
      have hmembers : LegibleMembers d ((key, value) :: members) := h.2
      have happend : spell spacing indent (object ((key, value) :: members)) ++ rest
          = '\x7b' :: (spellMembers spacing (indent + 1) ((key, value) :: members) ++
            (spacing.line indent ++ '\x7d' :: rest)) := by simp [spell]
      have hlength : (spellMembers spacing (indent + 1) ((key, value) :: members)).length + 1
          < fuel := by
        simp only [spell, List.length_append, List.length_cons, List.length_nil] at hfuel
        omega
      obtain ⟨tail, hhead⟩ := skipBlanks_spellMembers spacing (indent + 1) key value members
        (spacing.line indent ++ '\x7d' :: rest)
      rw [happend, readValue?_object hhead (by decide),
        readMembers?_spell spacing hmembers (spacing.gapLine indent) hlength]
      rfl
termination_by structural _ _ _ fuel => fuel

theorem readItems?_spell (spacing : Spacing) : ∀ {item : Json} {items found : List Json}
    {depth indent fuel : Nat} {gap rest : List Char}, LegibleItems depth (item :: items) →
      (∀ c ∈ gap, isGap c = true) →
      (spellItems spacing indent (item :: items)).length + 1 < fuel →
        readItems? fuel depth found
            (spellItems spacing indent (item :: items) ++ (gap ++ ']' :: rest))
          = some (found.reverse ++ item :: items, rest)
  | item, items, _, _, _, 0, _, _, _, _, hfuel => absurd hfuel (Nat.not_lt_zero _)
  | item, [], found, depth, indent, fuel + 1, gap, rest, h, hgap, hfuel => by
      have hlength : (spell spacing indent item).length < fuel := by
        simp only [spellItems, List.length_append] at hfuel
        omega
      have hitem := readValue?_line spacing indent
        (readValue?_spell spacing h.1 (ends_gap hgap (by decide : (']').isDigit = false ∧ _) rest)
          hlength)
      have hend : skipBlanks (gap ++ ']' :: rest) = ']' :: rest := by
        rw [skipBlanks_append hgap]
        exact skipBlanks_cons rfl rest
      rw [spellItems, List.append_assoc, readItems?_last hitem hend, List.reverse_cons]
  | item, next :: items, found, depth, indent, fuel + 1, gap, rest, h, hgap, hfuel => by
      have hlength : (spell spacing indent item).length < fuel ∧
          (spellItems spacing indent (next :: items)).length + 1 < fuel := by
        have hpos := length_spell_pos spacing indent h.1
        simp only [spellItems, List.length_append, List.length_cons] at hfuel
        omega
      have hitem := readValue?_line spacing indent
        (readValue?_spell spacing h.1 (ends_cons (by decide : (',').isDigit = false ∧ _)
          (spellItems spacing indent (next :: items) ++ (gap ++ ']' :: rest))) hlength.1)
      have hend := skipBlanks_cons (c := ',') rfl
        (spellItems spacing indent (next :: items) ++ (gap ++ ']' :: rest))
      have happend : spellItems spacing indent (item :: next :: items) ++ (gap ++ ']' :: rest)
          = spacing.line indent ++ (spell spacing indent item ++
            ',' :: (spellItems spacing indent (next :: items) ++ (gap ++ ']' :: rest))) := by
        simp [spellItems]
      rw [happend, readItems?_more hitem hend, readItems?_spell spacing h.2 hgap hlength.2]
      simp
termination_by structural _ _ _ _ _ fuel => fuel

theorem readMembers?_spell (spacing : Spacing) : ∀ {key : String} {value : Json}
    {members found : List (String × Json)} {depth indent fuel : Nat} {gap rest : List Char},
      LegibleMembers depth ((key, value) :: members) → (∀ c ∈ gap, isGap c = true) →
      (spellMembers spacing indent ((key, value) :: members)).length + 1 < fuel →
        readMembers? fuel depth found
            (spellMembers spacing indent ((key, value) :: members) ++ (gap ++ '\x7d' :: rest))
          = some (found.reverse ++ (key, value) :: members, rest)
  | _, _, _, _, _, _, 0, _, _, _, _, hfuel => absurd hfuel (Nat.not_lt_zero _)
  | key, value, [], found, depth, indent, fuel + 1, gap, rest, h, hgap, hfuel => by
      have hlength : (spell spacing indent value).length < fuel := by
        simp only [spellMembers, List.length_append, List.length_cons] at hfuel
        omega
      have hvalue := readValue?_spell spacing h.1
        (ends_gap hgap (by decide : ('\x7d').isDigit = false ∧ _) rest) hlength
      have hend : skipBlanks (gap ++ '\x7d' :: rest) = '\x7d' :: rest := by
        rw [skipBlanks_append hgap]
        exact skipBlanks_cons rfl rest
      have happend : spellMembers spacing indent [(key, value)] ++ (gap ++ '\x7d' :: rest)
          = memberStart spacing indent key ++
            (spell spacing indent value ++ (gap ++ '\x7d' :: rest)) := by
        simp [spellMembers, memberStart]
      rw [happend, readMembers?_last spacing indent key hvalue hend, List.reverse_cons]
  | key, value, next :: members, found, depth, indent, fuel + 1, gap, rest, h, hgap, hfuel => by
      have hlength : (spell spacing indent value).length < fuel ∧
          (spellMembers spacing indent (next :: members)).length + 1 < fuel := by
        have hpos := length_spell_pos spacing indent h.1
        simp only [spellMembers, List.length_append, List.length_cons] at hfuel
        omega
      have hvalue := readValue?_spell spacing h.1 (ends_cons (by decide : (',').isDigit = false ∧ _)
        (spellMembers spacing indent (next :: members) ++ (gap ++ '\x7d' :: rest))) hlength.1
      have hend := skipBlanks_cons (c := ',') rfl
        (spellMembers spacing indent (next :: members) ++ (gap ++ '\x7d' :: rest))
      have happend : spellMembers spacing indent ((key, value) :: next :: members) ++
            (gap ++ '\x7d' :: rest)
          = memberStart spacing indent key ++ (spell spacing indent value ++
            ',' :: (spellMembers spacing indent (next :: members) ++ (gap ++ '\x7d' :: rest))) := by
        simp [spellMembers, memberStart]
      rw [happend, readMembers?_more spacing indent key hvalue hend,
        readMembers?_spell spacing h.2 hgap hlength.2]
      simp
termination_by structural _ _ _ _ _ _ fuel => fuel

end

/-- A text that spells a value is parsed as it. -/
theorem parseWritten?_of_spell {spacing : Spacing} {text : String} {json : Json}
    (h : json.Legible maxDepth) (htext : text.toList = spell spacing 0 json) :
    parseWritten? text = some json := by
  have hends : Ends [] := fun c hc => by cases hc
  have hread : readValue? ((spell spacing 0 json).length + 1) maxDepth (spell spacing 0 json ++ [])
      = some (json, []) :=
    readValue?_spell spacing h hends (Nat.lt_succ_self _)
  rw [List.append_nil] at hread
  simp only [parseWritten?, htext, hread]
  rfl

/-- **A value without doubles that is not too deep comes back from its text.** -/
theorem parseWritten?_write {json : Json} (h : json.Legible maxDepth) :
    parseWritten? json.write = some json :=
  parseWritten?_of_spell h (toList_write json 0)

/-- **And so it does from its indented text.** -/
theorem parseWritten?_writeIndented {json : Json} (h : json.Legible maxDepth) :
    parseWritten? (json.writeIndented 0) = some json :=
  parseWritten?_of_spell h (toList_writeIndented json 0)

theorem legibleItems_iff {depth : Nat} : ∀ {items : List Json},
    LegibleItems depth items ↔ ∀ item ∈ items, item.Legible depth
  | [] => by simp [LegibleItems]
  | item :: rest => by simp [LegibleItems, legibleItems_iff]

theorem legibleMembers_iff {depth : Nat} : ∀ {members : List (String × Json)},
    LegibleMembers depth members ↔ ∀ member ∈ members, member.2.Legible depth
  | [] => by simp [LegibleMembers]
  | (key, value) :: rest => by simp [LegibleMembers, legibleMembers_iff]

/-! ### Tables -/

mutual

/-- Whether the members of every object in a value are a table. -/
def Tabular : Json → Prop
  | null | bool _ | int _ | double _ | text _ => True
  | array items => TabularItems items
  | object members => Table.Sorted members ∧ TabularMembers members

def TabularItems : List Json → Prop
  | [] => True
  | item :: rest => Tabular item ∧ TabularItems rest

def TabularMembers : List (String × Json) → Prop
  | [] => True
  | (_, value) :: rest => Tabular value ∧ TabularMembers rest

end

theorem tabularMembers_iff : ∀ {members : List (String × Json)},
    TabularMembers members ↔ ∀ member ∈ members, member.2.Tabular
  | [] => by simp [TabularMembers]
  | (key, value) :: rest => by simp [TabularMembers, tabularMembers_iff]

mutual

theorem tabulate_of_tabular : ∀ {json : Json}, json.Tabular → json.tabulate = json
  | null, _ => rfl
  | bool _, _ => rfl
  | int _, _ => rfl
  | double _, _ => rfl
  | text _, _ => rfl
  | array items, h => by rw [tabulate, tabulateItems_of_tabular h]
  | object members, h => by
      rw [tabulate, ofMembers, tabulateMembers_of_tabular h.2, Table.ofEntries_of_sorted h.1]

theorem tabulateItems_of_tabular : ∀ {items : List Json}, TabularItems items →
    tabulateItems items = items
  | [], _ => rfl
  | item :: rest, h => by
      rw [tabulateItems, tabulate_of_tabular h.1, tabulateItems_of_tabular h.2]

theorem tabulateMembers_of_tabular : ∀ {members : List (String × Json)}, TabularMembers members →
    tabulateMembers members = members
  | [], _ => rfl
  | (key, value) :: rest, h => by
      rw [tabulateMembers, tabulate_of_tabular h.1, tabulateMembers_of_tabular h.2]

end

/-- **A value with tables as its objects comes back as these.** -/
theorem parse?_write {json : Json} (h : json.Legible maxDepth) (htabular : json.Tabular) :
    parse? json.write = some json := by
  rw [parse?, parseWritten?_write h, Option.map_some, tabulate_of_tabular htabular]

end DocIndex.Json
