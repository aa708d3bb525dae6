/-
Stems of English words.

The rules strip or replace suffixes in a fixed sequence of steps.  Two regions guard them:
the first begins after the first consonant that follows a vowel, the second after the next
such consonant, and many rules apply only to a suffix that lies in one of them.  Of the
suffixes in a step's table the longest that fits is chosen first, and if its condition then
fails the step does nothing.  A `y` that acts as a consonant is written `Y` meanwhile.
-/

namespace DocIndex.Analysis.Stem

/-- A word, as its characters. -/
abbrev Word := List Char

def isVowel (c : Char) : Bool := "aeiouy".toList.contains c

/-- Where the two regions of a word begin. -/
structure Regions where
  first : Nat
  second : Nat

/-- The part of a word before a suffix. -/
def before? (suffix : String) (word : Word) : Option Word :=
  if suffix.toList.isSuffixOf word then some (word.take (word.length - suffix.length)) else none

/-- The suffixes that a word ends in, of several with what belongs to each. -/
def fitting {α : Type} (table : List (String × α)) (word : Word) : List (Nat × Word × α) :=
  table.filterMap fun (suffix, x) => (before? suffix word).map fun stem => (suffix.length, stem, x)

/-- The longest suffix of a table that a word ends in: the part before it and its entry. -/
def longest? {α : Type} (table : List (String × α)) (word : Word) : Option (Word × α) :=
  let best := (fitting table word).foldl
    (fun best found => match best with
      | some (length, _) => if length < found.1 then some found else best
      | none => some found)
    none
  best.map Prod.snd

/-- What to do with a suffix: the condition on the part before it, and what replaces it. -/
structure SuffixRule where
  condition : Regions → Word → Bool
  replacement : String

/-- Applies the entry of the longest fitting suffix if its condition holds. -/
def replaceSuffix (regions : Regions) (table : List (String × SuffixRule)) (word : Word) : Word :=
  match longest? table word with
  | some (stem, rule) =>
    if rule.condition regions stem then stem ++ rule.replacement.toList else word
  | none => word

/-- The suffix begins in the first region. -/
def inFirst (r : Regions) (stem : Word) : Bool := r.first ≤ stem.length

/-- The suffix begins in the second region. -/
def inSecond (r : Regions) (stem : Word) : Bool := r.second ≤ stem.length

/-- Whether a word ends with a character out of a list. -/
def endsWithAny (chars : String) (word : Word) : Bool :=
  match word.getLast? with
  | some c => chars.toList.contains c
  | none => false

/-- Whether a word ends in a short syllable. -/
def endsShort (word : Word) : Bool :=
  match word.reverse with
  | c :: b :: a :: _ => !isVowel c && !"wxY".toList.contains c && isVowel b && !isVowel a
  | [c, b] => !isVowel c && isVowel b
  | _ => false

/-! ### Preparation -/

/-- Marks each `y` after a vowel as a consonant. -/
def markAfterVowel (afterVowel : Bool) : Word → Word
  | [] => []
  | c :: rest =>
    if afterVowel && c == 'y' then 'Y' :: markAfterVowel false rest
    else c :: markAfterVowel (isVowel c) rest

/-- Drops an initial apostrophe and marks the `y`s that are consonants. -/
def prepare (word : Word) : Word :=
  let word := match word with
    | '\x27' :: rest => rest
    | _ => word
  match word with
  | 'y' :: rest => 'Y' :: markAfterVowel false rest
  | _ => markAfterVowel false word

/-- The number of characters up to and including the first consonant after a vowel. -/
def pastConsonant? (word : Word) : Option Nat :=
  let lead := word.takeWhile fun c => !isVowel c
  let vowels := (word.drop lead.length).takeWhile isVowel
  if lead.length + vowels.length < word.length && !vowels.isEmpty then
    some (lead.length + vowels.length + 1)
  else none

/-- The regions of a prepared word. -/
def regions (word : Word) : Regions :=
  let first? : Option Nat :=
    match ["gener", "commun", "arsen"].find? fun start => start.toList.isPrefixOf word with
    | some start => some start.length
    | none => pastConsonant? word
  match first? with
  | none => ⟨word.length, word.length⟩
  | some first =>
    match pastConsonant? (word.drop first) with
    | some more => ⟨first, first + more⟩
    | none => ⟨first, word.length⟩

/-! ### Steps -/

/-- Takes off a possessive ending. -/
def dropPossessive (word : Word) : Word :=
  match longest? [("'", ()), ("'s", ()), ("'s'", ())] word with
  | some (stem, _) => stem
  | none => word

/-- The endings of plural forms. -/
inductive PluralEnding where
  | sses
  | ies
  | s
  | kept

/-- Takes off a plural ending. -/
def dropPlural (word : Word) : Word :=
  let table : List (String × PluralEnding) :=
    [("sses", .sses), ("ied", .ies), ("ies", .ies), ("s", .s), ("us", .kept), ("ss", .kept)]
  match longest? table word with
  | some (stem, .sses) => stem ++ ['s', 's']
  | some (stem, .ies) => stem ++ if 2 ≤ stem.length then ['i'] else ['i', 'e']
  | some (stem, .s) => if stem.dropLast.any isVowel then stem else word
  | some (_, .kept) => word
  | none => word

/-- Mends a stem from which a past or progressive ending was taken. -/
def mendVerb (regions : Regions) (stem : Word) : Word :=
  let doubles := ["bb", "dd", "ff", "gg", "mm", "nn", "pp", "rr", "tt"]
  if ["at", "bl", "iz"].any fun suffix => suffix.toList.isSuffixOf stem then stem ++ ['e']
  else if doubles.any fun suffix => suffix.toList.isSuffixOf stem then stem.dropLast
  else if stem.length = regions.first && endsShort stem then stem ++ ['e']
  else stem

/-- Takes off a past or progressive ending. -/
def dropVerbEnding (regions : Regions) (word : Word) : Word :=
  let table : List (String × Bool) :=
    [("eed", true), ("eedly", true), ("ed", false), ("edly", false), ("ing", false),
     ("ingly", false)]
  match longest? table word with
  | some (stem, true) => if inFirst regions stem then stem ++ ['e', 'e'] else word
  | some (stem, false) => if stem.any isVowel then mendVerb regions stem else word
  | none => word

/-- Replaces a final `y` after a consonant that is not the first letter. -/
def softenFinalY (word : Word) : Word :=
  match word.reverse with
  | y :: b :: a :: rest =>
    if (y == 'y' || y == 'Y') && !isVowel b then ('i' :: b :: a :: rest).reverse else word
  | _ => word

/-- Suffixes with one meaning, in the first region. -/
def derivations : List (String × SuffixRule) :=
  let gives := fun replacement : String => (⟨inFirst, replacement⟩ : SuffixRule)
  [ ("tional", gives "tion"), ("enci", gives "ence"), ("anci", gives "ance"),
    ("abli", gives "able"), ("entli", gives "ent"), ("izer", gives "ize"),
    ("ization", gives "ize"), ("ational", gives "ate"), ("ation", gives "ate"),
    ("ator", gives "ate"), ("alism", gives "al"), ("aliti", gives "al"), ("alli", gives "al"),
    ("fulness", gives "ful"), ("ousli", gives "ous"), ("ousness", gives "ous"),
    ("iveness", gives "ive"), ("iviti", gives "ive"), ("biliti", gives "ble"),
    ("bli", gives "ble"),
    ("ogi", ⟨fun r stem => inFirst r stem && endsWithAny "l" stem, "og"⟩),
    ("fulli", gives "ful"), ("lessli", gives "less"),
    ("li", ⟨fun r stem => inFirst r stem && endsWithAny "cdeghkmnrt" stem, ""⟩) ]

/-- Further suffixes of the first region. -/
def qualities : List (String × SuffixRule) :=
  let gives := fun replacement : String => (⟨inFirst, replacement⟩ : SuffixRule)
  [ ("tional", gives "tion"), ("ational", gives "ate"), ("alize", gives "al"),
    ("icate", gives "ic"), ("iciti", gives "ic"), ("ical", gives "ic"), ("ful", gives ""),
    ("ness", gives ""),
    ("ative", ⟨fun r stem => inFirst r stem && inSecond r stem, ""⟩) ]

/-- Suffixes that are dropped in the second region. -/
def endings : List (String × SuffixRule) :=
  let names := ["al", "ance", "ence", "er", "ic", "able", "ible", "ant", "ement", "ment", "ent",
    "ism", "ate", "iti", "ous", "ive", "ize"]
  names.map (fun name => (name, ⟨inSecond, ""⟩)) ++
    [("ion", ⟨fun r stem => inSecond r stem && endsWithAny "st" stem, ""⟩)]

/-- A final `e`, and the second of two final `l`s. -/
def finals : List (String × SuffixRule) :=
  [ ("e", ⟨fun r stem => inSecond r stem || (inFirst r stem && !endsShort stem), ""⟩),
    ("l", ⟨fun r stem => inSecond r stem && endsWithAny "l" stem, ""⟩) ]

/-- Words with a stem of their own. -/
def irregular : List (String × String) :=
  [ ("skis", "ski"), ("skies", "sky"), ("dying", "die"), ("lying", "lie"), ("tying", "tie"),
    ("idly", "idl"), ("gently", "gentl"), ("ugly", "ugli"), ("early", "earli"), ("only", "onli"),
    ("singly", "singl"), ("sky", "sky"), ("news", "news"), ("howe", "howe"), ("atlas", "atlas"),
    ("cosmos", "cosmos"), ("bias", "bias"), ("andes", "andes") ]

/-- Words that stay as they are once plural endings are off. -/
def invariable : List String :=
  ["inning", "outing", "canning", "herring", "earring", "proceed", "exceed", "succeed"]

/-- The steps for regular words of three letters or more. -/
def regular (word : Word) : Word :=
  let word := prepare word
  let r := regions word
  let word := dropPlural (dropPossessive word)
  let word :=
    if invariable.contains (String.ofList word) then word
    else
      let word := softenFinalY (dropVerbEnding r word)
      let word := replaceSuffix r qualities (replaceSuffix r derivations word)
      replaceSuffix r finals (replaceSuffix r endings word)
  word

/-- Whether preparation marked a `y` as a consonant. -/
def marksY (word : Word) : Bool := (prepare word).count 'Y' != word.count 'Y'

/-- The stem of a word. -/
def stem (text : String) : String :=
  match irregular.find? fun entry => entry.1 == text with
  | some (_, stem) => stem
  | none =>
    let word := text.toList
    if word.length < 3 then text
    else
      let stemmed := regular word
      let lowered := stemmed.map fun c => if c == 'Y' then 'y' else c
      String.ofList (if marksY word then lowered else stemmed)

end DocIndex.Analysis.Stem
