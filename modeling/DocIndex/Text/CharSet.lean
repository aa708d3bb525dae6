/-
Sets of characters given by intervals of code points.

A set is a list of closed intervals in increasing order.  Properties that hold of every
second character over a long stretch (upper case letters beside their lower case partners)
are given by runs with a step instead.  Membership scans the list, so that a proof about
one character is a computation on numbers.

White space are the characters with the White_Space property, and texts are trimmed by it.
-/

namespace DocIndex.Text

/-- Whether a character lies in one of the closed intervals. -/
def inIntervals (set : List (Nat × Nat)) (c : Char) : Bool :=
  set.any fun interval => interval.1 ≤ c.toNat && c.toNat ≤ interval.2

/-- The code points `first`, `first + step`, and so on up to `last`. -/
structure CharRun where
  first : Nat
  last : Nat
  step : Nat

namespace CharRun

/-- Whether a code point is one of the run's. -/
def holds (run : CharRun) (code : Nat) : Bool :=
  run.first ≤ code && code ≤ run.last && (code - run.first) % run.step == 0

end CharRun

/-- Whether a character lies in one of the runs. -/
def inRuns (set : List CharRun) (c : Char) : Bool :=
  set.any fun run => run.holds c.toNat

/-! ### White space -/

/-- Code points with the White_Space property. -/
def blankIntervals : List (Nat × Nat) :=
  [(0x9, 0xD), (0x20, 0x20), (0x85, 0x85), (0xA0, 0xA0), (0x1680, 0x1680), (0x2000, 0x200A),
   (0x2028, 0x2029), (0x202F, 0x202F), (0x205F, 0x205F), (0x3000, 0x3000)]

/-- A white space character of any script. -/
def isBlank (c : Char) : Bool := inIntervals blankIntervals c

/-- The text from its first character that is not blank. -/
def trimLeft (text : List Char) : List Char := text.dropWhile isBlank

/-- The text without blanks at either end. -/
def trim (text : List Char) : List Char := (trimLeft (trimLeft text).reverse).reverse

end DocIndex.Text
