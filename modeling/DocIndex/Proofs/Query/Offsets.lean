/-
Relative times as signed sums.

A relative time is written as an anchor, a sign and groups of an amount and a unit.  What it
stands for is read group by group, each with the sign of the whole, and every number on the way
has to fit its word.  As all groups have one sign, the sums only ever grow away from zero: they
all fit if the last one does, so it makes no difference in which order the groups stand.

The same reading can be done by the byte places at which digits begin and end, cutting the text
there.  In a literal that the grammar recognises these places are where the groups end, so a
round takes one group, no place lies outside the text, and the rounds are as many as the groups.
-/
import Mathlib.Tactic.SplitIfs
import DocIndex.Proofs.Query.Runs
import DocIndex.Proofs.Text.Digits

namespace DocIndex.Query

/-! ### Units of time -/

inductive TimeUnit where
  | year
  | month
  | week
  | day
  | hour
  | minute
  | second
deriving DecidableEq

namespace TimeUnit

/-- The names of a unit; a month and a minute differ in the case of their letter. -/
def names : TimeUnit → List String
  | year => ["y", "year", "years"]
  | month => ["M", "mo", "month", "months"]
  | week => ["w", "week", "weeks"]
  | day => ["d", "day", "days"]
  | hour => ["h", "hour", "hours"]
  | minute => ["m", "min", "minute", "minutes"]
  | second => ["s", "sec", "second", "seconds"]

/-- The calendar months of a unit. -/
def months : TimeUnit → Nat
  | year => 12
  | month => 1
  | _ => 0

/-- The nanoseconds of a unit that always has as many. -/
def nanos : TimeUnit → Nat
  | year | month => 0
  | week => 604800000000000
  | day => 86400000000000
  | hour => 3600000000000
  | minute => 60000000000
  | second => 1000000000

def ofName? (name : String) : Option TimeUnit :=
  if year.names.contains name then some year
  else if month.names.contains name then some month
  else if week.names.contains name then some week
  else if day.names.contains name then some day
  else if hour.names.contains name then some hour
  else if minute.names.contains name then some minute
  else if second.names.contains name then some second
  else none

end TimeUnit

namespace Lexer

open Text (NoDigit noDigit_cons takeWhile_isDigit dropWhile_isDigit)

/-! ### Amounts in range -/

namespace Shift

/-- Whether months and nanoseconds fit their words. -/
def InRange (s : Shift) : Prop :=
  fitsMonths s.months = true ∧ -Span.limit ≤ s.span.nanos ∧ s.span.nanos ≤ Span.limit

instance (s : Shift) : Decidable s.InRange := by unfold InRange; infer_instance

def check? (s : Shift) : Option Shift := if s.InRange then some s else none

/-- So many of a unit, in range or not. -/
def times (amount : Int) (unit : TimeUnit) : Shift := ⟨amount * unit.months, ⟨amount * unit.nanos⟩⟩

theorem check?_eq_some {s t : Shift} : s.check? = some t ↔ s.InRange ∧ t = s := by
  unfold check?
  split <;> simp [*, eq_comm]

theorem ofMonths?_eq (n : Int) : ofMonths? n = check? ⟨n, ⟨0⟩⟩ := by
  have hzero : -Span.limit ≤ 0 ∧ 0 ≤ Span.limit := by decide
  simp only [ofMonths?, check?, InRange, hzero, and_true]
  rfl

theorem ofSeconds?_eq (n : Int) : ofSeconds? n = check? ⟨0, ⟨n * 1000000000⟩⟩ := by
  have hzero : fitsMonths 0 = true := rfl
  change (Span.check? (n * 1000000000)).map _ = _
  simp only [Span.check?, check?, InRange, hzero, true_and, Bool.and_eq_true, decide_eq_true_eq]
  split <;> rfl

theorem add?_eq (a b : Shift) :
    a.add? b = check? ⟨a.months + b.months, ⟨a.span.nanos + b.span.nanos⟩⟩ := by
  simp only [add?, Span.add?, Span.check?, check?, InRange, Bool.and_eq_true, decide_eq_true_eq]
  by_cases hspan : -Span.limit ≤ a.span.nanos + b.span.nanos ∧
      a.span.nanos + b.span.nanos ≤ Span.limit
  · simp only [hspan, and_true, if_true]
    rfl
  · simp only [hspan, and_false, if_false]
    rfl

/-- Each unit has its names, and is counted in months or in nanoseconds. -/
theorem ofUnit?_eq (amount : Int) (name : String) :
    ofUnit? amount name = (TimeUnit.ofName? name).bind fun unit => (times amount unit).check? := by
  change (if TimeUnit.year.names.contains name then ofMonths? (amount * 12)
    else if TimeUnit.month.names.contains name then ofMonths? amount
    else if TimeUnit.week.names.contains name then ofSeconds? (amount * 604800)
    else if TimeUnit.day.names.contains name then ofSeconds? (amount * 86400)
    else if TimeUnit.hour.names.contains name then ofSeconds? (amount * 3600)
    else if TimeUnit.minute.names.contains name then ofSeconds? (amount * 60)
    else if TimeUnit.second.names.contains name then ofSeconds? amount
    else none) = _
  unfold TimeUnit.ofName?
  split_ifs <;>
    simp [ofMonths?_eq, ofSeconds?_eq, times, TimeUnit.months, TimeUnit.nanos, Int.mul_assoc]

end Shift

/-! ### What is written -/

namespace UnitGroup

def written (group : UnitGroup) : List Char := group.digits ++ group.unit

/-- Digits and letters, at least one of each. -/
structure WellFormed (group : UnitGroup) : Prop where
  digits : IsDigits group.digits
  letter : group.unit ≠ []
  letters : ∀ c ∈ group.unit, isLetter c = true

def amount (group : UnitGroup) : Nat := numeralValue group.digits

def unit? (group : UnitGroup) : Option TimeUnit := TimeUnit.ofName? (String.ofList group.unit)

/-- The calendar months of a group, none if its unit is not known. -/
def months (group : UnitGroup) : Nat := group.amount * group.unit?.elim 0 TimeUnit.months

def nanos (group : UnitGroup) : Nat := group.amount * group.unit?.elim 0 TimeUnit.nanos

end UnitGroup

/-- The months of all groups. -/
def monthsOf (groups : List UnitGroup) : Nat := groups.foldr (fun group n => group.months + n) 0

def nanosOf (groups : List UnitGroup) : Nat := groups.foldr (fun group n => group.nanos + n) 0

/-- The sum of groups that all have the same sign, in range or not. -/
def sumOf (negative : Bool) (groups : List UnitGroup) : Shift :=
  ⟨signed negative (monthsOf groups), ⟨signed negative (nanosOf groups)⟩⟩

/-- Whether the unit is known, and the amount and what it makes in that unit are in range. -/
structure UnitGroup.InRange (negative : Bool) (group : UnitGroup) : Prop where
  known : group.unit?.isSome = true
  amount : (group.amount : Int) ≤ int64Max
  product : (sumOf negative [group]).InRange

def anchorText : Option Anchor → List Char
  | none => []
  | some .now => "NOW".toList
  | some .today => "TODAY".toList

def signText (negative : Bool) : Char := if negative then '-' else '+'

namespace RelativeLiteral

/-- The literal as text: without groups there is no sign. -/
def written (literal : RelativeLiteral) : List Char :=
  anchorText literal.anchor ++ match literal.groups with
    | [] => []
    | groups => signText literal.negative :: groups.flatMap UnitGroup.written

/-- A literal of the grammar: groups with a sign, or else an anchor alone. -/
structure WellFormed (literal : RelativeLiteral) : Prop where
  groups : ∀ group ∈ literal.groups, group.WellFormed
  bare : literal.groups = [] → literal.anchor.isSome = true ∧ literal.negative = false

/-- Whether every unit is known, and every amount, product and sum is in range. -/
structure InRange (literal : RelativeLiteral) : Prop where
  groups : ∀ group ∈ literal.groups, group.InRange literal.negative
  sums : ∀ front, front <+: literal.groups → (sumOf literal.negative front).InRange

end RelativeLiteral

/-! ### Sums in range -/

section Sums

variable {negative : Bool} {group : UnitGroup} {groups others : List UnitGroup}

theorem foldr_add_append (f : UnitGroup → Nat) (groups others : List UnitGroup) :
    (groups ++ others).foldr (fun group n => f group + n) 0
      = groups.foldr (fun group n => f group + n) 0
        + others.foldr (fun group n => f group + n) 0 := by
  induction groups with
  | nil => exact (Nat.zero_add _).symm
  | cons group rest ih => rw [List.cons_append, List.foldr_cons, ih, List.foldr_cons, Nat.add_assoc]

theorem monthsOf_append (groups others : List UnitGroup) :
    monthsOf (groups ++ others) = monthsOf groups + monthsOf others :=
  foldr_add_append UnitGroup.months groups others

theorem nanosOf_append (groups others : List UnitGroup) :
    nanosOf (groups ++ others) = nanosOf groups + nanosOf others :=
  foldr_add_append UnitGroup.nanos groups others

theorem sumOf_perm (h : groups.Perm others) : sumOf negative groups = sumOf negative others := by
  have hfold : ∀ f : UnitGroup → Nat,
      groups.foldr (fun group n => f group + n) 0 = others.foldr (fun group n => f group + n) 0 :=
    fun f => h.foldr_eq' (fun a _ b _ n => Nat.add_left_comm (f b) (f a) n) 0
  simp only [sumOf, monthsOf, nanosOf, hfold]

theorem signed_add (negative : Bool) (m n : Nat) :
    signed negative m + signed negative n = signed negative (m + n) := by
  unfold signed
  split <;> omega

theorem signed_mul (negative : Bool) (m n : Nat) :
    signed negative m * (n : Int) = signed negative (m * n) := by
  unfold signed
  split
  · rw [Int.neg_mul, Int.natCast_mul]
  · rw [Int.natCast_mul]

/-- What is nearer to zero lies between the same bounds. -/
theorem signed_between {m n : Nat} (h : m ≤ n) {least most : Int} (hleast : least ≤ 0)
    (hmost : 0 ≤ most) (hn : least ≤ signed negative n ∧ signed negative n ≤ most) :
    least ≤ signed negative m ∧ signed negative m ≤ most := by
  cases negative <;> simp only [signed, Bool.false_eq_true, if_false, if_true] at hn ⊢ <;> omega

/-- A sum of some of the groups is in range if one that is not smaller is. -/
theorem inRange_of_le (hmonths : monthsOf groups ≤ monthsOf others)
    (hnanos : nanosOf groups ≤ nanosOf others) (h : (sumOf negative others).InRange) :
    (sumOf negative groups).InRange := by
  have hfits : ∀ n : Int, fitsMonths n = true ↔ -0x80000000 ≤ n ∧ n ≤ 0x7fffffff := by
    intro n
    simp only [fitsMonths, Bool.and_eq_true, decide_eq_true_eq]
    omega
  obtain ⟨hleast, hmost⟩ := h
  exact ⟨(hfits _).mpr (signed_between hmonths (by decide) (by decide) ((hfits _).mp hleast)),
    signed_between hnanos (by decide) (by decide) hmost⟩

/-- The sum of the first groups is in range if that of all of them is. -/
theorem inRange_of_prefix (hfront : groups <+: others) (h : (sumOf negative others).InRange) :
    (sumOf negative groups).InRange := by
  obtain ⟨rest, rfl⟩ := hfront
  refine inRange_of_le ?_ ?_ h
  · rw [monthsOf_append]
    exact Nat.le_add_right _ _
  · rw [nanosOf_append]
    exact Nat.le_add_right _ _

/-- What a group stands for. -/
def UnitGroup.shift? (negative : Bool) (group : UnitGroup) : Option Shift := do
  let amount ← readInt64? group.digits
  Shift.ofUnit? (if negative then -amount else amount) (String.ofList group.unit)

/-- One more group. -/
def addGroup? (negative : Bool) (total : Shift) (group : UnitGroup) : Option Shift :=
  (group.shift? negative).bind total.add?

theorem shift?_eq (literal : RelativeLiteral) :
    literal.shift? = literal.groups.foldlM (addGroup? literal.negative) Shift.zero := by
  refine congrArg (fun step => literal.groups.foldlM step Shift.zero) ?_
  funext total group
  exact (Option.bind_assoc ..).symm

theorem readInt64?_digits {digits : List Char} (h : IsDigits digits) {n : Int} :
    readInt64? digits = some n ↔
      (numeralValue digits : Int) ≤ int64Max ∧ n = numeralValue digits := by
  rw [readInt64?_eq_some]
  have hleast : int64Min ≤ (numeralValue digits : Int) :=
    Int.le_trans (by decide) (Int.natCast_nonneg _)
  constructor
  · rintro ⟨hsigned, hfits⟩
    obtain rfl := hsigned.unique (.plain h)
    simp only [fitsInt64, Bool.and_eq_true, decide_eq_true_eq] at hfits
    exact ⟨hfits.2, rfl⟩
  · rintro ⟨hmost, rfl⟩
    exact ⟨.plain h, by simp [fitsInt64, hleast, hmost]⟩

theorem times_signed (negative : Bool) (group : UnitGroup) {unit : TimeUnit}
    (hunit : group.unit? = some unit) :
    Shift.times (signed negative group.amount) unit = sumOf negative [group] := by
  simp only [Shift.times, sumOf, monthsOf, nanosOf, List.foldr_cons, List.foldr_nil, Nat.add_zero,
    UnitGroup.months, UnitGroup.nanos, hunit, Option.elim_some, signed_mul]

theorem UnitGroup.WellFormed.shift?_eq_some (h : group.WellFormed) {product : Shift} :
    group.shift? negative = some product ↔
      group.InRange negative ∧ product = sumOf negative [group] := by
  have hunit : Shift.ofUnit? (signed negative group.amount) (String.ofList group.unit)
      = some product ↔ group.unit?.isSome = true ∧ (sumOf negative [group]).InRange ∧
        product = sumOf negative [group] := by
    rw [Shift.ofUnit?_eq]
    change (group.unit?.bind _) = _ ↔ _
    cases hunit : group.unit? with
    | none => simp
    | some unit =>
        rw [Option.bind_some, times_signed negative group hunit, Shift.check?_eq_some]
        simp
  simp only [UnitGroup.shift?, Option.bind_eq_bind, Option.bind_eq_some_iff,
    readInt64?_digits h.digits]
  constructor
  · rintro ⟨_, ⟨hamount, rfl⟩, hproduct⟩
    obtain ⟨hknown, hrange, heq⟩ := hunit.mp hproduct
    exact ⟨⟨hknown, hamount, hrange⟩, heq⟩
  · rintro ⟨⟨hknown, hamount, hrange⟩, heq⟩
    exact ⟨_, ⟨hamount, rfl⟩, hunit.mpr ⟨hknown, hrange, heq⟩⟩

/-- A group is added if it is in range and the sum is. -/
theorem addGroup?_eq_some (hgroup : group.WellFormed) {total : Shift} :
    addGroup? negative (sumOf negative groups) group = some total ↔
      group.InRange negative ∧ (sumOf negative (groups ++ [group])).InRange ∧
        total = sumOf negative (groups ++ [group]) := by
  have hadd : (sumOf negative groups).add? (sumOf negative [group])
      = (sumOf negative (groups ++ [group])).check? := by
    simp only [Shift.add?_eq, sumOf, signed_add, monthsOf_append, nanosOf_append]
  rw [addGroup?, Option.bind_eq_some_iff]
  constructor
  · rintro ⟨product, hproduct, htotal⟩
    obtain ⟨hrange, rfl⟩ := (hgroup.shift?_eq_some).mp hproduct
    rw [hadd, Shift.check?_eq_some] at htotal
    exact ⟨hrange, htotal⟩
  · rintro ⟨hrange, htotal⟩
    refine ⟨_, hgroup.shift?_eq_some.mpr ⟨hrange, rfl⟩, ?_⟩
    rw [hadd, Shift.check?_eq_some]
    exact htotal

/-- **The groups are added up if each of them and each sum on the way is in range.** -/
theorem foldlM_addGroup? (hgroups : ∀ group ∈ groups, group.WellFormed) {done : List UnitGroup}
    (hdone : (sumOf negative done).InRange) {total : Shift} :
    groups.foldlM (addGroup? negative) (sumOf negative done) = some total ↔
      (∀ group ∈ groups, group.InRange negative) ∧
        (∀ front, front <+: groups → (sumOf negative (done ++ front)).InRange) ∧
        total = sumOf negative (done ++ groups) := by
  induction groups generalizing done with
  | nil =>
      simp only [List.foldlM_nil, Option.pure_def, Option.some.injEq, List.prefix_nil, forall_eq,
        List.append_nil, hdone, true_and, List.not_mem_nil, false_imp_iff, implies_true, eq_comm]
  | cons group rest ih =>
      obtain ⟨hgroup, hrest⟩ := List.forall_mem_cons.mp hgroups
      rw [List.foldlM_cons, Option.bind_eq_bind, Option.bind_eq_some_iff]
      constructor
      · rintro ⟨sum, hsum, htotal⟩
        obtain ⟨hrange, hnext, rfl⟩ := (addGroup?_eq_some hgroup).mp hsum
        obtain ⟨hall, hsums, rfl⟩ := (ih hrest hnext).mp htotal
        refine ⟨List.forall_mem_cons.mpr ⟨hrange, hall⟩, fun front hfront => ?_, by simp⟩
        rcases List.prefix_cons_iff.mp hfront with rfl | ⟨others, rfl, hothers⟩
        · rwa [List.append_nil]
        · have hrangeOthers := hsums others hothers
          rwa [List.append_assoc] at hrangeOthers
      · rintro ⟨hall, hsums, rfl⟩
        obtain ⟨hrange, hrests⟩ := List.forall_mem_cons.mp hall
        have hnext : (sumOf negative (done ++ [group])).InRange :=
          hsums [group] (List.prefix_append [group] rest)
        refine ⟨_, (addGroup?_eq_some hgroup).mpr ⟨hrange, hnext, rfl⟩,
          (ih hrest hnext).mpr ⟨hrests, fun front hfront => ?_, by simp⟩⟩
        rw [List.append_assoc]
        exact hsums (group :: front) (List.cons_prefix_cons.mpr ⟨rfl, hfront⟩)

end Sums

namespace RelativeLiteral

variable {literal : RelativeLiteral} {s : Shift}

/-- The literal with the same groups in another order. -/
def withGroups (literal : RelativeLiteral) (groups : List UnitGroup) : RelativeLiteral :=
  { literal with groups := groups }

/-- The literal with the other sign. -/
def flipped (literal : RelativeLiteral) : RelativeLiteral :=
  { literal with negative := !literal.negative }

/-- **A literal stands for the signed sum of its groups, if everything is in range.** -/
theorem shift?_eq_some (h : ∀ group ∈ literal.groups, group.WellFormed) :
    literal.shift? = some s ↔ literal.InRange ∧ s = sumOf literal.negative literal.groups := by
  have hzero : sumOf literal.negative [] = Shift.zero := by cases literal.negative <;> rfl
  have hdone : (sumOf literal.negative []).InRange := by
    rw [hzero]
    decide
  rw [shift?_eq, ← hzero, foldlM_addGroup? h hdone]
  simp only [List.nil_append]
  exact ⟨fun ⟨hgroups, hsums, hs⟩ => ⟨⟨hgroups, hsums⟩, hs⟩,
    fun ⟨⟨hgroups, hsums⟩, hs⟩ => ⟨hgroups, hsums, hs⟩⟩

theorem isSome_shift? (h : ∀ group ∈ literal.groups, group.WellFormed) :
    literal.shift?.isSome = true ↔ literal.InRange := by
  rw [Option.isSome_iff_exists]
  exact ⟨fun ⟨s, hs⟩ => ((shift?_eq_some h).mp hs).1, fun hrange =>
    ⟨_, (shift?_eq_some h).mpr ⟨hrange, rfl⟩⟩⟩

/-- Products and sums on the way are in range if the whole sum is. -/
theorem inRange_iff : literal.InRange ↔
    (∀ group ∈ literal.groups, group.unit?.isSome = true ∧ (group.amount : Int) ≤ int64Max) ∧
      (sumOf literal.negative literal.groups).InRange := by
  constructor
  · intro h
    exact ⟨fun group hgroup => ⟨(h.groups group hgroup).known, (h.groups group hgroup).amount⟩,
      h.sums _ List.prefix_rfl⟩
  · rintro ⟨hgroups, hsum⟩
    refine ⟨fun group hgroup => ?_, fun front hfront => inRange_of_prefix hfront hsum⟩
    obtain ⟨before, after, hsplit⟩ := List.append_of_mem hgroup
    have hfirst : literal.groups.Perm (group :: (before ++ after)) :=
      hsplit ▸ List.perm_middle
    rw [sumOf_perm hfirst] at hsum
    exact ⟨(hgroups group hgroup).1, (hgroups group hgroup).2,
      inRange_of_prefix (List.prefix_append [group] _) hsum⟩

variable {groups : List UnitGroup}

theorem WellFormed.withGroups (h : literal.WellFormed) (hperm : groups.Perm literal.groups) :
    (literal.withGroups groups).WellFormed where
  groups group hgroup := h.groups group (hperm.mem_iff.mp hgroup)
  bare hnil := h.bare (List.perm_nil.mp (hnil ▸ hperm.symm))

theorem WellFormed.flipped (h : literal.WellFormed) (hne : literal.groups ≠ []) :
    literal.flipped.WellFormed where
  groups := h.groups
  bare hnil := absurd hnil hne

/-- The order of the groups makes no difference. -/
theorem shift?_withGroups (h : literal.WellFormed) (hperm : groups.Perm literal.groups) :
    (literal.withGroups groups).shift? = literal.shift? := by
  refine Option.ext fun s => ?_
  rw [shift?_eq_some h.groups, shift?_eq_some (h.withGroups hperm).groups, inRange_iff, inRange_iff]
  change ((∀ group ∈ groups, _) ∧ (sumOf literal.negative groups).InRange) ∧
    s = sumOf literal.negative groups ↔ _
  rw [sumOf_perm hperm]
  simp only [hperm.mem_iff]

/-- The other sign negates the sum. -/
theorem shift?_flipped (h : ∀ group ∈ literal.groups, group.WellFormed) {t : Shift}
    (hs : literal.shift? = some s) (ht : literal.flipped.shift? = some t) :
    t.months = -s.months ∧ t.span = s.span.neg := by
  have hneg : ∀ n, signed (!literal.negative) n = -signed literal.negative n := by
    intro n
    cases literal.negative <;> simp [signed]
  obtain ⟨-, rfl⟩ := (shift?_eq_some h).mp hs
  obtain ⟨-, rfl⟩ := (@shift?_eq_some literal.flipped t h).mp ht
  exact ⟨hneg _, congrArg Span.mk (hneg _)⟩

end RelativeLiteral

/-! ### The grammar -/

section Grammar

variable {text rest : List Char} {groups : List UnitGroup}

theorem isLetter_of_isDigit {c : Char} (h : c.isDigit = true) : isLetter c = false := by
  have hletters : isLetter c = (decide ('A'.val ≤ c.val ∧ c.val ≤ 'Z'.val) ||
      (decide ('a'.val ≤ c.val) && decide (c.val ≤ 'z'.val))) := rfl
  simp only [Char.isDigit, Bool.and_eq_true, decide_eq_true_eq, UInt32.le_iff_toNat_le] at h
  simp only [hletters, Bool.or_eq_false_iff, Bool.and_eq_false_iff, decide_eq_false_iff_not,
    UInt32.le_iff_toNat_le]
  simp at h ⊢
  omega

theorem isDigit_of_isLetter {c : Char} (h : isLetter c = true) : c.isDigit = false := by
  by_contra hdigit
  rw [isLetter_of_isDigit (Bool.eq_true_of_not_eq_false hdigit)] at h
  cases h

/-- What is read as groups are groups. -/
theorem readGroups_eq {fuel : Nat} (h : readGroups fuel text = (groups, rest)) :
    text = groups.flatMap UnitGroup.written ++ rest ∧ ∀ group ∈ groups, group.WellFormed := by
  induction fuel generalizing text groups with
  | zero =>
      cases h
      exact ⟨rfl, nofun⟩
  | succ fuel ih =>
      rw [readGroups] at h
      simp only [Bool.or_eq_true, List.isEmpty_iff] at h
      split at h
      · cases h
        exact ⟨rfl, nofun⟩
      · rename_i hsome
        obtain ⟨hdigits, hletters⟩ := not_or.mp hsome
        generalize hread : readGroups fuel _ = found at h
        obtain ⟨others, left⟩ := found
        cases h
        obtain ⟨hmore, hothers⟩ := ih hread
        refine ⟨?_, List.forall_mem_cons.mpr ⟨⟨⟨hdigits, ?_⟩, hletters, ?_⟩, hothers⟩⟩
        · rw [List.flatMap_cons, List.append_assoc, ← hmore, UnitGroup.written, List.append_assoc,
            List.takeWhile_append_dropWhile, List.takeWhile_append_dropWhile]
        · exact List.all_eq_true.mp List.all_takeWhile
        · exact List.all_eq_true.mp List.all_takeWhile

/-- Text that does not go on with a letter. -/
def NoLetter (text : List Char) : Prop := ∀ c ∈ text.head?, isLetter c = false

theorem takeWhile_isLetter {letters : List Char} (h : ∀ c ∈ letters, isLetter c = true)
    (hrest : NoLetter rest) : (letters ++ rest).takeWhile isLetter = letters := by
  rw [List.takeWhile_append_of_pos h]
  cases rest with
  | nil => simp
  | cons c more =>
      have hc : isLetter c = false := hrest c rfl
      simp [hc]

theorem dropWhile_isLetter {letters : List Char} (h : ∀ c ∈ letters, isLetter c = true)
    (hrest : NoLetter rest) : (letters ++ rest).dropWhile isLetter = rest := by
  rw [List.dropWhile_append_of_pos h]
  cases rest with
  | nil => rfl
  | cons c more =>
      have hc : isLetter c = false := hrest c rfl
      simp [hc]

/-- Letters end where the digits of the next group begin. -/
theorem noLetter_groups (hgroups : ∀ group ∈ groups, group.WellFormed) (hrest : NoLetter rest) :
    NoLetter (groups.flatMap UnitGroup.written ++ rest) := by
  cases groups with
  | nil => exact hrest
  | cons group others =>
      obtain ⟨hne, hdigits⟩ := (hgroups group List.mem_cons_self).digits
      obtain ⟨c, more, heq⟩ := List.exists_cons_of_ne_nil hne
      rintro d hd
      rw [List.flatMap_cons, UnitGroup.written, heq] at hd
      obtain rfl := Option.some.inj hd
      exact isLetter_of_isDigit (hdigits c (heq ▸ List.mem_cons_self))

/-- Digits end where the letters of their group begin. -/
theorem UnitGroup.WellFormed.noDigit {group : UnitGroup} (h : group.WellFormed)
    (rest : List Char) : NoDigit (group.unit ++ rest) := by
  obtain ⟨c, more, heq⟩ := List.exists_cons_of_ne_nil h.letter
  rw [heq]
  exact noDigit_cons (isDigit_of_isLetter (h.letters c (heq ▸ List.mem_cons_self))) _

/-- Groups are read as the groups that they are. -/
theorem readGroups_written (hgroups : ∀ group ∈ groups, group.WellFormed)
    (hrest : atBoundary rest = true) {fuel : Nat} (hfuel : groups.length ≤ fuel) :
    readGroups fuel (groups.flatMap UnitGroup.written ++ rest) = (groups, rest) := by
  have hend : NoLetter rest := fun c hc => by
    by_contra hletter
    obtain ⟨more, rfl⟩ := List.head?_eq_some_iff.mp hc
    exact ne_cons_of_atBoundary hrest
      (wordTest_isLetter c (Bool.eq_true_of_not_eq_false hletter)) more rfl
  induction groups generalizing fuel with
  | nil =>
      rw [List.flatMap_nil, readGroups_append hrest]
      cases fuel <;> rfl
  | cons group others ih =>
      obtain ⟨hgroup, hothers⟩ := List.forall_mem_cons.mp hgroups
      cases fuel with
      | zero => cases hfuel
      | succ fuel =>
          have hnoDigit := hgroup.noDigit (others.flatMap UnitGroup.written ++ rest)
          have hnoLetter := noLetter_groups hothers hend
          rw [List.flatMap_cons, List.append_assoc, UnitGroup.written, List.append_assoc,
            readGroups]
          simp only [takeWhile_isDigit hgroup.digits.2 hnoDigit,
            dropWhile_isDigit hgroup.digits.2 hnoDigit,
            takeWhile_isLetter hgroup.letters hnoLetter,
            dropWhile_isLetter hgroup.letters hnoLetter,
            ih hothers (Nat.le_of_succ_le_succ hfuel), Bool.or_eq_true, List.isEmpty_iff,
            hgroup.digits.1, hgroup.letter, or_self, if_false]

theorem readAnchor_eq (text : List Char) :
    text = anchorText (readAnchor text).1 ++ (readAnchor text).2 := by
  have hfront : ∀ word : List Char, word.isPrefixOf text = true →
      text = word ++ text.drop word.length := fun word hword => by
    obtain ⟨rest, rfl⟩ := List.isPrefixOf_iff_prefix.mp hword
    rw [List.drop_left]
  unfold readAnchor
  split
  · rename_i hnow
    exact hfront _ hnow
  · split
    · rename_i htoday
      exact hfront _ htoday
    · rfl

theorem readAnchor_some (anchor : Anchor) (rest : List Char) :
    readAnchor (anchorText (some anchor) ++ rest) = (some anchor, rest) := by
  cases anchor <;> simp [readAnchor, anchorText, List.isPrefixOf]

theorem readAnchor_sign (anchor : Option Anchor) (negative : Bool) (rest : List Char) :
    readAnchor (anchorText anchor ++ signText negative :: rest)
      = (anchor, signText negative :: rest) := by
  cases anchor with
  | some anchor => exact readAnchor_some anchor _
  | none => cases negative <;> simp [readAnchor, anchorText, signText, List.isPrefixOf]

theorem signText_eq {c : Char} (h : (c == '+' || c == '-') = true) :
    signText (c == '-') = c := by
  rw [Bool.or_eq_true, beq_iff_eq, beq_iff_eq] at h
  rcases h with rfl | rfl <;> rfl

/-- There are no more groups than characters in them. -/
theorem length_le_written (hgroups : ∀ group ∈ groups, group.WellFormed) :
    groups.length ≤ (groups.flatMap UnitGroup.written).length := by
  induction groups with
  | nil => exact Nat.zero_le _
  | cons group others ih =>
      obtain ⟨hgroup, hothers⟩ := List.forall_mem_cons.mp hgroups
      have hpos := List.length_pos_of_ne_nil hgroup.letter
      have hrest := ih hothers
      rw [List.flatMap_cons, List.length_append, List.length_cons, UnitGroup.written,
        List.length_append]
      omega

theorem readRelativeLiteral?_eq {literal : RelativeLiteral}
    (h : readRelativeLiteral? text = some (literal, rest)) :
    literal.WellFormed ∧ text = literal.written ++ rest := by
  have htext := readAnchor_eq text
  unfold readRelativeLiteral? at h
  generalize readAnchor text = anchored at h htext
  obtain ⟨anchor, left⟩ := anchored
  have hbare : (anchor.map fun a => (RelativeLiteral.mk (some a) false [], left))
      = some (literal, rest) → literal.WellFormed ∧ text = literal.written ++ rest := by
    intro hsome
    obtain ⟨a, rfl, heq⟩ := Option.map_eq_some_iff.mp hsome
    cases heq
    exact ⟨⟨nofun, fun _ => ⟨rfl, rfl⟩⟩, by rw [htext, RelativeLiteral.written, List.append_nil]⟩
  cases left with
  | nil => exact hbare h
  | cons c more =>
      simp only at h
      split at h
      · rename_i hsign
        cases hread : readGroups more.length more with
        | mk groups left =>
            rw [hread] at h
            obtain ⟨hmore, hgroups⟩ := readGroups_eq hread
            cases groups with
            | nil => exact hbare h
            | cons group others =>
                cases h
                refine ⟨⟨hgroups, nofun⟩, ?_⟩
                rw [htext, RelativeLiteral.written, signText_eq hsign, List.append_assoc,
                  List.cons_append, ← hmore]
      · exact hbare h

/-- **The recogniser reads the literals of the grammar, and nothing else.** -/
theorem bounded_readRelativeLiteral? {literal : RelativeLiteral} :
    bounded (readRelativeLiteral? text) = some (literal, rest) ↔
      literal.WellFormed ∧ atBoundary rest = true ∧ text = literal.written ++ rest := by
  rw [bounded, Option.filter_eq_some_iff]
  constructor
  · rintro ⟨hread, hrest⟩
    obtain ⟨hliteral, htext⟩ := readRelativeLiteral?_eq hread
    exact ⟨hliteral, hrest, htext⟩
  · rintro ⟨hliteral, hrest, rfl⟩
    refine ⟨?_, hrest⟩
    obtain ⟨anchor, negative, groups⟩ := literal
    unfold readRelativeLiteral?
    cases groups with
    | nil =>
        obtain ⟨hanchor, hnegative⟩ := hliteral.bare rfl
        obtain ⟨a, rfl⟩ := Option.isSome_iff_exists.mp hanchor
        obtain rfl : negative = false := hnegative
        rw [RelativeLiteral.written, List.append_nil, readAnchor_some]
        cases rest with
        | nil => rfl
        | cons c more =>
            have hsign : (c == '+' || c == '-') = false := by
              rw [Bool.or_eq_false_iff, beq_eq_false_iff_ne, beq_eq_false_iff_ne]
              constructor <;> rintro rfl <;>
                exact ne_cons_of_atBoundary hrest (by decide) more rfl
            simp only [hsign, Bool.false_eq_true, if_false, Option.map_some]
    | cons group others =>
        have hfuel : (group :: others).length
            ≤ ((group :: others).flatMap UnitGroup.written ++ rest).length := by
          rw [List.length_append]
          exact (length_le_written hliteral.groups).trans (Nat.le_add_right _ _)
        have hsign : (signText negative == '-') = negative ∧
            (signText negative == '+' || negative) = true := by cases negative <;> decide
        rw [RelativeLiteral.written, List.append_assoc, List.cons_append, readAnchor_sign]
        simp only [hsign, if_true, readGroups_written hliteral.groups hrest hfuel]

end Grammar

/-! ### Reading by places -/

/-- Why a literal gives no value: it is refused, or a place outside the text was asked for. -/
inductive Fault where
  | refused
  | outside
deriving DecidableEq

def orRefuse {α : Type} : Option α → Except Fault α
  | some a => .ok a
  | none => .error .refused

/-- The bytes of a text. -/
def bytes : List Char → Nat
  | [] => 0
  | c :: rest => c.utf8Size + bytes rest

/-- The number of bytes in front of the first character that passes. -/
def findPlace? (p : Char → Bool) : List Char → Option Nat
  | [] => none
  | c :: rest => if p c then some 0 else (findPlace? p rest).map (c.utf8Size + ·)

/-- The text before and behind a place, which has to lie in the text and between characters. -/
def cutAt (place : Nat) : List Char → Except Fault (List Char × List Char)
  | [] => if place = 0 then .ok ([], []) else .error .outside
  | c :: rest =>
    if place = 0 then .ok ([], c :: rest)
    else if place < c.utf8Size then .error .outside
    else (cutAt (place - c.utf8Size) rest).map fun cut => (c :: cut.1, cut.2)

/-- The text between two places. -/
def slice (first last : Nat) (text : List Char) : Except Fault (List Char) := do
  if last < first then .error .outside
  else
    let (_, behind) ← cutAt first text
    let (between, _) ← cutAt (last - first) behind
    return between

/-- Reads the first amount up to what is no digit, and its unit up to the next digit. -/
def readUnitAt (negative : Bool) (text : List Char) : Except Fault (Shift × List Char) := do
  let digitsEnd ← orRefuse (findPlace? (fun c => !c.isDigit) text)
  let (digits, behind) ← cutAt digitsEnd text
  let amount ← orRefuse (readInt64? digits)
  let unitEnd := ((findPlace? Char.isDigit behind).map (digitsEnd + ·)).getD (bytes text)
  let unit ← slice digitsEnd unitEnd text
  let shift ← orRefuse (Shift.ofUnit? (if negative then -amount else amount) (String.ofList unit))
  let (_, rest) ← cutAt unitEnd text
  return (shift, rest)

/-- Adds amounts until the text is at its end, or `none` if so many rounds do not suffice. -/
def readUnitsAt (negative : Bool) (rounds : Nat) (total : Shift) (text : List Char) :
    Option (Except Fault Shift) :=
  match text, rounds with
  | [], _ => some (.ok total)
  | _ :: _, 0 => none
  | c :: more, rounds + 1 =>
    match readUnitAt negative (c :: more) with
    | .error fault => some (.error fault)
    | .ok (shift, rest) =>
      match total.add? shift with
      | none => some (.error .refused)
      | some total => readUnitsAt negative rounds total rest

/-- The value of the text of a relative literal: what is behind the anchor has a sign first. -/
def readOffsetAt (rounds : Nat) (text : List Char) : Option (Except Fault RelativeTime) :=
  let (anchor, rest) := readAnchor text
  let value (shift : Shift) : RelativeTime :=
    ⟨String.ofList text, anchor.getD .now, shift.months, shift.span⟩
  match rest with
  | [] => some (.ok (value Shift.zero))
  | c :: _ =>
    match cutAt 1 rest with
    | .error fault => some (.error fault)
    | .ok (_, body) => (readUnitsAt (c == '-') rounds Shift.zero body).map (·.map value)

section Places

variable {negative : Bool} {front rest : List Char} {groups : List UnitGroup}

theorem cutAt_bytes (front rest : List Char) :
    cutAt (bytes front) (front ++ rest) = .ok (front, rest) := by
  induction front with
  | nil => cases rest <;> rfl
  | cons c more ih =>
      have hpos := c.utf8Size_pos
      rw [List.cons_append, bytes, cutAt, if_neg (by omega), if_neg (by omega),
        Nat.add_sub_cancel_left, ih]
      rfl

theorem bytes_append (front rest : List Char) :
    bytes (front ++ rest) = bytes front + bytes rest := by
  induction front with
  | nil => exact (Nat.zero_add _).symm
  | cons c more ih => rw [List.cons_append, bytes, bytes, ih, Nat.add_assoc]

/-- What comes first is found, unless nothing passes. -/
theorem findPlace?_append {p : Char → Bool} (hfront : ∀ c ∈ front, p c = false)
    (hrest : ∀ c ∈ rest.head?, p c = true) :
    findPlace? p (front ++ rest) = if rest = [] then none else some (bytes front) := by
  induction front with
  | nil =>
      cases rest with
      | nil => rfl
      | cons c more =>
          have hc : p c = true := hrest c rfl
          rw [List.nil_append, findPlace?, if_pos hc, if_neg (List.cons_ne_nil _ _)]
          rfl
  | cons c more ih =>
      obtain ⟨hc, hmore⟩ := List.forall_mem_cons.mp hfront
      rw [List.cons_append, findPlace?, if_neg (by rw [hc]; decide), ih hmore]
      split <;> rfl

theorem slice_bytes (front middle rest : List Char) :
    slice (bytes front) (bytes (front ++ middle)) (front ++ middle ++ rest) = .ok middle := by
  rw [bytes_append]
  unfold slice
  rw [if_neg (by omega), Nat.add_sub_cancel_left, List.append_assoc, cutAt_bytes]
  change ((cutAt (bytes middle) (middle ++ rest)).bind _) = _
  rw [cutAt_bytes]
  rfl

/-- A group is read whole, and what is left are the next ones. -/
theorem readUnitAt_written {group : UnitGroup} (hgroup : group.WellFormed)
    (hrest : ∀ c ∈ rest.head?, c.isDigit = true) :
    readUnitAt negative (group.written ++ rest)
      = (orRefuse (group.shift? negative)).map fun shift => (shift, rest) := by
  have hletters : ∀ c ∈ group.unit, c.isDigit = false := fun c hc =>
    isDigit_of_isLetter (hgroup.letters c hc)
  have hdigits : findPlace? (fun c => !c.isDigit) (group.written ++ rest)
      = some (bytes group.digits) := by
    have hne : group.unit ++ rest ≠ [] := List.append_ne_nil_of_left_ne_nil hgroup.letter rest
    rw [UnitGroup.written, List.append_assoc, findPlace?_append, if_neg hne]
    · exact fun c hc => by rw [hgroup.digits.2 c hc]; rfl
    · exact fun c hc => by rw [hgroup.noDigit rest c hc]; rfl
  have hend : ((findPlace? Char.isDigit (group.unit ++ rest)).map (bytes group.digits + ·)).getD
      (bytes (group.written ++ rest)) = bytes group.written := by
    rw [findPlace?_append hletters hrest]
    split
    · rename_i hnil
      rw [hnil, List.append_nil]
      rfl
    · exact (bytes_append _ _).symm
  have hcut : cutAt (bytes group.digits) (group.written ++ rest)
      = .ok (group.digits, group.unit ++ rest) := by
    rw [UnitGroup.written, List.append_assoc, cutAt_bytes]
  have hunit : slice (bytes group.digits) (bytes group.written) (group.written ++ rest)
      = .ok group.unit := slice_bytes _ _ _
  have hbehind : cutAt (bytes group.written) (group.written ++ rest)
      = .ok (group.written, rest) := cutAt_bytes _ _
  have hstep : ∀ {α β : Type} (a : α) (f : α → Except Fault β), (Except.ok a >>= f) = f a :=
    fun _ _ => rfl
  unfold readUnitAt UnitGroup.shift?
  rw [hdigits]
  simp only [orRefuse, hstep, hcut, hend, hunit, hbehind]
  cases readInt64? group.digits with
  | none => rfl
  | some amount =>
      simp only [hstep, Option.bind_eq_bind, Option.bind_some]
      cases Shift.ofUnit? (if negative then -amount else amount) (String.ofList group.unit) <;> rfl

/-- Digits begin what is behind a group. -/
theorem head_isDigit (hgroups : ∀ group ∈ groups, group.WellFormed) :
    ∀ c ∈ (groups.flatMap UnitGroup.written).head?, c.isDigit = true := by
  cases groups with
  | nil => exact nofun
  | cons group others =>
      obtain ⟨hne, hdigits⟩ := (hgroups group List.mem_cons_self).digits
      obtain ⟨c, more, heq⟩ := List.exists_cons_of_ne_nil hne
      rintro d hd
      rw [List.flatMap_cons, UnitGroup.written, heq] at hd
      obtain rfl := Option.some.inj hd
      exact hdigits c (heq ▸ List.mem_cons_self)

/-- **One round takes one group**, so that there are as many rounds as groups. -/
theorem readUnitsAt_written (hgroups : ∀ group ∈ groups, group.WellFormed) {rounds : Nat}
    (hrounds : groups.length ≤ rounds) (total : Shift) :
    readUnitsAt negative rounds total (groups.flatMap UnitGroup.written)
      = some (orRefuse (groups.foldlM (addGroup? negative) total)) := by
  induction groups generalizing rounds total with
  | nil => cases rounds <;> rfl
  | cons group others ih =>
      obtain ⟨hgroup, hothers⟩ := List.forall_mem_cons.mp hgroups
      cases rounds with
      | zero => cases hrounds
      | succ rounds =>
          have hread := @readUnitAt_written negative _ _ hgroup (head_isDigit hothers)
          obtain ⟨c, more, heq⟩ : ∃ c more, group.written ++ others.flatMap UnitGroup.written
              = c :: more := List.exists_cons_of_ne_nil (List.append_ne_nil_of_left_ne_nil
                (List.append_ne_nil_of_left_ne_nil hgroup.digits.1 _) _)
          rw [List.flatMap_cons, heq, readUnitsAt, ← heq, hread, List.foldlM_cons, addGroup?]
          cases group.shift? negative with
          | none => rfl
          | some shift =>
              change (match total.add? shift with
                | none => some (.error .refused)
                | some total => readUnitsAt negative rounds total _) = some (orRefuse
                  ((total.add? shift).bind _))
              cases total.add? shift with
              | none => rfl
              | some sum => exact ih hothers (Nat.le_of_succ_le_succ hrounds) sum

end Places

namespace RelativeLiteral

variable {literal : RelativeLiteral} {text rest : List Char}

/-- The relative time of a literal whose groups add up to the shift. -/
def value (literal : RelativeLiteral) (shift : Shift) : RelativeTime :=
  ⟨String.ofList literal.written, literal.anchor.getD .now, shift.months, shift.span⟩

/-- Read by places, a literal of the grammar is refused or has its value. -/
theorem readOffsetAt_written (h : literal.WellFormed) {rounds : Nat}
    (hrounds : literal.groups.length ≤ rounds) : readOffsetAt rounds literal.written
      = some (orRefuse (literal.shift?.map literal.value)) := by
  obtain ⟨anchor, negative, groups⟩ := literal
  unfold readOffsetAt
  cases groups with
  | nil =>
      obtain ⟨a, rfl⟩ := Option.isSome_iff_exists.mp (h.bare rfl).1
      simp only [written, readAnchor_some]
      rfl
  | cons group others =>
      have hbytes : bytes [signText negative] = 1 := by cases negative <;> rfl
      have hsign : (signText negative == '-') = negative := by cases negative <;> rfl
      have hcut : cutAt 1 (signText negative :: (group :: others).flatMap UnitGroup.written)
          = .ok ([signText negative], (group :: others).flatMap UnitGroup.written) := by
        rw [← hbytes]
        exact cutAt_bytes [signText negative] _
      simp only [written, readAnchor_sign, hcut, hsign, readUnitsAt_written h.groups hrounds]
      rw [shift?_eq]
      cases (group :: others).foldlM (addGroup? negative) Shift.zero <;> rfl

/-- The token of a literal has its text and its value. -/
theorem readRelative?_written (h : literal.WellFormed) (hrest : atBoundary rest = true) :
    readRelative? (literal.written ++ rest)
      = literal.shift?.map fun shift => (.relative (literal.value shift), rest) := by
  have hread := bounded_readRelativeLiteral?.mpr ⟨h, hrest, rfl⟩
  have hraw : (literal.written ++ rest).take ((literal.written ++ rest).length - rest.length)
      = literal.written := by
    rw [List.length_append, Nat.add_sub_cancel, List.take_left]
  simp only [readRelative?, hread, Option.bind_eq_bind, Option.bind_some, hraw]
  cases literal.shift? <;> rfl

/-- What is read at the front of a text where the grammar finds a literal. -/
structure Reads (literal : RelativeLiteral) (text rest : List Char) : Prop where
  wellFormed : literal.WellFormed
  text_eq : text = literal.written ++ rest
  /-- The token, if there is a value. -/
  token : readRelative? text
    = literal.shift?.map fun shift => (.relative (literal.value shift), rest)
  /-- The same by places, which are never outside, in no more rounds than there are groups. -/
  byPlaces : ∀ rounds, literal.groups.length ≤ rounds → readOffsetAt rounds literal.written
    = some (orRefuse (literal.shift?.map literal.value))
  /-- There is a value if every unit is known, and every amount, product and sum is in range. -/
  isSome_iff : literal.shift?.isSome = true ↔ literal.InRange
  /-- The value is the signed sum over the groups. -/
  sums : ∀ shift, literal.shift? = some shift →
    shift.months = signed literal.negative (monthsOf literal.groups) ∧
      shift.span.nanos = signed literal.negative (nanosOf literal.groups)
  /-- The groups in any other order are a literal of the grammar with the same value. -/
  reordered : ∀ groups : List UnitGroup, groups.Perm literal.groups →
    (literal.withGroups groups).WellFormed ∧ (literal.withGroups groups).shift? = literal.shift?
  /-- With the other sign, and a value as well, the value is negated. -/
  flipped : ∀ shift other, literal.shift? = some shift → literal.flipped.shift? = some other →
    other.months = -shift.months ∧ other.span.nanos = -shift.span.nanos

/--
**A relative literal is read by its groups.**  Whatever the grammar recognises has a value
exactly if nothing in it is unknown or out of range, no place outside of it is looked at on the
way, and the value is a signed sum that does not depend on the order of the groups.
-/
theorem reads_of_recognised (h : bounded (readRelativeLiteral? text) = some (literal, rest)) :
    literal.Reads text rest := by
  obtain ⟨hliteral, hrest, rfl⟩ := bounded_readRelativeLiteral?.mp h
  exact {
    wellFormed := hliteral
    text_eq := rfl
    token := readRelative?_written hliteral hrest
    byPlaces := fun _ hrounds => readOffsetAt_written hliteral hrounds
    isSome_iff := isSome_shift? hliteral.groups
    sums := fun shift hshift => by
      obtain ⟨-, rfl⟩ := (shift?_eq_some hliteral.groups).mp hshift
      exact ⟨rfl, rfl⟩
    reordered := fun groups hperm =>
      ⟨hliteral.withGroups hperm, shift?_withGroups hliteral hperm⟩
    flipped := fun shift other hshift hother => by
      obtain ⟨hmonths, hspan⟩ := shift?_flipped hliteral.groups hshift hother
      exact ⟨hmonths, congrArg Span.nanos hspan⟩ }

/-- Years and months, minutes and days before today, in front of a parenthesis. -/
def someTimeAgo : RelativeLiteral :=
  ⟨some .today, true, [⟨['1'], ['y']⟩, ⟨['3'], ['m']⟩, ⟨['2'], ['M']⟩, ⟨['0', '4'], "days".toList⟩]⟩

theorem reads_of_recognised_someTimeAgo :
    bounded (readRelativeLiteral? "TODAY-1y3m2M04days)".toList) = some (someTimeAgo, [')']) ∧
      someTimeAgo.Reads "TODAY-1y3m2M04days)".toList [')'] ∧
      someTimeAgo.shift? = some ⟨-14, ⟨-345780000000000⟩⟩ :=
  ⟨rfl, reads_of_recognised rfl, rfl⟩

/-- The least number of months has no counterpart with the other sign. -/
example : (⟨none, true, [⟨"2147483648".toList, ['M']⟩]⟩ : RelativeLiteral).shift?.isSome = true ∧
    (⟨none, false, [⟨"2147483648".toList, ['M']⟩]⟩ : RelativeLiteral).shift?.isSome = false := by
  decide +kernel

end RelativeLiteral

end Lexer

end DocIndex.Query
