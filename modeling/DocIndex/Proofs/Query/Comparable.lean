/-
Queries that can be compared with themselves.

Equality of query trees is that of the numbers in them, and a NaN equals nothing.  So a tree
with a NaN in it is not even equal to itself, and whoever waits for two trees to become equal
may wait forever.  A tree without one is equal to itself, and that is all that its normal form
needs to know of it; the parts of such a tree and the scalars of its values are like it.
-/
import Mathlib.Tactic.Common
import DocIndex.Query.Tree

namespace DocIndex

theorem Double.same_self {x : Double} (h : x.isNaN = false) : x.same x = true := by
  simp [Double.same, Double.order?, h]

namespace Json

mutual

/-- Whether no number in the value is a NaN. -/
def isNaNFree : Json → Bool
  | double x => !x.isNaN
  | array items => areNaNFree items
  | object members => membersNaNFree members
  | _ => true

/-- Whether no number in any of the values is a NaN. -/
def areNaNFree : List Json → Bool
  | [] => true
  | item :: rest => isNaNFree item && areNaNFree rest

/-- Whether no number in any of the members is a NaN. -/
def membersNaNFree : List (String × Json) → Bool
  | [] => true
  | (_, value) :: rest => isNaNFree value && membersNaNFree rest

end

theorem membersNaNFree_iff {members : List (String × Json)} :
    membersNaNFree members = true ↔ ∀ entry ∈ members, entry.2.isNaNFree = true := by
  induction members with
  | nil => simp [membersNaNFree]
  | cons first rest ih => simp [membersNaNFree, ih]

mutual

theorem same_self : ∀ {json : Json}, json.isNaNFree = true → same json json = true
  | null, _ => rfl
  | bool _, _ => by simp [same]
  | int _, _ => by simp [same]
  | double x, h => Double.same_self (by simpa [isNaNFree] using h)
  | text _, _ => by simp [same]
  | array _, h => sameItems_self h
  | object _, h => sameMembers_self h

theorem sameItems_self : ∀ {items : List Json}, areNaNFree items = true →
    sameItems items items = true
  | [], _ => rfl
  | item :: rest, h => by
      simp only [areNaNFree, Bool.and_eq_true] at h
      simp [sameItems, same_self h.1, sameItems_self h.2]

theorem sameMembers_self : ∀ {members : List (String × Json)}, membersNaNFree members = true →
    sameMembers members members = true
  | [], _ => rfl
  | (_, value) :: rest, h => by
      simp only [membersNaNFree, Bool.and_eq_true] at h
      simp [sameMembers, same_self h.1, sameMembers_self h.2]

end

end Json

namespace Query

namespace Value

mutual

/-- Whether no number in the value is a NaN. -/
def isNaNFree : Value → Bool
  | number x => !x.isNaN
  | list values => areNaNFree values
  | _ => true

/-- Whether no number in any of the values is a NaN. -/
def areNaNFree : List Value → Bool
  | [] => true
  | value :: rest => isNaNFree value && areNaNFree rest

end

theorem areNaNFree_iff {values : List Value} :
    areNaNFree values = true ↔ ∀ value ∈ values, value.isNaNFree = true := by
  induction values with
  | nil => simp [areNaNFree]
  | cons value rest ih => simp [areNaNFree, ih]

mutual

theorem same_self : ∀ {value : Value}, value.isNaNFree = true → same value value = true
  | word _, _ => by simp [same]
  | wildcard _, _ => by simp [same]
  | phrase _, _ => by simp [same]
  | number x, h => Double.same_self (by simpa [isNaNFree] using h)
  | integer _, _ => by simp [same]
  | time _ _, _ => by simp [same, Moment.sameInstant]
  | relative _, _ => by simp [same]
  | everything, _ => rfl
  | list _, h => sameAll_self h

theorem sameAll_self : ∀ {values : List Value}, areNaNFree values = true →
    sameAll values values = true
  | [], _ => rfl
  | value :: rest, h => by
      simp only [areNaNFree, Bool.and_eq_true] at h
      simp [sameAll, same_self h.1, sameAll_self h.2]

end

mutual

theorem scalars_nanFree : ∀ {value : Value}, value.isNaNFree = true →
    areNaNFree value.scalars = true
  | word _, _ => rfl
  | wildcard _, _ => rfl
  | phrase _, _ => rfl
  | number x, h => by simpa [scalars, areNaNFree] using h
  | integer _, _ => rfl
  | time _ _, _ => rfl
  | relative _, _ => rfl
  | everything, _ => rfl
  | list _, h => scalarsOfAll_nanFree h

theorem scalarsOfAll_nanFree : ∀ {values : List Value}, areNaNFree values = true →
    areNaNFree (scalarsOfAll values) = true
  | [], _ => rfl
  | value :: rest, h => by
      simp only [areNaNFree, Bool.and_eq_true] at h
      have hfirst := areNaNFree_iff.mp (scalars_nanFree h.1)
      have hrest := areNaNFree_iff.mp (scalarsOfAll_nanFree h.2)
      refine areNaNFree_iff.mpr fun v hv => ?_
      rcases List.mem_append.mp hv with hv | hv
      · exact hfirst v hv
      · exact hrest v hv

end

/-- Whether a value is no list. -/
def isScalar : Value → Bool
  | list _ => false
  | _ => true

mutual

/-- No scalar of a value is a list. -/
theorem isScalar_of_mem_scalars : ∀ {value scalar : Value}, scalar ∈ value.scalars →
    scalar.isScalar = true
  | list values, _, h => @isScalar_of_mem_scalarsOfAll values _ h
  | word _, _, h | wildcard _, _, h | phrase _, _, h | number _, _, h | integer _, _, h
  | time _ _, _, h | relative _, _, h | everything, _, h => by
      obtain rfl := List.mem_singleton.mp h
      rfl

theorem isScalar_of_mem_scalarsOfAll : ∀ {values : List Value} {scalar : Value},
    scalar ∈ scalarsOfAll values → scalar.isScalar = true
  | [], _, h => absurd h List.not_mem_nil
  | _ :: _, _, h => (List.mem_append.mp h).elim isScalar_of_mem_scalars
      isScalar_of_mem_scalarsOfAll

end

end Value

namespace Clause

/-- Whether no number in the clause or its tags is a NaN. -/
def isNaNFree (c : Clause) : Bool := c.value.isNaNFree && Json.membersNaNFree c.tags

theorem same_self {c : Clause} (h : c.isNaNFree = true) : c.same c = true := by
  simp only [isNaNFree, Bool.and_eq_true] at h
  simp [same, Value.same_self h.1, Json.sameMembers_self h.2]

end Clause

namespace Tree

mutual

/-- Whether no number in the tree or its tags is a NaN. -/
def isNaNFree : Tree → Bool
  | clause c => c.isNaNFree
  | all parts tags | any parts tags | adjacent parts tags =>
    areNaNFree parts && Json.membersNaNFree tags
  | negated tree tags => isNaNFree tree && Json.membersNaNFree tags
  | sorted tree _ tags => isNaNFree tree && Json.membersNaNFree tags

/-- Whether no number in any of the trees is a NaN. -/
def areNaNFree : List Tree → Bool
  | [] => true
  | tree :: rest => isNaNFree tree && areNaNFree rest

end

theorem areNaNFree_iff {trees : List Tree} :
    areNaNFree trees = true ↔ ∀ tree ∈ trees, tree.isNaNFree = true := by
  induction trees with
  | nil => simp [areNaNFree]
  | cons tree rest ih => simp [areNaNFree, ih]

mutual

theorem same_self : ∀ {tree : Tree}, tree.isNaNFree = true → same tree tree = true
  | clause _, h => Clause.same_self h
  | all _ _, h => by
      simp only [isNaNFree, Bool.and_eq_true] at h
      simp [same, sameAll_self h.1, Json.sameMembers_self h.2]
  | any _ _, h => by
      simp only [isNaNFree, Bool.and_eq_true] at h
      simp [same, sameAll_self h.1, Json.sameMembers_self h.2]
  | adjacent _ _, h => by
      simp only [isNaNFree, Bool.and_eq_true] at h
      simp [same, sameAll_self h.1, Json.sameMembers_self h.2]
  | negated _ _, h => by
      simp only [isNaNFree, Bool.and_eq_true] at h
      simp [same, same_self h.1, Json.sameMembers_self h.2]
  | sorted _ _ _, h => by
      simp only [isNaNFree, Bool.and_eq_true] at h
      simp [same, same_self h.1, Json.sameMembers_self h.2]

theorem sameAll_self : ∀ {trees : List Tree}, areNaNFree trees = true →
    sameAll trees trees = true
  | [], _ => rfl
  | tree :: rest, h => by
      simp only [areNaNFree, Bool.and_eq_true] at h
      simp [sameAll, same_self h.1, sameAll_self h.2]

end

end Tree

end Query

end DocIndex
