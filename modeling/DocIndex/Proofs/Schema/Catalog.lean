/-
What a catalog knows of fields.

Observations are kept in order, and the order tells different ones apart, so nothing is lost
where collections are merged: what is known afterwards is what was known before or is new.  The
observations of a field without a scope are then those known for any content type.
-/
import Mathlib.Tactic.Common
import DocIndex.Proofs.Index.Content
import DocIndex.Schema.FieldInfo

namespace DocIndex

instance : Std.LawfulEqOrd JsonType where
  compare_self := by
    intro a
    cases a <;> rfl
  eq_of_compare := by
    intro a b h
    cases a <;> cases b <;> first | rfl | cases h

/-- Types are in the order in which they are listed. -/
theorem JsonType.compare_eq (a b : JsonType) : compare a b = compare a.ctorIdx b.ctorIdx := by
  cases a <;> cases b <;> rfl

instance : Std.TransOrd JsonType where
  eq_swap := by
    intro a b
    rw [JsonType.compare_eq, JsonType.compare_eq]
    exact Std.OrientedCmp.eq_swap
  isLE_trans := by
    intro a b c
    simp only [JsonType.compare_eq]
    exact Std.TransCmp.isLE_trans

instance : Std.LawfulEqOrd FieldKind where
  compare_self := by
    intro a
    cases a <;> rfl
  eq_of_compare := by
    intro a b h
    cases a <;> cases b <;> first | rfl | cases h

instance : Std.LawfulEqOrd FieldInfo where
  compare_self := by
    intro info
    show instOrdFieldInfo.ord info info = .eq
    simp [instOrdFieldInfo.ord]
  eq_of_compare := by
    intro a b h
    cases a
    cases b
    have hparts : instOrdFieldInfo.ord _ _ = .eq := h
    simpa [instOrdFieldInfo.ord] using hparts

namespace FieldInfos

theorem mem_merge {infos others : FieldInfos} {info : FieldInfo} :
    info ∈ infos.merge others ↔ info ∈ infos ∨ info ∈ others := by
  unfold merge
  induction others generalizing infos with
  | nil => simp
  | cons first rest ih =>
      rw [List.foldl_cons, ih, add, mem_insertSorted, List.mem_cons]
      tauto

end FieldInfos

namespace FieldUse

theorem observe_ne_unknown (use : FieldUse) (info : FieldInfo) : use.observe info ≠ .unknown := by
  unfold observe
  split
  · exact FieldUse.noConfusion
  split
  · exact FieldUse.noConfusion
  split
  · exact FieldUse.noConfusion
  · cases use <;> exact FieldUse.noConfusion

/-- One observation is enough for a field to be of use. -/
theorem foldl_observe_ne_unknown {infos : List FieldInfo} (h : infos ≠ []) (use : FieldUse) :
    infos.foldl observe use ≠ .unknown := by
  induction infos generalizing use with
  | nil => exact absurd rfl h
  | cons first rest ih =>
      cases rest with
      | nil => exact use.observe_ne_unknown first
      | cons second rest => exact ih (List.cons_ne_nil _ _) (use.observe first)

end FieldUse

namespace FieldCatalog

/-- Something is known of the fields of a content type. -/
def Knows (catalog : FieldCatalog) (contentType : String) (info : FieldInfo) : Prop :=
  ∃ infos, Table.find? catalog contentType = some infos ∧ info ∈ infos

variable {catalog : FieldCatalog} {contentType other : String} {infos : FieldInfos}
  {info : FieldInfo}

theorem knows_merge : (catalog.merge contentType infos).Knows other info ↔
    catalog.Knows other info ∨ contentType = other ∧ info ∈ infos := by
  unfold Knows merge
  by_cases hother : other = contentType
  · subst hother
    simp only [Table.find?_alter_self, Option.some.injEq, exists_eq_left', FieldInfos.mem_merge,
      true_and]
    refine or_congr_left ?_
    cases Table.find? catalog other <;> simp
  · rw [Table.find?_alter_ne catalog hother]
    simp [Ne.symm hother]

/-- Without a scope, what is observed of a field is what is known of it for any content type. -/
theorem mem_observations (h : Table.Sorted catalog) {field : String} :
    info ∈ catalog.observations field none ↔
      info.fieldName = field ∧ ∃ contentType, catalog.Knows contentType info := by
  simp only [observations, within, Table.values, List.mem_flatMap, List.mem_map, Prod.exists,
    FieldInfos.ofField, List.mem_filter, beq_iff_eq, Knows, Table.mem_iff_find? h]
  constructor
  · rintro ⟨_, ⟨contentType, infos, hfind, rfl⟩, hinfo, hname⟩
    exact ⟨hname, contentType, infos, hfind, hinfo⟩
  · rintro ⟨hname, contentType, infos, hfind, hinfo⟩
    exact ⟨infos, ⟨contentType, infos, hfind, rfl⟩, hinfo, hname⟩

/-! ### Searching with what is known -/

/-- A scope that takes a content type in; without a scope all are. -/
def InScope (scope : Option (List String)) (contentType : String) : Prop :=
  ∀ names ∈ scope, contentType ∈ names

/-- What is known of a content type is found in every scope that takes it in. -/
theorem Knows.exists_within (h : catalog.Knows contentType info) {scope : Option (List String)}
    (hscope : InScope scope contentType) : ∃ infos ∈ catalog.within scope, info ∈ infos := by
  obtain ⟨infos, hfind, hinfo⟩ := h
  refine ⟨infos, ?_, hinfo⟩
  cases scope with
  | none => exact List.mem_map_of_mem (Table.mem_of_find? hfind)
  | some names => exact List.mem_filterMap.mpr ⟨contentType, hscope names rfl, hfind⟩

/-- **A field of which something is known can be searched.** -/
theorem Knows.resolve_ne_unknown (h : catalog.Knows contentType info)
    {scope : Option (List String)} (hscope : InScope scope contentType) :
    catalog.resolve info.fieldName scope ≠ .unknown := by
  obtain ⟨infos, hinfos, hinfo⟩ := h.exists_within hscope
  have hobserved : info ∈ catalog.observations info.fieldName scope :=
    List.mem_flatMap.mpr ⟨infos, hinfos, List.mem_filter.mpr ⟨hinfo, beq_self_eq_true _⟩⟩
  exact FieldUse.foldl_observe_ne_unknown (List.ne_nil_of_mem hobserved) .unknown

/-- **A known field with terms is listed**, unless its name begins with a dollar sign. -/
theorem Knows.mem_lexicalFields (h : catalog.Knows contentType info)
    {scope : Option (List String)} (hscope : InScope scope contentType)
    (hlexical : info.kind.isLexical = true) (hname : "$".isPrefixOf info.fieldName = false) :
    info.fieldName ∈ catalog.lexicalFields scope := by
  obtain ⟨infos, hinfos, hinfo⟩ := h.exists_within hscope
  refine mem_sortedDistinct.mpr (List.mem_map_of_mem (List.mem_filter.mpr ⟨?_, ?_⟩))
  · exact List.mem_flatten.mpr ⟨infos, hinfos, hinfo⟩
  · rw [hlexical, hname]
    rfl

end FieldCatalog

end DocIndex
