/-
Schemas and observations are joined.

A schema is what its types are and what stands below it: the schema of each property and that of
items.  Both are reached by a step, and a join is made step by step (`at?_merge`).  So the laws of
joins hold of schemas in order by one induction, whose case speaks of all steps at once.  What is
reported of a join is whether it added anything.

Observations are only a set in order, and how many of them are new is by how many there are more.
-/
import DocIndex.Proofs.Joins
import DocIndex.Proofs.Schema.Shapes

namespace DocIndex

/-! ### The order of observations -/

/-- Kinds are in the order in which they are listed. -/
theorem FieldKind.compare_eq (a b : FieldKind) : compare a b = compare a.ctorIdx b.ctorIdx := by
  cases a <;> cases b <;> rfl

instance : Std.TransOrd FieldKind where
  eq_swap := by
    intro a b
    rw [FieldKind.compare_eq, FieldKind.compare_eq]
    exact Std.OrientedCmp.eq_swap
  isLE_trans := by
    intro a b c
    simp only [FieldKind.compare_eq]
    exact Std.TransCmp.isLE_trans

/-- Observations are in the order of their paths, and so on part by part. -/
theorem FieldInfo.compare_eq : (compare : FieldInfo → FieldInfo → Ordering) =
    compareLex (compareOn FieldInfo.path) (compareLex (compareOn FieldInfo.jsonType)
      (compareLex (compareOn FieldInfo.fieldName) (compareLex (compareOn FieldInfo.kind)
        (compareLex (compareOn FieldInfo.strategy) (compareOn FieldInfo.analyzer))))) := by
  funext a b
  cases a
  cases b
  show instOrdFieldInfo.ord _ _ = _
  simp [instOrdFieldInfo.ord, compareLex, compareOn]

instance : Std.TransOrd FieldInfo := by
  unfold Std.TransOrd
  rw [FieldInfo.compare_eq]
  infer_instance

/-! ### Observations -/

namespace FieldInfos

variable {infos others : FieldInfos}

/-- The observations stand in increasing order, each once. -/
def InOrder (infos : FieldInfos) : Prop := infos.Pairwise fun a b => compare a b = .lt

instance (infos : FieldInfos) : Decidable infos.InOrder :=
  inferInstanceAs (Decidable (infos.Pairwise fun a b => compare a b = .lt))

theorem InOrder.nodup (h : infos.InOrder) : infos.Nodup :=
  h.imp fun hlt => by
    rintro rfl
    simp at hlt

theorem InOrder.ext (h : infos.InOrder) (hothers : others.InOrder)
    (hmem : ∀ info, info ∈ infos ↔ info ∈ others) : infos = others :=
  ext_of_increasing id h hothers hmem

theorem InOrder.merge (h : infos.InOrder) (others : FieldInfos) : (infos.merge others).InOrder := by
  unfold FieldInfos.merge
  induction others generalizing infos with
  | nil => exact h
  | cons first rest ih => exact ih (pairwise_insertSorted h first)

/-- **Collections of observations are joined.** -/
theorem isJoin_merge : IsJoin InOrder merge where
  closed := fun _ b ha _ => ha.merge b
  comm := by
    intro a b ha hb
    refine (ha.merge b).ext (hb.merge a) fun info => ?_
    rw [mem_merge, mem_merge, or_comm]
  assoc := by
    intro a b c ha hb _
    refine ((ha.merge b).merge c).ext (ha.merge _) fun info => ?_
    rw [mem_merge, mem_merge, mem_merge, mem_merge, or_assoc]
  idem := by
    intro a ha
    refine (ha.merge a).ext ha fun info => ?_
    rw [mem_merge, or_self]

/-- **As many observations are reported as there are more.** -/
theorem length_merge (h : infos.InOrder) (hothers : others.InOrder) :
    (infos.merge others).length = infos.length + infos.countNew others := by
  have hnew : (others.filter fun info => !infos.contains info).Nodup := hothers.nodup.filter _
  have hsplit : (infos.merge others).Perm
      (infos ++ others.filter fun info => !infos.contains info) := by
    refine (List.perm_ext_iff_of_nodup (h.merge others).nodup ?_).mpr fun info => ?_
    · refine List.nodup_append.mpr ⟨h.nodup, hnew, fun info hinfo other hother heq => ?_⟩
      subst heq
      simp [hinfo] at hother
    · rw [mem_merge, List.mem_append, List.mem_filter]
      by_cases hinfo : info ∈ infos <;> simp [hinfo]
  rw [hsplit.length_eq, List.length_append]
  rfl

end FieldInfos

/-! ### Below a schema -/

namespace JsonSchema

/-- A step from a schema to one below it. -/
inductive Step where
  | property (name : String)
  | item

/-- The schema behind a step. -/
def at? (schema : JsonSchema) : Step → Option JsonSchema
  | .property name => Table.find? schema.properties name
  | .item => schema.items

variable {a b : JsonSchema} {step : Step}

theorem Tidy.at? (h : a.Tidy) {below : JsonSchema} (hbelow : a.at? step = some below) :
    below.Tidy := by
  obtain ⟨-, hproperties, hitems⟩ := tidy_iff.mp h
  cases step with
  | property name => exact hproperties.tidy _ (Table.mem_of_find? hbelow)
  | item => exact hitems below hbelow

/-- Schemas in order are equal if their types are the same and so is what stands below. -/
theorem Tidy.ext (ha : a.Tidy) (hb : b.Tidy) (htypes : ∀ type, type ∈ a.types ↔ type ∈ b.types)
    (hbelow : ∀ step, a.at? step = b.at? step) : a = b := by
  obtain ⟨hatypes, haproperties, -⟩ := tidy_iff.mp ha
  obtain ⟨hbtypes, hbproperties, -⟩ := tidy_iff.mp hb
  have hproperties := Table.ext_find? haproperties.sorted hbproperties.sorted
    fun name => hbelow (.property name)
  have hitems : a.items = b.items := hbelow .item
  have hsame := ext_of_increasing id hatypes hbtypes htypes
  cases a
  cases b
  simp_all

section

variable {motive : ∀ schema : JsonSchema, schema.Tidy → Prop}

/-- What holds of a schema in order if it holds of those below it. -/
def Inherited (motive : ∀ schema : JsonSchema, schema.Tidy → Prop) : Prop :=
  ∀ (schema : JsonSchema) (h : schema.Tidy),
    (∀ step below (hbelow : schema.at? step = some below), motive below (h.at? hbelow)) →
      motive schema h

mutual

theorem Inherited.schema (next : Inherited motive) :
    ∀ {schema : JsonSchema} (h : schema.Tidy), motive schema h
  | ⟨types, properties, items⟩, h => by
      refine next _ h fun step below hbelow => ?_
      cases step with
      | property name => exact next.properties h.2.2.1 (Table.mem_of_find? hbelow) _
      | item => exact next.items h.2.2.2 hbelow _

theorem Inherited.properties (next : Inherited motive) :
    ∀ {properties : List (String × JsonSchema)}, TidyProperties properties →
      ∀ {entry : String × JsonSchema}, entry ∈ properties → ∀ h : entry.2.Tidy, motive entry.2 h
  | (_, _) :: _, h, _, hentry, _ => by
      rcases List.mem_cons.mp hentry with rfl | hentry
      · exact next.schema h.1
      · exact next.properties h.2 hentry _

theorem Inherited.items (next : Inherited motive) :
    ∀ {items : Option JsonSchema}, TidyItems items →
      ∀ {below : JsonSchema}, items = some below → ∀ h : below.Tidy, motive below h
  | some _, h, _, hbelow, _ => by
      obtain rfl := Option.some.inj hbelow
      exact next.schema h

end

/-- Induction on a schema in order, with all that stands below it at once. -/
theorem Tidy.induction
    (next : ∀ (schema : JsonSchema) (h : schema.Tidy),
      (∀ step below (hbelow : schema.at? step = some below), motive below (h.at? hbelow)) →
        motive schema h)
    {schema : JsonSchema} (h : schema.Tidy) : motive schema h :=
  Inherited.schema next h

end

/-! ### Joining what stands below -/

theorem find?_mergeProperties {others : Table String JsonSchema} (h : Table.Sorted others) :
    ∀ (known : Table String JsonSchema) (name : String),
      Table.find? (mergeProperties known others) name
        = mergeItems (Table.find? known name) (Table.find? others name) := by
  induction others with
  | nil => exact fun known name => rfl
  | cons first rest ih =>
      obtain ⟨key, schema⟩ := first
      intro known name
      obtain ⟨hfirst, hrest⟩ := Table.sorted_cons.mp h
      rw [mergeProperties, ih hrest]
      by_cases hname : name = key
      · subst hname
        have hnone : Table.find? rest name = none := Table.find?_eq_none_of_lt hfirst
        rw [hnone, Table.find?_alter_self, Table.find?_cons_self]
        cases Table.find? known name <;> rfl
      · rw [Table.find?_alter_ne known hname, Table.find?_cons_ne h hname]

/-- **What stands below a join is the join of what stands below.** -/
theorem at?_merge (hb : b.Tidy) : (a.merge b).at? step = mergeItems (a.at? step) (b.at? step) := by
  cases step with
  | property name =>
      show Table.find? (a.merge b).properties name = _
      rw [properties_merge]
      exact find?_mergeProperties (tidy_iff.mp hb).2.1.sorted _ _
  | item => exact items_merge a b

section Below

variable {known other third : Option JsonSchema}

theorem mergeItems_comm (h : ∀ x ∈ known, ∀ y ∈ other, x.merge y = y.merge x) :
    mergeItems known other = mergeItems other known := by
  cases known with
  | none => cases other <;> rfl
  | some x =>
      cases other with
      | none => rfl
      | some y => exact congrArg some (h x rfl y rfl)

theorem mergeItems_assoc (h : ∀ x ∈ known, ∀ y ∈ other, ∀ z ∈ third,
    (x.merge y).merge z = x.merge (y.merge z)) :
    mergeItems (mergeItems known other) third = mergeItems known (mergeItems other third) := by
  cases third with
  | none => rfl
  | some z =>
      cases other with
      | none => rfl
      | some y =>
          cases known with
          | none => rfl
          | some x => exact congrArg some (h x rfl y rfl z rfl)

theorem mergeItems_self (h : ∀ x ∈ known, x.merge x = x) : mergeItems known known = known := by
  cases known with
  | none => rfl
  | some x => exact congrArg some (h x rfl)

end Below

/-! ### Joining schemas -/

theorem merge_comm (ha : a.Tidy) : ∀ {b : JsonSchema}, b.Tidy → a.merge b = b.merge a := by
  induction ha using Tidy.induction with
  | next a ha ih =>
      intro b hb
      refine (ha.merge hb).ext (hb.merge ha) (fun type => ?_) fun step => ?_
      · rw [mem_types_merge, mem_types_merge, or_comm]
      · rw [at?_merge hb, at?_merge ha]
        exact mergeItems_comm fun x hx y hy => ih step x hx (hb.at? hy)

theorem merge_assoc (ha : a.Tidy) : ∀ {b c : JsonSchema}, b.Tidy → c.Tidy →
    (a.merge b).merge c = a.merge (b.merge c) := by
  induction ha using Tidy.induction with
  | next a ha ih =>
      intro b c hb hc
      refine ((ha.merge hb).merge hc).ext (ha.merge (hb.merge hc)) (fun type => ?_) fun step => ?_
      · rw [mem_types_merge, mem_types_merge, mem_types_merge, mem_types_merge, or_assoc]
      · rw [at?_merge hc, at?_merge hb, at?_merge (hb.merge hc), at?_merge hc]
        exact mergeItems_assoc fun x hx y hy z hz => ih step x hx (hb.at? hy) (hc.at? hz)

theorem merge_self (ha : a.Tidy) : a.merge a = a := by
  induction ha using Tidy.induction with
  | next a ha ih =>
      refine (ha.merge ha).ext ha (fun type => ?_) fun step => ?_
      · rw [mem_types_merge, or_self]
      · rw [at?_merge ha]
        exact mergeItems_self fun x hx => ih step x hx

/-- **Schemas in order are joined.** -/
theorem isJoin_merge : IsJoin Tidy merge where
  closed := fun _ _ ha hb => ha.merge hb
  comm := fun _ _ ha hb => merge_comm ha hb
  assoc := fun _ _ _ ha hb hc => merge_assoc ha hb hc
  idem := fun _ ha => merge_self ha

/-- So are those of items, which may be missing. -/
theorem isJoin_mergeItems : IsJoin (fun items => ∀ schema ∈ items, schema.Tidy) mergeItems where
  closed := fun known other h hother => by
    refine Tidy.mergeItems h ?_
    cases other with
    | none => trivial
    | some schema => exact hother schema rfl
  comm := fun _ _ h hother => mergeItems_comm fun x hx y hy => merge_comm (h x hx) (hother y hy)
  assoc := fun _ _ _ h hother hthird => mergeItems_assoc fun x hx y hy z hz =>
    merge_assoc (h x hx) (hother y hy) (hthird z hz)
  idem := fun _ h => mergeItems_self fun x hx => merge_self (h x hx)

/-! ### What is reported -/

theorem growsProperties_iff {known others : Table String JsonSchema} :
    growsProperties known others = true ↔
      ∃ entry ∈ others, growsItems (Table.find? known entry.1) (some entry.2) = true := by
  induction others with
  | nil => simp [growsProperties]
  | cons first rest ih =>
      rw [growsProperties, Bool.or_eq_true, ih, List.exists_mem_cons_iff]
      rfl

/-- A join is reported if it adds a type, or something below. -/
theorem grows_iff (hb : b.Tidy) : a.grows b = true ↔
    (∃ type ∈ b.types, type ∉ a.types) ∨ ∃ step, growsItems (a.at? step) (b.at? step) = true := by
  have hsorted := (tidy_iff.mp hb).2.1.sorted
  obtain ⟨types, properties, items⟩ := b
  rw [grows, Bool.or_eq_true, Bool.or_eq_true, growsProperties_iff, or_assoc]
  refine or_congr (by simp) ⟨?_, ?_⟩
  · rintro (⟨entry, hentry, hgrows⟩ | hgrows)
    · refine ⟨.property entry.1, ?_⟩
      have hfind : Table.find? properties entry.1 = some entry.2 :=
        Table.find?_of_mem hsorted hentry
      simpa only [JsonSchema.at?, hfind] using hgrows
    · exact ⟨.item, hgrows⟩
  · rintro ⟨step, hgrows⟩
    cases step with
    | property name =>
        simp only [JsonSchema.at?] at hgrows
        cases hfind : Table.find? properties name with
        | none =>
            rw [hfind] at hgrows
            cases hgrows
        | some schema =>
            rw [hfind] at hgrows
            exact .inl ⟨(name, schema), Table.mem_of_find? hfind, hgrows⟩
    | item => exact .inr hgrows

/-- Something below is reported if its join is another one. -/
theorem growsItems_iff {known other : Option JsonSchema}
    (h : ∀ x ∈ known, ∀ y ∈ other, (x.grows y = true ↔ x.merge y ≠ x)) :
    growsItems known other = true ↔ mergeItems known other ≠ known := by
  cases other with
  | none => simp [growsItems, mergeItems]
  | some y =>
      cases known with
      | none => simp [growsItems, mergeItems]
      | some x => simpa [growsItems, mergeItems] using h x rfl y rfl

/-- **A join is reported exactly if it changes the schema.** -/
theorem grows_eq_true_iff (hb : b.Tidy) : ∀ {a : JsonSchema}, a.Tidy →
    (a.grows b = true ↔ a.merge b ≠ a) := by
  induction hb using Tidy.induction with
  | next b hb ih =>
      intro a ha
      have hbelow : ∀ step, growsItems (a.at? step) (b.at? step) = true ↔
          (a.merge b).at? step ≠ a.at? step := by
        intro step
        rw [at?_merge hb]
        exact growsItems_iff fun x hx y hy => ih step y hy (ha.at? hx)
      rw [grows_iff hb]
      constructor
      · rintro (⟨type, hnew, hold⟩ | ⟨step, hgrows⟩) hsame
        · have htype : type ∈ (a.merge b).types := mem_types_merge.mpr (.inr hnew)
          rw [hsame] at htype
          exact hold htype
        · exact (hbelow step).mp hgrows (by rw [hsame])
      · intro hchanged
        by_contra hnone
        push Not at hnone
        refine hchanged ((ha.merge hb).ext ha (fun type => ?_) fun step => ?_)
        · rw [mem_types_merge, or_iff_left_of_imp (hnone.1 type)]
        · by_contra hstep
          exact hnone.2 step ((hbelow step).mpr hstep)

/-! ### Inferring -/

theorem inferItems_eq (known : Option JsonSchema) (items : List Json) :
    inferItems known items
      = items.foldl (fun known item => mergeItems known (some (infer item))) known := by
  induction items generalizing known with
  | nil => rfl
  | cons item rest ih => rw [inferItems_cons, ih, List.foldl_cons]

/-- **The schema of an array depends only on which items there are.** -/
theorem infer_array_eq {items others : List Json} (h : ∀ item, item ∈ items ↔ item ∈ others)
    (htabular : ∀ item ∈ items, item.Tabular) : infer (.array items) = infer (.array others) := by
  have htidy : ∀ item ∈ items, ∀ schema ∈ some (infer item), schema.Tidy := by
    intro item hitem schema hschema
    obtain rfl := Option.some.inj hschema
    exact tidy_infer (htabular item hitem)
  have hitems : inferItems none items = inferItems none others := by
    rw [inferItems_eq, inferItems_eq]
    exact (isJoin_mergeItems.unordered.comap fun item => some (infer item)).foldl_eq h htidy
      (by simp)
  rw [infer, infer, hitems]

end JsonSchema

/-! ### Catalogs -/

/-- Observations may be merged in any order, each of them under its content type. -/
theorem FieldCatalog.unordered_merge :
    Unordered (Table.Of FieldInfos.InOrder) (fun entry : String × FieldInfos => entry.2.InOrder)
      (fun catalog entry => merge catalog entry.1 entry.2) :=
  Table.unordered_alter FieldInfos.isJoin_merge .nil

/-- And so may schemas. -/
theorem SchemaCatalog.unordered_merge :
    Unordered (Table.Of JsonSchema.Tidy) (fun entry : String × JsonSchema => entry.2.Tidy)
      (fun catalog entry => merge catalog entry.1 entry.2) :=
  Table.unordered_alter JsonSchema.isJoin_merge JsonSchema.tidy_empty

end DocIndex
