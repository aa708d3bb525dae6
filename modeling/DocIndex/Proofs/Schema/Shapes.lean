/-
What a schema says of the values that it was inferred from.

A schema describes a value if it has the type of the value and describes everything in it: each
member under the property of its name, and all items by the one shape for items.  Joining another
schema to it never takes anything away, and the join describes what either of the two does.  So a
schema that was joined from many documents describes each of them.
-/
import Mathlib.Tactic.Common
import DocIndex.Proofs.Json.RoundTrip
import DocIndex.Proofs.Schema.Catalog
import DocIndex.Schema.JsonSchema

namespace DocIndex

namespace JsonSchema

/-! ### Values that a schema describes -/

mutual

/-- The schema has the type of the value, and those of everything in it. -/
def Describes (schema : JsonSchema) : Json → Prop
  | .object members =>
    JsonType.object ∈ schema.types ∧ DescribesMembers schema.properties members
  | .array items => JsonType.array ∈ schema.types ∧ DescribesItems schema.items items
  | .null => JsonType.null ∈ schema.types
  | .bool b => (Json.bool b).type ∈ schema.types
  | .int n => (Json.int n).type ∈ schema.types
  | .double x => (Json.double x).type ∈ schema.types
  | .text s => (Json.text s).type ∈ schema.types

/-- There is a property for each member, which describes its value. -/
def DescribesMembers (properties : Table String JsonSchema) : List (String × Json) → Prop
  | [] => True
  | (name, value) :: rest =>
    (∃ schema, Table.find? properties name = some schema ∧ Describes schema value) ∧
      DescribesMembers properties rest

/-- There is a shape for items if there are any, and it describes each of them. -/
def DescribesItems (shape : Option JsonSchema) : List Json → Prop
  | [] => True
  | item :: rest =>
    (∃ schema, shape = some schema ∧ Describes schema item) ∧ DescribesItems shape rest

end

/-! ### Joining -/

/-- Something that a schema keeps whatever is joined to it. -/
def Kept (kept : JsonSchema → Prop) : Prop :=
  ∀ schema other, kept schema → kept (schema.merge other)

variable {kept : JsonSchema → Prop} {known others : Table String JsonSchema} {name : String}
  {schema : JsonSchema}

theorem mem_types_merge {a b : JsonSchema} {type : JsonType} :
    type ∈ (a.merge b).types ↔ type ∈ a.types ∨ type ∈ b.types := by
  obtain ⟨types, properties, items⟩ := b
  rw [merge]
  show type ∈ types.foldl (fun known t => insertSorted t known) a.types ↔ _ ∨ type ∈ types
  induction types generalizing a with
  | nil => simp
  | cons first rest ih =>
      have hrest := ih (a := { a with types := insertSorted first a.types })
      rw [List.foldl_cons, hrest, mem_insertSorted, List.mem_cons]
      tauto

@[simp] theorem properties_merge (a b : JsonSchema) :
    (a.merge b).properties = mergeProperties a.properties b.properties := by
  cases b
  rw [merge]

@[simp] theorem items_merge (a b : JsonSchema) :
    (a.merge b).items = mergeItems a.items b.items := by
  cases b
  rw [merge]

/-- A property stays, and so does what it keeps. -/
theorem mergeProperties_old (hkept : Kept kept) (hfind : Table.find? known name = some schema)
    (h : kept schema) :
    ∃ joined, Table.find? (mergeProperties known others) name = some joined ∧ kept joined := by
  induction others generalizing known schema with
  | nil => exact ⟨schema, by rw [mergeProperties, hfind], h⟩
  | cons first rest ih =>
      obtain ⟨key, other⟩ := first
      rw [mergeProperties]
      by_cases hkey : name = key
      · subst hkey
        refine ih (Table.find?_alter_self known name _) ?_
        rw [hfind]
        exact hkept _ _ h
      · exact ih ((Table.find?_alter_ne known hkey _).trans hfind) h

/-- A property of the second table is joined to that of its name. -/
theorem mergeProperties_new (hkept : Kept kept) (hmem : (name, schema) ∈ others)
    (h : kept schema) (hjoined : ∀ old : JsonSchema, kept (old.merge schema)) :
    ∃ joined, Table.find? (mergeProperties known others) name = some joined ∧ kept joined := by
  induction others generalizing known with
  | nil => cases hmem
  | cons first rest ih =>
      rw [mergeProperties]
      rcases List.mem_cons.mp hmem with rfl | hmem
      · refine mergeProperties_old hkept (Table.find?_alter_self known name _) ?_
        cases Table.find? known name with
        | none => exact h
        | some old => exact hjoined old
      · exact ih hmem

theorem mergeItems_old (hkept : Kept kept) (h : kept schema) (other : Option JsonSchema) :
    ∃ joined, mergeItems (some schema) other = some joined ∧ kept joined := by
  cases other with
  | none => exact ⟨schema, rfl, h⟩
  | some added => exact ⟨schema.merge added, rfl, hkept _ _ h⟩

mutual

/-- What a schema describes is still described when another one was joined to it. -/
theorem describes_merge_left : ∀ {json : Json} {a b : JsonSchema}, a.Describes json →
    (a.merge b).Describes json
  | .object _, _, _, h => ⟨mem_types_merge.mpr (.inl h.1), describesMembers_merge_left h.2⟩
  | .array _, _, _, h => ⟨mem_types_merge.mpr (.inl h.1), describesItems_merge_left h.2⟩
  | .null, _, _, h => mem_types_merge.mpr (.inl h)
  | .bool _, _, _, h => mem_types_merge.mpr (.inl h)
  | .int _, _, _, h => mem_types_merge.mpr (.inl h)
  | .double _, _, _, h => mem_types_merge.mpr (.inl h)
  | .text _, _, _, h => mem_types_merge.mpr (.inl h)

theorem describesMembers_merge_left : ∀ {members : List (String × Json)} {a b : JsonSchema},
    DescribesMembers a.properties members → DescribesMembers (a.merge b).properties members
  | [], _, _, _ => trivial
  | (_, value) :: _, a, b, ⟨⟨_, hfind, hvalue⟩, hrest⟩ => by
      have hkept : Kept (Describes · value) := fun _ _ h => describes_merge_left h
      refine ⟨?_, describesMembers_merge_left hrest⟩
      rw [properties_merge]
      exact mergeProperties_old hkept hfind hvalue

theorem describesItems_merge_left : ∀ {items : List Json} {a b : JsonSchema},
    DescribesItems a.items items → DescribesItems (a.merge b).items items
  | [], _, _, _ => trivial
  | item :: _, a, b, ⟨⟨_, hshape, hitem⟩, hrest⟩ => by
      have hkept : Kept (Describes · item) := fun _ _ h => describes_merge_left h
      refine ⟨?_, describesItems_merge_left hrest⟩
      rw [items_merge, hshape]
      exact mergeItems_old hkept hitem b.items

end

mutual

/-- What a schema describes is also described when it was joined to another one. -/
theorem describes_merge_right : ∀ {json : Json} {a b : JsonSchema}, b.Describes json →
    (a.merge b).Describes json
  | .object _, _, _, h => ⟨mem_types_merge.mpr (.inr h.1), describesMembers_merge_right h.2⟩
  | .array _, _, _, h => ⟨mem_types_merge.mpr (.inr h.1), describesItems_merge_right h.2⟩
  | .null, _, _, h => mem_types_merge.mpr (.inr h)
  | .bool _, _, _, h => mem_types_merge.mpr (.inr h)
  | .int _, _, _, h => mem_types_merge.mpr (.inr h)
  | .double _, _, _, h => mem_types_merge.mpr (.inr h)
  | .text _, _, _, h => mem_types_merge.mpr (.inr h)

theorem describesMembers_merge_right : ∀ {members : List (String × Json)} {a b : JsonSchema},
    DescribesMembers b.properties members → DescribesMembers (a.merge b).properties members
  | [], _, _, _ => trivial
  | (_, value) :: _, a, b, ⟨⟨_, hfind, hvalue⟩, hrest⟩ => by
      have hkept : Kept (Describes · value) := fun _ _ h => describes_merge_left h
      refine ⟨?_, describesMembers_merge_right hrest⟩
      rw [properties_merge]
      exact mergeProperties_new hkept (Table.mem_of_find? hfind) hvalue fun _ =>
        describes_merge_right hvalue

theorem describesItems_merge_right : ∀ {items : List Json} {a b : JsonSchema},
    DescribesItems b.items items → DescribesItems (a.merge b).items items
  | [], _, _, _ => trivial
  | item :: _, a, b, ⟨⟨shape, hshape, hitem⟩, hrest⟩ => by
      refine ⟨?_, describesItems_merge_right hrest⟩
      rw [items_merge, hshape]
      cases a.items with
      | none => exact ⟨shape, rfl, hitem⟩
      | some old => exact ⟨old.merge shape, rfl, describes_merge_right hitem⟩

end

/-! ### Inferring -/

theorem inferMembers_eq (members : List (String × Json)) :
    inferMembers members = members.map fun member => (member.1, infer member.2) := by
  induction members with
  | nil => rfl
  | cons first rest ih => rw [inferMembers, ih, List.map_cons]

theorem sorted_inferMembers {members : List (String × Json)} (h : Table.Sorted members) :
    Table.Sorted (inferMembers members) := by
  rw [inferMembers_eq]
  exact List.pairwise_map.mpr h

theorem find?_inferMembers {members : List (String × Json)} (h : Table.Sorted members)
    {member : String × Json} (hmem : member ∈ members) :
    Table.find? (inferMembers members) member.1 = some (infer member.2) := by
  refine Table.find?_of_mem (sorted_inferMembers h) ?_
  rw [inferMembers_eq]
  exact List.mem_map_of_mem hmem

theorem inferItems_cons (known : Option JsonSchema) (item : Json) (rest : List Json) :
    inferItems known (item :: rest)
      = inferItems (mergeItems known (some (infer item))) rest := by
  cases known <;> rfl

/-- A shape for items stays, and so does what it keeps. -/
theorem inferItems_old (hkept : Kept kept) : ∀ {items : List Json} {schema : JsonSchema},
    kept schema → ∃ joined, inferItems (some schema) items = some joined ∧ kept joined
  | [], schema, h => ⟨schema, rfl, h⟩
  | item :: rest, schema, h => by
      rw [inferItems_cons]
      exact inferItems_old hkept (hkept schema (infer item) h)

mutual

/-- **A value is described by what was inferred from it.** -/
theorem describes_infer : ∀ {json : Json}, json.Tabular → (infer json).Describes json
  | .object _, h => ⟨List.mem_cons_self, describesMembers_infer h.2 fun _ hmember =>
      find?_inferMembers h.1 hmember⟩
  | .array _, h => ⟨List.mem_cons_self, describesItems_infer h none⟩
  | .null, _ => List.mem_cons_self
  | .bool _, _ => List.mem_cons_self
  | .int _, _ => List.mem_cons_self
  | .double _, _ => List.mem_cons_self
  | .text _, _ => List.mem_cons_self

theorem describesMembers_infer : ∀ {members : List (String × Json)}
    {properties : Table String JsonSchema}, Json.TabularMembers members →
      (∀ member ∈ members, Table.find? properties member.1 = some (infer member.2)) →
        DescribesMembers properties members
  | [], _, _, _ => trivial
  | _ :: _, _, h, hfind =>
      ⟨⟨_, hfind _ List.mem_cons_self, describes_infer h.1⟩,
        describesMembers_infer h.2 fun member hmember =>
          hfind member (List.mem_cons_of_mem _ hmember)⟩

theorem describesItems_infer : ∀ {items : List Json}, Json.TabularItems items →
    ∀ known : Option JsonSchema, DescribesItems (inferItems known items) items
  | [], _, _ => trivial
  | item :: rest, h, known => by
      have hkept : Kept (Describes · item) := fun _ _ h => describes_merge_left h
      have hitem := describes_infer h.1
      rw [inferItems_cons]
      refine ⟨?_, describesItems_infer h.2 _⟩
      cases known with
      | none => exact inferItems_old hkept hitem
      | some old => exact inferItems_old hkept (describes_merge_right hitem)

end

/-! ### Schemas in order -/

mutual

/-- The types are in order, and so are the properties by their names, at every level. -/
def Tidy : JsonSchema → Prop
  | ⟨types, properties, items⟩ =>
    (types.Pairwise fun a b => compare a b = .lt) ∧ Table.Sorted properties ∧
      TidyProperties properties ∧ TidyItems items

def TidyProperties : List (String × JsonSchema) → Prop
  | [] => True
  | (_, schema) :: rest => Tidy schema ∧ TidyProperties rest

def TidyItems : Option JsonSchema → Prop
  | none => True
  | some schema => Tidy schema

end

theorem tidyProperties_iff : ∀ {properties : List (String × JsonSchema)},
    TidyProperties properties ↔ ∀ entry ∈ properties, entry.2.Tidy
  | [] => by simp [TidyProperties]
  | (name, schema) :: rest => by simp [TidyProperties, tidyProperties_iff]

/-- Schemas in a table, each of which is in order. -/
structure TidyTable (table : Table String JsonSchema) : Prop where
  sorted : Table.Sorted table
  tidy : ∀ entry ∈ table, entry.2.Tidy

theorem TidyTable.nil : TidyTable [] := ⟨Table.sorted_nil, List.forall_mem_nil _⟩

/-- A table stays in order if what is filed is, whatever tidy schema was there. -/
theorem TidyTable.alter {table : Table String JsonSchema} (h : TidyTable table) (name : String)
    {change : Option JsonSchema → JsonSchema} (hnone : (change none).Tidy)
    (hsome : ∀ old : JsonSchema, old.Tidy → (change (some old)).Tidy) :
    TidyTable (Table.alter table name change) where
  sorted := Table.sorted_alter h.sorted name change
  tidy := by
    rintro ⟨key, schema⟩ hentry
    have hfind := Table.find?_of_mem (Table.sorted_alter h.sorted name change) hentry
    by_cases hkey : key = name
    · subst hkey
      rw [Table.find?_alter_self] at hfind
      obtain rfl := Option.some.inj hfind
      cases hold : Table.find? table key with
      | none => exact hnone
      | some old => exact hsome old (h.tidy (key, old) (Table.mem_of_find? hold))
    · rw [Table.find?_alter_ne table hkey] at hfind
      exact h.tidy (key, schema) (Table.mem_of_find? hfind)

theorem tidy_iff {schema : JsonSchema} : schema.Tidy ↔
    (schema.types.Pairwise fun a b => compare a b = .lt) ∧ TidyTable schema.properties ∧
      ∀ items ∈ schema.items, items.Tidy := by
  obtain ⟨types, properties, items⟩ := schema
  have hitems : TidyItems items ↔ ∀ shape ∈ items, shape.Tidy := by
    cases items <;> simp [TidyItems]
  rw [Tidy, tidyProperties_iff, hitems]
  exact ⟨fun ⟨htypes, hsorted, htidy, hshape⟩ => ⟨htypes, ⟨hsorted, htidy⟩, hshape⟩,
    fun ⟨htypes, ⟨hsorted, htidy⟩, hshape⟩ => ⟨htypes, hsorted, htidy, hshape⟩⟩

theorem tidy_empty : empty.Tidy := tidy_iff.mpr ⟨.nil, .nil, by simp [empty]⟩

theorem pairwise_types_merge {a b : JsonSchema}
    (h : a.types.Pairwise fun a b => compare a b = .lt) :
    (a.merge b).types.Pairwise fun a b => compare a b = .lt := by
  obtain ⟨types, properties, items⟩ := b
  rw [merge]
  show (types.foldl (fun known t => insertSorted t known) a.types).Pairwise _
  generalize a.types = known at h
  induction types generalizing known with
  | nil => exact h
  | cons first rest ih => exact ih _ (pairwise_insertSorted h first)

mutual

/-- Schemas in order are joined to one in order. -/
theorem Tidy.merge : ∀ {a b : JsonSchema}, a.Tidy → b.Tidy → (a.merge b).Tidy
  | a, ⟨types, properties, items⟩, ha, hb => by
      obtain ⟨htypes, hproperties, hitems⟩ := tidy_iff.mp ha
      refine tidy_iff.mpr ⟨pairwise_types_merge htypes, ?_, ?_⟩
      · rw [properties_merge]
        exact TidyTable.mergeProperties hproperties hb.2.2.1
      · rw [items_merge]
        exact Tidy.mergeItems hitems hb.2.2.2

theorem TidyTable.mergeProperties : ∀ {known : Table String JsonSchema}
    {others : List (String × JsonSchema)}, TidyTable known → TidyProperties others →
      TidyTable (mergeProperties known others)
  | _, [], h, _ => h
  | _, (name, schema) :: rest, h, ⟨hschema, hrest⟩ => by
      rw [JsonSchema.mergeProperties]
      exact TidyTable.mergeProperties (h.alter name hschema fun _ hold => hold.merge hschema) hrest

theorem Tidy.mergeItems : ∀ {known other : Option JsonSchema},
    (∀ schema ∈ known, schema.Tidy) → TidyItems other →
      ∀ schema ∈ mergeItems known other, schema.Tidy
  | _, none, h, _ => h
  | none, some _, _, hother => fun _ hschema => Option.some.inj hschema ▸ hother
  | some old, some _, h, hother => fun _ hschema =>
      Option.some.inj hschema ▸ (h old rfl).merge hother

end

mutual

/-- What is inferred from a value is in order. -/
theorem tidy_infer : ∀ {json : Json}, json.Tabular → (infer json).Tidy
  | .object _, h => ⟨List.pairwise_singleton _ _, sorted_inferMembers h.1,
      tidyProperties_inferMembers h.2, trivial⟩
  | .array _, h => by
      refine tidy_iff.mpr ⟨List.pairwise_singleton _ _, .nil, ?_⟩
      exact tidy_inferItems h fun _ hnone => by cases hnone
  | .null, _ => tidy_iff.mpr ⟨List.pairwise_singleton _ _, .nil, by simp [infer]⟩
  | .bool _, _ => tidy_iff.mpr ⟨List.pairwise_singleton _ _, .nil, by simp [infer]⟩
  | .int _, _ => tidy_iff.mpr ⟨List.pairwise_singleton _ _, .nil, by simp [infer]⟩
  | .double _, _ => tidy_iff.mpr ⟨List.pairwise_singleton _ _, .nil, by simp [infer]⟩
  | .text _, _ => tidy_iff.mpr ⟨List.pairwise_singleton _ _, .nil, by simp [infer]⟩

theorem tidyProperties_inferMembers : ∀ {members : List (String × Json)},
    Json.TabularMembers members → TidyProperties (inferMembers members)
  | [], _ => trivial
  | (_, _) :: _, h => ⟨tidy_infer h.1, tidyProperties_inferMembers h.2⟩

theorem tidy_inferItems : ∀ {items : List Json} {known : Option JsonSchema},
    Json.TabularItems items → (∀ schema ∈ known, schema.Tidy) →
      ∀ schema ∈ inferItems known items, schema.Tidy
  | [], _, _, h => h
  | item :: rest, known, hitems, h => by
      rw [inferItems_cons]
      exact tidy_inferItems hitems.2 (Tidy.mergeItems h (tidy_infer hitems.1))

end

end JsonSchema

/-! ### Schemas of content types -/

namespace SchemaCatalog

open JsonSchema (TidyTable)

/-- The schema of a content type describes a value. -/
def Describes (schemas : SchemaCatalog) (contentType : String) (json : Json) : Prop :=
  ∃ schema, Table.find? schemas contentType = some schema ∧ schema.Describes json

variable {schemas : SchemaCatalog} {contentType other : String} {schema : JsonSchema} {json : Json}

/-- Nothing that is described is forgotten. -/
theorem Describes.merge (h : schemas.Describes contentType json) (other : String)
    (schema : JsonSchema) : (schemas.merge other schema).Describes contentType json := by
  obtain ⟨known, hfind, hknown⟩ := h
  by_cases hother : contentType = other
  · subst hother
    refine ⟨_, Table.find?_alter_self schemas contentType _, ?_⟩
    rw [hfind]
    exact JsonSchema.describes_merge_left hknown
  · exact ⟨known, (Table.find?_alter_ne schemas hother _).trans hfind, hknown⟩

/-- What a schema describes is described when it was joined to that of a content type. -/
theorem describes_merge_self (schemas : SchemaCatalog) (contentType : String)
    (h : schema.Describes json) : (schemas.merge contentType schema).Describes contentType json :=
  ⟨_, Table.find?_alter_self schemas contentType _, JsonSchema.describes_merge_right h⟩

theorem tidy_merge (h : TidyTable schemas) (contentType : String) (hschema : schema.Tidy) :
    TidyTable (schemas.merge contentType schema) :=
  h.alter contentType (JsonSchema.tidy_empty.merge hschema) fun _ hold => hold.merge hschema

end SchemaCatalog

end DocIndex
