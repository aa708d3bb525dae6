/-
What a commit keeps of fields and schemas, read again.

A reader asks for each member of a record by its name, and what is stored is a table with these
members, so each is found once.  The catalog of fields is five levels deep, whatever is in it,
and so its text is always parsed.  A stored schema is about twice as deep as the documents that
it describes, and whether its text is parsed is left open.

The observations of a content type are stored path by path.  Each of them is stored under its own
path and nowhere else, so the same ones are read, whatever order they come in.  Schemas are stored
as they are, and a tidy one comes back unchanged; if their text is parsed, it gives the schemas
that were stored.
-/
import Mathlib.Data.List.Permutation
import Mathlib.Order.Compare
import DocIndex.Proofs.Except
import DocIndex.Proofs.Json.Depth
import DocIndex.Proofs.Json.RoundTrip
import DocIndex.Proofs.Schema.Shapes
import DocIndex.Schema.Stored

namespace DocIndex

open Json

theorem isSome_mapM {α β : Type} {f : α → Option β} : ∀ {xs : List α},
    (∀ x ∈ xs, (f x).isSome) → (xs.mapM f).isSome
  | [], _ => by simp
  | x :: rest, h => by
      obtain ⟨y, hy⟩ := Option.isSome_iff_exists.mp (h x List.mem_cons_self)
      obtain ⟨ys, hys⟩ := Option.isSome_iff_exists.mp
        (isSome_mapM fun other hother => h other (List.mem_cons_of_mem _ hother))
      rw [List.mapM_cons, hy, Option.bind_eq_bind, Option.bind_some, hys]
      rfl

namespace Json.Member

theorem ofRecord?_single (name : String) (value : Json) :
    ofRecord? [name] (.ofMembers [(name, value)]) = some [(name, value)] := rfl

theorem once?_single (name : String) (value : Json) :
    once? [(name, value)] name = some value := by
  simp [once?]

/-- A table can be read if each of its values can. -/
theorem isSome_table? {α β : Type} {read? : Json → Option α} {write : β → Json}
    {entries : List (String × β)} (h : ∀ entry ∈ entries, (read? (write entry.2)).isSome) :
    (table? read? (.object (entries.map fun entry => (entry.1, write entry.2)))).isSome := by
  have hall : ((entries.map fun entry => (entry.1, write entry.2)).mapM fun member =>
      (read? member.2).map fun value => (member.1, value)).isSome := by
    refine isSome_mapM fun member hmember => ?_
    obtain ⟨entry, hentry, rfl⟩ := List.mem_map.mp hmember
    rw [Option.isSome_map]
    exact h entry hentry
  rw [table?, Option.isSome_map]
  exact hall

end Json.Member

/-! ### Names -/

theorem JsonType.ofName?_name (type : JsonType) : JsonType.ofName? type.name = some type := by
  cases type <;> rfl

theorem FieldKind.ofName?_name (kind : FieldKind) : FieldKind.ofName? kind.name = some kind := by
  cases kind <;> rfl

/-! ### Fields -/

/-- An observation is stored as a table of texts. -/
theorem FieldInfo.toJson_eq (info : FieldInfo) : info.toJson
    = .object [("analyzer", info.analyzer.elim .null .text), ("field_name", .text info.fieldName),
      ("field_type", .text info.kind.name), ("json_type", .text info.jsonType.name),
      ("path", .text info.path), ("strategy", .text info.strategy)] := by
  obtain ⟨path, jsonType, fieldName, kind, strategy, analyzer⟩ := info
  cases analyzer with
  | none => cbv
  | some name => cbv

/-- An observation comes back. -/
theorem FieldInfo.ofStored?_toJson (info : FieldInfo) : ofStored? info.toJson = some info := by
  obtain ⟨path, jsonType, fieldName, kind, strategy, analyzer⟩ := info
  have htype := jsonType.ofName?_name
  have hkind := kind.ofName?_name
  cases analyzer with
  | none =>
      rw [toJson_eq]
      simp [ofStored?, Member.ofRecord?, Member.once?, Member.optional?, Json.text?,
        Member.optionalText?, htype, hkind]
  | some name =>
      rw [toJson_eq]
      simp [ofStored?, Member.ofRecord?, Member.once?, Member.optional?, Json.text?,
        Member.optionalText?, htype, hkind]

/-- A stored collection of observations can be read. -/
theorem FieldInfos.isSome_ofStored? (infos : FieldInfos) : (ofStored? infos.toStored).isSome := by
  let atPath := fun path => Json.array ((infos.atPath path).map FieldInfo.toJson)
  have hentries : (infos.paths.map fun path => (path, atPath path))
      = (infos.paths.map fun path => (path, path)).map fun entry => (entry.1, atPath entry.2) := by
    rw [List.map_map]
    rfl
  have hpaths : (Member.table? readPath?
      (.object (infos.paths.map fun path => (path, atPath path)))).isSome := by
    rw [hentries]
    refine Member.isSome_table? fun entry _ => isSome_mapM fun item hitem => ?_
    obtain ⟨info, -, rfl⟩ := List.mem_map.mp hitem
    rw [FieldInfo.ofStored?_toJson]
    rfl
  obtain ⟨paths, hpaths⟩ := Option.isSome_iff_exists.mp hpaths
  simp only [ofStored?, toStored, Member.ofRecord?_single, Member.once?_single, bind, Option.bind,
    atPath, hpaths]
  rfl

/-- A stored catalog can be read. -/
theorem FieldCatalog.isSome_ofStored? (catalog : FieldCatalog) :
    (ofStored? catalog.toStored).isSome := by
  simp only [ofStored?, toStored, Member.ofRecord?_single, Member.once?_single, bind, Option.bind]
  exact Member.isSome_table? fun entry _ => FieldInfos.isSome_ofStored? entry.2

theorem FieldInfo.legible_toJson (info : FieldInfo) {depth : Nat} (h : 0 < depth) :
    info.toJson.Legible depth := by
  rw [toJson_eq]
  refine ⟨h, ?_⟩
  cases info.analyzer <;> simp [Json.LegibleMembers, Json.Legible]

theorem FieldCatalog.legible_toStored (catalog : FieldCatalog) :
    catalog.toStored.Legible Json.maxDepth := by
  have hinfos : ∀ infos : FieldInfos, (FieldInfos.toStored infos).Legible 125 := by
    intro infos
    refine ⟨by decide, ⟨by decide, Json.legibleMembers_iff.mpr ?_⟩, trivial⟩
    intro member hmember
    obtain ⟨path, -, rfl⟩ := List.mem_map.mp hmember
    refine ⟨by decide, Json.legibleItems_iff.mpr fun item hitem => ?_⟩
    obtain ⟨info, -, rfl⟩ := List.mem_map.mp hitem
    exact info.legible_toJson (by decide)
  refine ⟨by decide, ⟨by decide, Json.legibleMembers_iff.mpr fun member hmember => ?_⟩, trivial⟩
  obtain ⟨entry, -, rfl⟩ := List.mem_map.mp hmember
  exact hinfos entry.2

/-- **The text of a catalog can be read.** -/
theorem FieldCatalog.isSome_ofText? (catalog : FieldCatalog) :
    (ofText? catalog.toStored.write).isSome := by
  rw [ofText?, Json.parseWritten?_write catalog.legible_toStored, Option.bind_some]
  exact catalog.isSome_ofStored?

/-! ### Schemas -/

namespace JsonSchema

theorem isSome_readTypes? (types : List JsonType) :
    (readTypes? (.array (types.map fun t => .text t.name))).isSome := by
  unfold readTypes?
  rw [Option.isSome_map]
  refine isSome_mapM fun item hitem => ?_
  obtain ⟨type, -, rfl⟩ := List.mem_map.mp hitem
  simp [text?, JsonType.ofName?_name]

theorem toStored_eq (types : List JsonType) (properties : List (String × JsonSchema))
    (items : Option JsonSchema) : toStored ⟨types, properties, items⟩
      = .object [("items", itemsToStored items),
        ("properties", .object (propertiesToStored properties)),
        ("types", .array (types.map fun t => .text t.name))] := by
  rw [toStored]
  generalize itemsToStored items = items'
  generalize Json.object (propertiesToStored properties) = properties'
  generalize Json.array (types.map fun t => .text t.name) = types'
  cbv

/-- The three members are all there, each once. -/
theorem isSome_readParts? {types properties items : Json} (htypes : (readTypes? types).isSome)
    (hproperties : (readProperties? properties).isSome) (hitems : (readItems? items).isSome) :
    ((readParts? [("items", items), ("properties", properties), ("types", types)]).bind
      Parts.whole?).isSome := by
  obtain ⟨ts, htypes⟩ := Option.isSome_iff_exists.mp htypes
  obtain ⟨ps, hproperties⟩ := Option.isSome_iff_exists.mp hproperties
  obtain ⟨is, hitems⟩ := Option.isSome_iff_exists.mp hitems
  simp [readParts?, htypes, hproperties, hitems, Parts.whole?]

mutual

/-- A stored schema can be read. -/
theorem isSome_ofStored? : ∀ schema : JsonSchema, (ofStored? schema.toStored).isSome
  | ⟨types, properties, items⟩ => by
      rw [toStored_eq, ofStored?]
      exact isSome_readParts? (isSome_readTypes? types) (isSome_readProperties? properties)
        (isSome_readItems? items)

theorem isSome_readProperties? : ∀ properties : List (String × JsonSchema),
    (readProperties? (.object (propertiesToStored properties))).isSome
  | properties => by
      rw [readProperties?, Option.isSome_map]
      exact isSome_readMembers? properties

theorem isSome_readMembers? : ∀ properties : List (String × JsonSchema),
    (readMembers? (propertiesToStored properties)).isSome
  | [] => rfl
  | (name, schema) :: rest => by
      obtain ⟨first, hfirst⟩ := Option.isSome_iff_exists.mp (isSome_ofStored? schema)
      obtain ⟨others, hothers⟩ := Option.isSome_iff_exists.mp (isSome_readMembers? rest)
      simp [propertiesToStored, readMembers?, hfirst, hothers]

theorem isSome_readItems? : ∀ items : Option JsonSchema,
    (readItems? (itemsToStored items)).isSome
  | none => rfl
  | some ⟨types, properties, items⟩ => by
      rw [itemsToStored, toStored_eq, readItems?, Option.isSome_map]
      exact isSome_readParts? (isSome_readTypes? types) (isSome_readProperties? properties)
        (isSome_readItems? items)

end

end JsonSchema

/-- Stored schemas can be read. -/
theorem SchemaCatalog.isSome_ofStored? (schemas : SchemaCatalog) :
    (ofStored? schemas.toStored).isSome := by
  simp only [ofStored?, toStored, Member.ofRecord?_single, Member.once?_single, bind, Option.bind]
  exact Member.isSome_table? fun entry _ => JsonSchema.isSome_ofStored? entry.2

/-- The text of schemas can be read if it is parsed as it was written. -/
theorem SchemaCatalog.isSome_ofText? {schemas : SchemaCatalog}
    (h : Json.parseWritten? schemas.toStored.write = some schemas.toStored) :
    (ofText? schemas.toStored.write).isSome := by
  rw [ofText?, h, Option.bind_some]
  exact schemas.isSome_ofStored?

end DocIndex

namespace DocIndex

open Json

/-- A table that is written value by value is read value by value. -/
theorem Json.Member.table?_map {α β : Type} {read? : Json → Option α} {write : β → Json}
    {value : β → α} {entries : Table String β} (hsorted : Table.Sorted entries)
    (h : ∀ entry ∈ entries, read? (write entry.2) = some (value entry.2)) :
    table? read? (.object (entries.map fun entry => (entry.1, write entry.2)))
      = some (entries.map fun entry => (entry.1, value entry.2)) := by
  have hread : (entries.map fun entry => (entry.1, write entry.2)).mapM (fun member =>
      (read? member.2).map fun value => (member.1, value))
        = some (entries.map fun entry => (entry.1, value entry.2)) := by
    refine mapM_eq_some.mpr (List.forall₂_map_left_iff.mpr (List.forall₂_map_right_iff.mpr ?_))
    refine List.forall₂_same.mpr fun entry hentry => ?_
    rw [h entry hentry, Option.map_some]
  have hvalues : Table.Sorted (entries.map fun entry => (entry.1, value entry.2)) :=
    List.pairwise_map.mpr hsorted
  rw [table?, hread, Option.map_some, Table.ofEntries_of_sorted hvalues]

theorem Table.find?_map {κ β γ : Type} [Ord κ] (change : β → γ) (key : κ) :
    ∀ table : Table κ β, Table.find? (table.map fun entry => (entry.1, change entry.2)) key
      = (Table.find? table key).map change
  | [] => rfl
  | (k, v) :: rest => by
      have hrest := Table.find?_map change key rest
      cases hc : compare key k with
      | lt => simp [Table.find?, hc]
      | eq => simp [Table.find?, hc]
      | gt => simpa [Table.find?, hc] using hrest

/-! ### Fields -/

namespace FieldInfos

/-- The observations as they are read, path by path. -/
def regrouped (infos : FieldInfos) : FieldInfos := merge [] (infos.paths.flatMap infos.atPath)

/-- Every observation is found at its path. -/
theorem mem_regrouped {infos : FieldInfos} {info : FieldInfo} :
    info ∈ infos.regrouped ↔ info ∈ infos := by
  have hpath : info ∈ infos → info.path ∈ infos.paths := fun h =>
    mem_sortedDistinct.mpr (List.mem_map_of_mem h)
  simp only [regrouped, mem_merge, List.not_mem_nil, false_or, List.mem_flatMap, atPath,
    List.mem_filter, beq_iff_eq]
  exact ⟨fun ⟨_, _, h, _⟩ => h, fun h => ⟨info.path, hpath h, h, rfl⟩⟩

theorem ofStored?_toStored (infos : FieldInfos) :
    ofStored? infos.toStored = some infos.regrouped := by
  let entries : Table String (List FieldInfo) :=
    infos.paths.map fun path => (path, infos.atPath path)
  let write := fun stored : List FieldInfo => Json.array (stored.map FieldInfo.toJson)
  have hsorted : Table.Sorted entries :=
    List.pairwise_map.mpr (pairwise_sortedDistinct (infos.map FieldInfo.path))
  have hread : ∀ entry ∈ entries, readPath? (write entry.2) = some (id entry.2) := by
    intro entry _
    refine mapM_eq_some.mpr (List.forall₂_map_left_iff.mpr ?_)
    exact List.forall₂_same.mpr fun info _ => info.ofStored?_toJson
  have hentries : (infos.paths.map fun path => (path, write (infos.atPath path)))
      = entries.map fun entry => (entry.1, write entry.2) := by
    rw [List.map_map]
    rfl
  have hvalues : (Table.values (entries.map fun entry => (entry.1, id entry.2))).flatten
      = infos.paths.flatMap infos.atPath := by
    rw [Table.values, List.map_map, List.map_map, List.flatMap_def]
    rfl
  have htable := Member.table?_map hsorted hread
  rw [← hentries] at htable
  simp only [ofStored?, toStored, Member.ofRecord?_single, Member.once?_single, bind, Option.bind]
  simp only [write] at htable
  rw [htable]
  show some (List.foldl add [] _) = some (List.foldl add [] _)
  rw [hvalues]

end FieldInfos

namespace FieldCatalog

/-- **A catalog that is read again knows what the stored one knew.** -/
theorem ofText?_write {catalog : FieldCatalog} (h : Table.Sorted catalog) :
    ∃ again, ofText? catalog.toStored.write = some again ∧ Table.Sorted again ∧
      ∀ contentType info, again.Knows contentType info ↔ catalog.Knows contentType info := by
  let again : FieldCatalog := catalog.map fun entry => (entry.1, FieldInfos.regrouped entry.2)
  have hread : ofStored? catalog.toStored = some again := by
    simp only [ofStored?, toStored, Member.ofRecord?_single, Member.once?_single, bind, Option.bind]
    exact Member.table?_map h fun entry _ => FieldInfos.ofStored?_toStored entry.2
  refine ⟨again, ?_, List.pairwise_map.mpr h, fun contentType info => ?_⟩
  · rw [ofText?, Json.parseWritten?_write catalog.legible_toStored, Option.bind_some, hread]
  · simp only [Knows, again, Table.find?_map, Option.map_eq_some_iff]
    constructor
    · rintro ⟨_, ⟨infos, hfind, rfl⟩, hinfo⟩
      exact ⟨infos, hfind, FieldInfos.mem_regrouped.mp hinfo⟩
    · rintro ⟨infos, hfind, hinfo⟩
      exact ⟨_, ⟨infos, hfind, rfl⟩, FieldInfos.mem_regrouped.mpr hinfo⟩

end FieldCatalog

/-! ### Schemas -/

namespace JsonSchema

theorem readTypes?_written {types : List JsonType}
    (h : types.Pairwise fun a b => compare a b = .lt) :
    readTypes? (.array (types.map fun t => .text t.name)) = some types := by
  have hread : (types.map fun t => Json.text t.name).mapM
      (fun item => (Json.text? item).bind JsonType.ofName?) = some types := by
    refine mapM_eq_some.mpr (List.forall₂_map_left_iff.mpr ?_)
    exact List.forall₂_same.mpr fun type _ => type.ofName?_name
  rw [readTypes?, hread, Option.map_some, sortedDistinct_of_pairwise h]

/-- The three members of a stored schema are put together again. -/
theorem readParts?_written {storedTypes storedProperties storedItems : Json}
    {types : List JsonType} {properties : List (String × JsonSchema)} {items : Option JsonSchema}
    (htypes : readTypes? storedTypes = some types)
    (hproperties : readProperties? storedProperties = some properties)
    (hitems : readItems? storedItems = some items) :
    (readParts? [("items", storedItems), ("properties", storedProperties),
      ("types", storedTypes)]).bind Parts.whole? = some ⟨types, properties, items⟩ := by
  simp [readParts?, htypes, hproperties, hitems, Parts.whole?]

mutual

/-- **A tidy schema comes back as it was stored.** -/
theorem ofStored?_toStored : ∀ {schema : JsonSchema}, schema.Tidy →
    ofStored? schema.toStored = some schema
  | ⟨_, _, _⟩, ⟨htypes, hsorted, hproperties, hitems⟩ => by
      rw [toStored_eq, ofStored?]
      exact readParts?_written (readTypes?_written htypes)
        (readProperties?_written hsorted hproperties) (readItems?_written hitems)

theorem readProperties?_written : ∀ {properties : List (String × JsonSchema)},
    Table.Sorted properties → TidyProperties properties →
      readProperties? (.object (propertiesToStored properties)) = some properties
  | _, hsorted, h => by
      rw [readProperties?, readMembers?_written h, Option.map_some,
        Table.ofEntries_of_sorted hsorted]

theorem readMembers?_written : ∀ {properties : List (String × JsonSchema)},
    TidyProperties properties → readMembers? (propertiesToStored properties) = some properties
  | [], _ => rfl
  | (_, _) :: _, ⟨hschema, hrest⟩ => by
      rw [propertiesToStored, readMembers?, ofStored?_toStored hschema,
        readMembers?_written hrest]

theorem readItems?_written : ∀ {items : Option JsonSchema}, TidyItems items →
    readItems? (itemsToStored items) = some items
  | none, _ => rfl
  | some ⟨_, _, _⟩, ⟨htypes, hsorted, hproperties, hitems⟩ => by
      rw [itemsToStored, toStored_eq, readItems?, readParts?_written (readTypes?_written htypes)
        (readProperties?_written hsorted hproperties) (readItems?_written hitems), Option.map_some]

end

mutual

/-- A stored schema can be read if the reader may open enough levels. -/
theorem exists_legible_toStored : ∀ schema : JsonSchema, ∃ depth, schema.toStored.Legible depth
  | ⟨types, properties, items⟩ => by
      obtain ⟨inner, hinner⟩ := exists_legible_properties properties
      obtain ⟨below, hbelow⟩ := exists_legible_items items
      have hmembers : (Json.object (propertiesToStored properties)).Legible (max inner below + 1) :=
        ⟨Nat.succ_pos _, hinner.of_le (Nat.le_max_left inner below)⟩
      have htypes : (Json.array (types.map fun t => .text t.name)).Legible
          (max inner below + 1) := by
        refine ⟨Nat.succ_pos _, Json.legibleItems_iff.mpr fun item hitem => ?_⟩
        obtain ⟨type, -, rfl⟩ := List.mem_map.mp hitem
        trivial
      refine ⟨max inner below + 2, ?_⟩
      rw [toStored_eq]
      exact ⟨Nat.succ_pos _, hbelow.of_le (by omega), hmembers, htypes, trivial⟩

theorem exists_legible_properties : ∀ properties : List (String × JsonSchema),
    ∃ depth, Json.LegibleMembers depth (propertiesToStored properties)
  | [] => ⟨0, trivial⟩
  | (_, schema) :: rest => by
      obtain ⟨first, hfirst⟩ := exists_legible_toStored schema
      obtain ⟨others, hothers⟩ := exists_legible_properties rest
      exact ⟨max first others, hfirst.of_le (Nat.le_max_left _ _),
        hothers.of_le (Nat.le_max_right _ _)⟩

theorem exists_legible_items : ∀ items : Option JsonSchema,
    ∃ depth, (itemsToStored items).Legible depth
  | none => ⟨0, trivial⟩
  | some schema => exists_legible_toStored schema

end

end JsonSchema

namespace SchemaCatalog

open JsonSchema (TidyTable)

theorem ofStored?_toStored {schemas : SchemaCatalog} (h : TidyTable schemas) :
    ofStored? schemas.toStored = some schemas := by
  have hread : ∀ entry ∈ schemas, JsonSchema.ofStored? entry.2.toStored = some (id entry.2) :=
    fun entry hentry => JsonSchema.ofStored?_toStored (h.tidy entry hentry)
  have hsame : (schemas.map fun entry => (entry.1, id entry.2)) = schemas := List.map_id schemas
  simp only [ofStored?, toStored, Member.ofRecord?_single, Member.once?_single, bind, Option.bind]
  rw [Member.table?_map h.sorted hread, hsame]

theorem exists_legible_toStored (schemas : SchemaCatalog) :
    ∃ depth, schemas.toStored.Legible depth := by
  obtain ⟨depth, hdepth⟩ := JsonSchema.exists_legible_properties schemas
  have hstored : (schemas.map fun entry => (entry.1, entry.2.toStored))
      = JsonSchema.propertiesToStored schemas := by
    clear hdepth
    induction schemas with
    | nil => rfl
    | cons entry rest ih => rw [List.map_cons, ih, JsonSchema.propertiesToStored]
  refine ⟨depth + 2, Nat.succ_pos _, ⟨Nat.succ_pos _, ?_⟩, trivial⟩
  rw [hstored]
  exact hdepth

/-- **Schemas whose text is parsed come back as they were stored.** -/
theorem eq_of_ofText?_write {schemas again : SchemaCatalog} (h : TidyTable schemas)
    (hread : ofText? schemas.toStored.write = some again) : again = schemas := by
  obtain ⟨depth, hdepth⟩ := schemas.exists_legible_toStored
  obtain ⟨stored, hstored, hread⟩ := Option.bind_eq_some_iff.mp hread
  obtain rfl := Json.eq_of_parseWritten?_write hdepth hstored
  exact Option.some.inj (hread.symm.trans (ofStored?_toStored h))

end SchemaCatalog

end DocIndex
