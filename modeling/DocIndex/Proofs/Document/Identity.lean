/-
The fields that identify a document.

At a path of exact terms every value that is not a container makes one term, and no other field
has the name of the path, if the path has no dot in it: the fields of other values are named for
their own paths, or have a dot.  So the fields of the name are the values at the path, and the
question is which values stand there.  The top member of that name does.  Another stands there
only if a member has no name: what is in it stands at the root again.
-/
import Mathlib.Data.List.Nodup
import DocIndex.Proofs.Document.Parts
import DocIndex.Proofs.Table

namespace DocIndex

open DocumentBuilder (searchedAs standard)

/-! ### Values at a path without a dot -/

namespace Json

/--
The values that stand at a path below the member without a name, whose own members stand at the
root again.
-/
def hiddenAt (json : Json) (path : String) : List Json :=
  ((json.member? "").map fun value => value.valuesAt path).getD []

/-- An object as a table of its members. -/
def IsTable : Json → Prop
  | .object members => Table.Sorted members
  | _ => False

instance : (json : Json) → Decidable json.IsTable
  | .object members => inferInstanceAs (Decidable (Table.Sorted members))
  | .null | .bool _ | .int _ | .double _ | .text _ | .array _ => .isFalse id

theorem dot_mem_memberPath {path : String} (h : path ≠ "") (key : String) :
    '.' ∈ (memberPath path key).toList := by
  have hsome : path.isEmpty = false := by
    rw [Bool.eq_false_iff]
    exact fun hempty => h (String.isEmpty_iff.mp hempty)
  simp [memberPath, hsome, String.toList_append]

mutual

/-- Below the root, what is in a value stands at its path or at one with a dot. -/
theorem parts_within : ∀ {path : String}, path ≠ "" → ∀ {json : Json},
    ∀ part ∈ json.parts path, part.1 = path ∨ '.' ∈ part.1.toList
  | _, hpath, .object members => fun part hpart => Or.inr (partsOfMembers_within hpath part hpart)
  | path, hpath, .array items => fun part hpart => by
      rcases List.mem_cons.mp hpart with rfl | hpart
      · exact Or.inl rfl
      · exact partsOfItems_within hpath part hpart
  | _, _, .null => by simp [parts]
  | _, _, .bool _ => by simp [parts]
  | _, _, .int _ => by simp [parts]
  | _, _, .double _ => by simp [parts]
  | _, _, .text _ => by simp [parts]

theorem partsOfMembers_within : ∀ {path : String}, path ≠ "" →
    ∀ {members : List (String × Json)}, ∀ part ∈ partsOfMembers path members,
      '.' ∈ part.1.toList
  | _, _, [] => by simp [partsOfMembers]
  | path, hpath, (key, value) :: rest => fun part hpart => by
      have hdot := dot_mem_memberPath hpath key
      have hchild : memberPath path key ≠ "" := by
        intro heq
        rw [heq] at hdot
        simp at hdot
      rcases List.mem_append.mp hpart with hpart | hpart
      · rcases parts_within hchild part hpart with heq | hpart
        · rwa [heq]
        · exact hpart
      · exact partsOfMembers_within hpath part hpart

theorem partsOfItems_within : ∀ {path : String}, path ≠ "" → ∀ {items : List Json},
    ∀ part ∈ partsOfItems path items, part.1 = path ∨ '.' ∈ part.1.toList
  | _, _, [] => by simp [partsOfItems]
  | path, hpath, item :: rest => fun part hpart => by
      rcases List.mem_append.mp hpart with hpart | hpart
      · exact parts_within hpath part hpart
      · exact partsOfItems_within hpath part hpart

end

/-- The values at a path in parts. -/
def valuesIn (path : String) (parts : List (String × Json)) : List Json :=
  (parts.filter fun part => part.1 == path && !part.2.isContainer).map Prod.snd

theorem valuesIn_append (path : String) (first second : List (String × Json)) :
    valuesIn path (first ++ second) = valuesIn path first ++ valuesIn path second := by
  simp [valuesIn]

/-- A member with another name has no values at a path without a dot. -/
theorem valuesIn_parts_of_ne {key path : String} (hkey : key ≠ "") (hne : key ≠ path)
    (hdot : '.' ∉ path.toList) (value : Json) : valuesIn path (value.parts key) = [] := by
  have hnone : ∀ part ∈ value.parts key, ¬(part.1 == path && !part.2.isContainer) = true := by
    intro part hpart hat
    simp only [Bool.and_eq_true, beq_iff_eq] at hat
    rcases parts_within hkey part hpart with heq | hpart
    · exact hne (heq.symm.trans hat.1)
    · exact hdot (hat.1 ▸ hpart)
  rw [valuesIn, List.filter_eq_nil_iff.mpr hnone, List.map_nil]

/-- Members of other names have no values at a path without a dot. -/
theorem valuesIn_members_of_ne {path : String} (hdot : '.' ∉ path.toList)
    {members : List (String × Json)} (h : ∀ member ∈ members, member.1 ≠ "" ∧ member.1 ≠ path) :
    valuesIn path (partsOfMembers "" members) = [] := by
  induction members with
  | nil => rfl
  | cons member rest ih =>
      obtain ⟨hkey, hne⟩ := h member List.mem_cons_self
      rw [partsOfMembers, valuesIn_append,
        ih fun other hother => h other (List.mem_cons_of_mem _ hother), List.append_nil]
      exact valuesIn_parts_of_ne hkey hne hdot member.2

theorem partsOfMembers_append (path : String) (front back : List (String × Json)) :
    partsOfMembers path (front ++ back)
      = partsOfMembers path front ++ partsOfMembers path back := by
  induction front with
  | nil => rfl
  | cons member rest ih =>
      rw [List.cons_append, partsOfMembers, partsOfMembers, ih, List.append_assoc]

theorem parts_scalar {value : Json} (h : value.isContainer = false) (path : String) :
    value.parts path = [(path, value)] := by
  cases value with
  | object members => cases h
  | array items => cases h
  | _ => rfl

/-- The keys of the members around one are other keys. -/
theorem ne_of_sorted {front back : List (String × Json)} {path : String} {value : Json}
    (hsorted : Table.Sorted (front ++ (path, value) :: back)) :
    ∀ member ∈ front ++ back, member.1 ≠ path := by
  intro member hmember heq
  have hnodup := Table.nodup_keys hsorted
  rw [Table.keys, List.map_append, List.map_cons, List.nodup_middle] at hnodup
  refine (List.nodup_cons.mp hnodup).1 ?_
  rw [← List.map_append]
  exact List.mem_map.mpr ⟨member, hmember, heq⟩

/-- Among members with names, one value stands at the path of a scalar member. -/
theorem valuesIn_named {members : List (String × Json)} (hsorted : Table.Sorted members)
    {path : String} (hdot : '.' ∉ path.toList) {value : Json}
    (hfind : Table.find? members path = some value) (hscalar : value.isContainer = false)
    (hnames : ∀ member ∈ members, member.1 ≠ "") :
    valuesIn path (partsOfMembers "" members) = [value] := by
  obtain ⟨front, back, rfl⟩ := List.append_of_mem (Table.mem_of_find? hfind)
  have hother : ∀ member ∈ front ++ back, member.1 ≠ "" ∧ member.1 ≠ path := by
    intro member hmember
    refine ⟨hnames member ?_, ne_of_sorted hsorted member hmember⟩
    rcases List.mem_append.mp hmember with h | h
    · exact List.mem_append_left _ h
    · exact List.mem_append_right _ (List.mem_cons_of_mem _ h)
  have hfront := valuesIn_members_of_ne hdot fun member hmember =>
    hother member (List.mem_append_left back hmember)
  have hback := valuesIn_members_of_ne hdot fun member hmember =>
    hother member (List.mem_append_right front hmember)
  have hown : valuesIn path (value.parts path) = [value] := by
    simp [valuesIn, parts_scalar hscalar, hscalar]
  rw [partsOfMembers_append, partsOfMembers, valuesIn_append, valuesIn_append, hfront, hback]
  show [] ++ (valuesIn path (value.parts path) ++ []) = _
  rw [hown]
  rfl

/-- No key is before the empty one. -/
theorem ne_empty_of_compare {key other : String} (h : compare key other = .lt) : other ≠ "" := by
  rintro rfl
  exact List.not_lt_nil _ (String.lt_iff.mp (compareOfLessAndEq_eq_lt.mp h))

/-- **At the path of a scalar member stand what is hidden there and the member.** -/
theorem valuesAt_object {members : List (String × Json)} (hsorted : Table.Sorted members)
    {path : String} (hpath : path ≠ "") (hdot : '.' ∉ path.toList) {value : Json}
    (hfind : Table.find? members path = some value) (hscalar : value.isContainer = false) :
    (object members).valuesAt path = (object members).hiddenAt path ++ [value] := by
  show valuesIn path (partsOfMembers "" members) = _
  cases members with
  | nil => cases hfind
  | cons first rest =>
      obtain ⟨key, own⟩ := first
      obtain ⟨hfirst, hrest⟩ := Table.sorted_cons.mp hsorted
      have hbehind : ∀ member ∈ rest, member.1 ≠ "" := fun member hmember =>
        ne_empty_of_compare (hfirst member hmember)
      by_cases hkey : key = ""
      · -- Only the first member can be without a name.
        subst hkey
        have hfound : Table.find? rest path = some value := by
          rcases List.mem_cons.mp (Table.mem_of_find? hfind) with heq | hmem
          · exact absurd (Prod.mk.inj heq).1 hpath
          · exact Table.find?_of_mem hrest hmem
        have hhidden : (object (("", own) :: rest)).hiddenAt path = own.valuesAt path := by
          simp [hiddenAt, member?, Table.find?]
        rw [partsOfMembers, valuesIn_append, hhidden,
          valuesIn_named hrest hdot hfound hscalar hbehind]
        rfl
      · have hnames : ∀ member ∈ (key, own) :: rest, member.1 ≠ "" :=
          List.forall_mem_cons.mpr ⟨hkey, hbehind⟩
        have hnone : Table.find? ((key, own) :: rest) "" = none :=
          (Table.find?_eq_none_iff hsorted).mpr fun hmem => by
            obtain ⟨member, hmember, heq⟩ := List.mem_map.mp hmem
            exact hnames member hmember heq
        have hhidden : (object ((key, own) :: rest)).hiddenAt path = [] := by
          simp [hiddenAt, member?, hnone]
        rw [hhidden, valuesIn_named hsorted hdot hfind hscalar hnames]
        rfl

end Json

/-! ### Exact terms -/

namespace DocumentBuilder

variable {builder : DocumentBuilder} {path contentType : String}

/-- The exact term that a value makes at a path, unless it is a container. -/
def exactTerm? (path : String) (value : Json) : Option Field :=
  (Strategy.scalarText? value).map (Field.term path)

theorem exactTerm?_eq_none {value : Json} :
    exactTerm? path value = none ↔ value.isContainer = true := by
  cases value <;> simp [exactTerm?, Strategy.scalarText?, Json.isContainer]

/-- At a path of exact terms, a value that is projected makes one, and is no container. -/
theorem project_exact (hpath : path ∈ builder.fields.identityPaths) {value : Json}
    {group : List Projection} (h : builder.project ⟨contentType, path⟩ value = .ok group) :
    value.isContainer = false ∧
      group.flatMap Projection.fields = (exactTerm? path value).toList := by
  have hstrategy : builder.fields.resolve? ⟨contentType, path⟩ value.type = some .identity :=
    if_pos (by simpa using hpath)
  rw [project, hstrategy] at h
  obtain ⟨projection, hproject, h⟩ := bind_eq_ok.mp h
  obtain rfl := Except.ok.inj h
  cases hterm : Strategy.scalarText? value with
  | none => simp [Strategy.project, Strategy.fields?, hterm] at hproject
  | some s =>
      simp only [Strategy.project, Strategy.fields?, hterm, Option.map_some] at hproject
      obtain rfl := Except.ok.inj hproject
      refine ⟨?_, by simp [exactTerm?, hterm]⟩
      by_contra hcontainer
      have hnone : exactTerm? path value = none :=
        exactTerm?_eq_none.mpr (by simpa using hcontainer)
      rw [exactTerm?, hterm] at hnone
      cases hnone

/-- What a value at another path makes does not have the name. -/
theorem filter_project_of_ne {other : String} (hne : other ≠ path) (hdot : '.' ∉ path.toList)
    {value : Json} {group : List Projection}
    (h : builder.project ⟨contentType, other⟩ value = .ok group) :
    (group.flatMap Projection.fields).filter (searchedAs path) = [] := by
  refine List.filter_eq_nil_iff.mpr fun field hfield => ?_
  rw [searchedAs_eq_false (project_within h field hfield) hne hdot]
  exact Bool.false_ne_true

/-- The fields of the name of a path of exact terms are the terms of the values there. -/
theorem filter_searchedAs_parts (hpath : path ∈ builder.fields.identityPaths)
    (hdot : '.' ∉ path.toList) {parts : List (String × Json)} {projections : List Projection}
    (h : builder.ProjectsTo contentType parts projections) :
    (projections.flatMap Projection.fields).filter (searchedAs path)
      = (Json.valuesIn path parts).filterMap (exactTerm? path) := by
  obtain ⟨groups, hgroups, rfl⟩ := h
  induction hgroups with
  | nil => rfl
  | @cons part group parts groups hfirst _ ih =>
      have hsplit : Json.valuesIn path (part :: parts)
          = Json.valuesIn path [part] ++ Json.valuesIn path parts :=
        Json.valuesIn_append path [part] parts
      rw [List.flatten_cons, List.flatMap_append, List.filter_append, ih, hsplit,
        List.filterMap_append]
      congr 1
      obtain ⟨other, value⟩ := part
      by_cases hother : other = path
      · subst hother
        obtain ⟨hscalar, hfields⟩ := project_exact hpath hfirst
        rw [hfields]
        cases hterm : Strategy.scalarText? value <;>
          simp [Json.valuesIn, hscalar, exactTerm?, hterm, searchedAs, Field.term]
      · rw [filter_project_of_ne hother hdot hfirst]
        simp [Json.valuesIn, hother]

/-- **The fields of the name of a path of exact terms are the values that stand there.** -/
theorem filter_document (hpath : path ∈ builder.fields.identityPaths) (hdot : '.' ∉ path.toList)
    {json : Json} {built : BuiltDocument} (hbuild : builder.build json = .ok built) :
    built.document.filter (searchedAs path) = (json.valuesAt path).filterMap (exactTerm? path) := by
  obtain ⟨projections, hbuilt⟩ := builtBy hbuild
  rw [hbuilt.document, List.filter_append, filter_searchedAs_parts hpath hdot hbuilt.parts]
  exact List.append_nil _

/-- A scalar member makes the only field of its name if and only if no value is hidden there. -/
theorem filter_document_iff (hpath : path ∈ builder.fields.identityPaths)
    (hdot : '.' ∉ path.toList) (hname : path ≠ "") {members : List (String × Json)}
    (hsorted : Table.Sorted members) {value : Json} (hfind : Table.find? members path = some value)
    {s : String} (htext : Strategy.scalarText? value = some s) {built : BuiltDocument}
    (hbuild : builder.build (.object members) = .ok built) :
    built.document.filter (searchedAs path) = [.term path s] ↔
      (Json.object members).hiddenAt path = [] := by
  have hterm : exactTerm? path value = some (.term path s) := by rw [exactTerm?, htext]; rfl
  have hscalar : value.isContainer = false := by
    by_contra hcontainer
    rw [exactTerm?_eq_none.mpr (by simpa using hcontainer)] at hterm
    cases hterm
  have hvalues := Json.valuesAt_object hsorted hname hdot hfind hscalar
  rw [filter_document hpath hdot hbuild, hvalues, List.filterMap_append]
  simp only [List.filterMap_cons, hterm, List.filterMap_nil]
  rw [List.append_left_eq_self]
  constructor
  · intro hnone
    rw [List.filterMap_eq_nil_iff] at hnone
    refine List.eq_nil_iff_forall_not_mem.mpr fun other hother => ?_
    have hcontainer := exactTerm?_eq_none.mp (hnone other hother)
    have hin : other ∈ (Json.object members).valuesAt path := by
      rw [hvalues]
      exact List.mem_append_left _ hother
    rw [(Json.mem_valuesAt.mp hin).2] at hcontainer
    cases hcontainer
  · intro hnone
    rw [hnone]
    rfl

/-! ### Documents that were prepared -/

/-- A field that is always an exact term, with a name that only its own path can have. -/
structure IsExact (builder : DocumentBuilder) (path : String) : Prop where
  exact : path ∈ builder.fields.identityPaths
  dotless : '.' ∉ path.toList
  named : path ≠ ""

theorem present?_eq_some {members : List (String × Json)} {key : String} {value : Json} :
    present? members key = some value ↔ Table.find? members key = some value ∧ value ≠ .null := by
  unfold present?
  split
  · rename_i hnull
    simp only [hnull, Option.some.injEq, reduceCtorEq, false_iff, not_and, not_not]
    exact fun h => h.symm
  · rename_i hnull
    refine ⟨fun h => ⟨h, ?_⟩, fun h => h.1⟩
    rintro rfl
    exact hnull h

theorem find?_fillIn_of_ne (members : List (String × Json)) {key other : String}
    (hne : other ≠ key) (value : String) :
    Table.find? (fillIn members key value) other = Table.find? members other := by
  unfold fillIn
  split
  · rfl
  · exact Table.find?_insert_ne members hne _

/-- A member that is filled in is the text that it is filled in with, or was there. -/
theorem find?_fillIn_self (members : List (String × Json)) (key value : String) :
    ∃ filled, Table.find? (fillIn members key value) key = some filled ∧
      (filled = .text value ∨ present? members key = some filled) := by
  unfold fillIn
  split
  · rename_i hpresent
    obtain ⟨old, hold⟩ := Option.isSome_iff_exists.mp hpresent
    exact ⟨old, (present?_eq_some.mp hold).1, Or.inr hold⟩
  · exact ⟨_, Table.find?_insert_self _ _ _, Or.inl rfl⟩

theorem present?_fillIn {members : List (String × Json)} {other : String} {old : Json}
    (h : present? members other = some old) (key value : String) :
    present? (fillIn members key value) other = some old := by
  by_cases hkey : other = key
  · subst hkey
    rw [fillIn, if_pos (by rw [h]; rfl), h]
  · rw [present?_eq_some] at h ⊢
    rwa [find?_fillIn_of_ne members hkey]

end DocumentBuilder

namespace Json

/-- An object whose member is a text, if it is there and not null. -/
def StatesText (json : Json) (key : String) : Prop :=
  ∀ value, json.member? key = some value → value = .null ∨ ∃ s, value = .text s

end Json

namespace DocumentBuilder

theorem StatesText.fillIn {members : List (String × Json)} {key : String}
    (h : (Json.object members).StatesText key) (other value : String) :
    (Json.object (fillIn members other value)).StatesText key := by
  intro found hfound
  by_cases hkey : key = other
  · subst hkey
    obtain ⟨filled, hfilled, hcase⟩ := find?_fillIn_self members key value
    obtain rfl : filled = found := Option.some.inj (hfilled.symm.trans hfound)
    rcases hcase with rfl | hold
    · exact Or.inr ⟨value, rfl⟩
    · exact h filled (present?_eq_some.mp hold).1
  · rw [Json.member?, find?_fillIn_of_ne members hkey] at hfound
    exact h found hfound

variable {builder : DocumentBuilder} {document json : Json} {freshId : String}

/-- What an object hides is not changed by preparing it. -/
theorem hiddenAt_prepare (hid : builder.config.identityField ≠ "")
    (htype : builder.config.contentTypeField ≠ "")
    (h : builder.prepare document freshId = .ok json) (path : String) :
    json.hiddenAt path = document.hiddenAt path := by
  obtain ⟨members, rfl, rfl⟩ := prepare_eq_ok h
  simp only [Json.hiddenAt, Json.member?, find?_fillIn_of_ne _ hid.symm,
    find?_fillIn_of_ne _ htype.symm]

/-- A prepared object that stated no content type but a text states one. -/
theorem contentType_prepare (hstates : document.StatesText builder.config.contentTypeField)
    (h : builder.prepare document freshId = .ok json) :
    ∃ s, json.member? builder.config.contentTypeField = some (.text s) := by
  obtain ⟨members, rfl, rfl⟩ := prepare_eq_ok h
  obtain ⟨filled, hfilled, hcase⟩ := find?_fillIn_self
    (fillIn members builder.config.identityField freshId) builder.config.contentTypeField
    builder.config.defaultContentType
  rcases hcase with rfl | hold
  · exact ⟨_, hfilled⟩
  · obtain ⟨hfound, hnull⟩ := present?_eq_some.mp hold
    rcases StatesText.fillIn hstates _ freshId filled hfound with rfl | ⟨s, rfl⟩
    · exact absurd rfl hnull
    · exact ⟨s, hfilled⟩

/-- An identity that is stated is the text of the member. -/
theorem identity?_eq_some {id : String} (h : builder.identity? json = some id) :
    ∃ value, json.member? builder.config.identityField = some value ∧
      Strategy.scalarText? value = some id ∧ value ≠ .null := by
  unfold identity? Json.identity? at h
  split at h
  · rename_i hmember
    exact ⟨_, hmember, h, by simp⟩
  · rename_i hmember
    exact ⟨_, hmember, h, by simp⟩
  · rename_i hmember
    exact ⟨_, hmember, h, by simp⟩
  · cases h

/-- Preparing an object keeps the identity that it states. -/
theorem identity?_prepare {id : String} (hstated : builder.identity? document = some id)
    (h : builder.prepare document freshId = .ok json) : builder.identity? json = some id := by
  obtain ⟨members, rfl, rfl⟩ := prepare_eq_ok h
  obtain ⟨value, hvalue, -, hnull⟩ := identity?_eq_some hstated
  have hpresent : present? members builder.config.identityField = some value :=
    present?_eq_some.mpr ⟨hvalue, hnull⟩
  have hkept := (present?_eq_some.mp
    (present?_fillIn (present?_fillIn hpresent builder.config.identityField freshId)
      builder.config.contentTypeField builder.config.defaultContentType)).1
  unfold identity? Json.identity? at hstated ⊢
  rw [Json.member?, hkept]
  rwa [hvalue] at hstated

/-- **The identity and the content type of a document are the only terms of their names**,
except for what is hidden there. -/
theorem build_exact (hid : builder.IsExact builder.config.identityField)
    (htype : builder.IsExact builder.config.contentTypeField) (htable : document.IsTable)
    (hprepare : builder.prepare document freshId = .ok json) {built : BuiltDocument}
    (hbuild : builder.build json = .ok built) :
    (built.document.filter (searchedAs builder.config.identityField)
        = [.term builder.config.identityField built.id] ↔
      document.hiddenAt builder.config.identityField = []) ∧
    (document.StatesText builder.config.contentTypeField →
      (built.document.filter (searchedAs builder.config.contentTypeField)
          = [.term builder.config.contentTypeField built.contentType] ↔
        document.hiddenAt builder.config.contentTypeField = [])) := by
  have hhidden := hiddenAt_prepare hid.named htype.named hprepare
  obtain ⟨_, id, _, -, hidentity, -, -, rfl⟩ := build_eq_ok hbuild
  obtain ⟨value, hvalue, htext, -⟩ := identity?_eq_some hidentity
  rw [← hhidden, ← hhidden]
  constructor
  · obtain ⟨members, rfl, rfl⟩ := prepare_eq_ok hprepare
    have hsorted := sorted_fillIn (sorted_fillIn htable builder.config.identityField freshId)
      builder.config.contentTypeField builder.config.defaultContentType
    exact filter_document_iff hid.exact hid.dotless hid.named hsorted hvalue htext hbuild
  · intro hstates
    obtain ⟨s, hs⟩ := contentType_prepare hstates hprepare
    have hstated : builder.contentType json = s := by simp [contentType, hs, Json.text?]
    obtain ⟨members, rfl, rfl⟩ := prepare_eq_ok hprepare
    have hsorted := sorted_fillIn (sorted_fillIn htable builder.config.identityField freshId)
      builder.config.contentTypeField builder.config.defaultContentType
    subst hstated
    exact filter_document_iff htype.exact htype.dotless htype.named hsorted hs rfl hbuild

end DocumentBuilder

end DocIndex
