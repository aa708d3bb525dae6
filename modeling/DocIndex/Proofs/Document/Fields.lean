/-
The fields that a document is built to.

A field is named by the path of the value that it came from, or by that path and a part.
Below the root every path has a dot in it, and so has every name with a part, so a searched
field with the name of a top member came from that member.  This is what identifies a
document: its identity member makes one exact term, and nothing else in the document makes a
field of that name.  An empty name at the top would break it, because the members of such a
member stand at the root again.
-/
import DocIndex.Proofs.Index.Content
import DocIndex.Proofs.Writing.Conversion

namespace DocIndex

open InvertedIndex (keptOf)

/-! ### Names of fields -/

/-- A field that keeps no bytes, and whose name is the path or has a dot in it. -/
structure Field.Within (path : String) (field : Field) : Prop where
  name : field.name = path ∨ '.' ∈ field.name.toList
  unkept : keptOf field = []

theorem Field.dot_mem_derivedName (path part : String) :
    '.' ∈ (Field.derivedName path part).toList := by
  simp [Field.derivedName, String.toList_append]

theorem Place.child_path {place : Place} (h : place.path ≠ "") (key : String) :
    (place.child key).path = place.path ++ "." ++ key := by
  have hsome : place.path.isEmpty = false := by
    rw [Bool.eq_false_iff]
    exact fun hempty => h (String.isEmpty_iff.mp hempty)
  simp [Place.child, hsome]

theorem Place.dot_mem_child {place : Place} (h : place.path ≠ "") (key : String) :
    '.' ∈ (place.child key).path.toList := by
  rw [place.child_path h]
  simp [String.toList_append]

/-- A searched field at the path itself. -/
theorem Field.within_whole {path : String} {value : FieldValue}
    (h : ∀ bytes, value ≠ .stored bytes) :
    ∀ field ∈ [(⟨path, value, false, true⟩ : Field)], field.Within path := by
  intro field hfield
  rw [List.mem_singleton.mp hfield]
  refine ⟨Or.inl rfl, ?_⟩
  cases value with
  | stored bytes => exact absurd rfl (h bytes)
  | term value => rfl
  | text value analyzer => rfl
  | long n => rfl
  | double x => rfl

/-- Numbers under names with a part. -/
theorem Field.within_parts (path : String) (parts : List (String × Int)) :
    ∀ field ∈ parts.map fun part => Field.long (Field.derivedName path part.1) part.2,
      field.Within path := by
  intro field hfield
  obtain ⟨part, -, rfl⟩ := List.mem_map.mp hfield
  exact ⟨Or.inr (Field.dot_mem_derivedName path part.1), rfl⟩

/-- What a strategy makes of a value is named for its path. -/
theorem Strategy.within_of_fields? {strategy : Strategy} {value : Json} {path : String}
    {type : JsonType} {fields : List Field}
    (h : strategy.fields? value path = some (type, fields)) :
    ∀ field ∈ fields, field.Within path := by
  cases strategy with
  | identity =>
      obtain ⟨s, -, heq⟩ := Option.map_eq_some_iff.mp h
      obtain ⟨-, rfl⟩ := Prod.mk.inj heq
      exact Field.within_whole (by simp)
  | text analyzer =>
      obtain ⟨s, -, heq⟩ := Option.map_eq_some_iff.mp h
      obtain ⟨-, rfl⟩ := Prod.mk.inj heq
      exact Field.within_whole (by simp)
  | array =>
      simp only [fields?] at h
      split at h
      · rename_i items
        obtain ⟨-, rfl⟩ := Prod.mk.inj (Option.some.inj h)
        exact Field.within_parts path [("count", items.length)]
      · simp at h
  | int64 =>
      obtain ⟨n, -, heq⟩ := Option.map_eq_some_iff.mp h
      obtain ⟨-, rfl⟩ := Prod.mk.inj heq
      exact Field.within_whole (by simp)
  | double =>
      obtain ⟨x, -, heq⟩ := Option.map_eq_some_iff.mp h
      obtain ⟨-, rfl⟩ := Prod.mk.inj heq
      exact Field.within_whole (by simp)
  | boolean =>
      obtain ⟨b, -, heq⟩ := Option.map_eq_some_iff.mp h
      obtain ⟨-, rfl⟩ := Prod.mk.inj heq
      exact Field.within_whole (by simp)
  | null =>
      obtain ⟨-, rfl⟩ := Prod.mk.inj (Option.some.inj h)
      exact Field.within_whole (by simp)
  | undefined =>
      obtain ⟨-, rfl⟩ := Prod.mk.inj (Option.some.inj h)
      exact Field.within_whole (by simp)
  | dateTime =>
      obtain ⟨m, -, heq⟩ := Option.bind_eq_some_iff.mp h
      obtain ⟨-, rfl⟩ := Prod.mk.inj (Option.some.inj heq)
      intro field hfield
      rcases List.mem_cons.mp hfield with rfl | hfield
      · exact Field.within_whole (by simp) _ List.mem_cons_self
      · exact Field.within_parts path [("ticks", m.ticks), ("year", m.date.year),
          ("month", m.date.month), ("day", m.date.day), ("hour", m.clock.hour),
          ("minute", m.clock.minute)] field hfield
  | timeSpan =>
      obtain ⟨raw, -, hraw⟩ := Option.bind_eq_some_iff.mp h
      obtain ⟨span, -, heq⟩ := Option.bind_eq_some_iff.mp hraw
      obtain ⟨-, rfl⟩ := Prod.mk.inj (Option.some.inj heq)
      intro field hfield
      rcases List.mem_cons.mp hfield with rfl | hfield
      · exact Field.within_whole (by simp) _ List.mem_cons_self
      · exact Field.within_parts path [("ticks", span.ticks), ("days", span.seconds.tdiv 86400),
          ("hours", span.seconds.tdiv 3600 - span.seconds.tdiv 86400 * 24),
          ("minutes", span.seconds.tdiv 60 - span.seconds.tdiv 3600 * 60)] field hfield

theorem Field.Within.of_child {place : Place} (h : place.path ≠ "") {key : String} {field : Field}
    (hfield : field.Within (place.child key).path) : field.Within place.path := by
  refine ⟨Or.inr ?_, hfield.unkept⟩
  rcases hfield.name with hname | hdot
  · rw [hname]
    exact place.dot_mem_child h key
  · exact hdot

namespace DocumentBuilder

variable {builder : DocumentBuilder}

/-- The projection by a strategy bears its name, and has the fields that it makes of the value. -/
theorem fields?_of_strategyProject {strategy : Strategy} {place : Place} {value : Json}
    {projection : Projection} (h : strategy.project value place = .ok projection) :
    strategy.name = projection.strategy ∧
      strategy.fields? value place.path = some (projection.jsonType, projection.fields) := by
  unfold Strategy.project at h
  split at h
  · rename_i hfields
    obtain rfl := Except.ok.inj h
    exact ⟨rfl, hfields⟩
  · cases h

/-- A value is projected by the strategy for its place, if there is one. -/
theorem exists_strategy_of_project {place : Place} {value : Json} {group : List Projection}
    (h : builder.project place value = .ok group) : ∀ projection ∈ group,
      ∃ strategy : Strategy, strategy.name = projection.strategy ∧
        strategy.fields? value place.path = some (projection.jsonType, projection.fields) := by
  unfold project at h
  split at h
  · rename_i strategy _
    obtain ⟨projection, hproject, heq⟩ := bind_eq_ok.mp h
    obtain rfl := Except.ok.inj heq
    exact List.forall_mem_singleton.mpr ⟨strategy, fields?_of_strategyProject hproject⟩
  · obtain rfl := Except.ok.inj h
    exact List.forall_mem_nil _

/-- A value is projected to the fields that some strategy makes of it. -/
theorem exists_fields?_of_project {place : Place} {value : Json} {group : List Projection}
    (h : builder.project place value = .ok group) : ∀ projection ∈ group, ∃ strategy type,
      Strategy.fields? strategy value place.path = some (type, projection.fields) := by
  intro projection hprojection
  obtain ⟨strategy, -, hfields⟩ := exists_strategy_of_project h projection hprojection
  exact ⟨strategy, _, hfields⟩

theorem project_within {place : Place} {value : Json} {projections : List Projection}
    (h : builder.project place value = .ok projections) :
    ∀ field ∈ projections.flatMap Projection.fields, field.Within place.path := by
  intro field hfield
  obtain ⟨projection, hprojection, hown⟩ := List.mem_flatMap.mp hfield
  obtain ⟨strategy, type, hfields⟩ := exists_fields?_of_project h projection hprojection
  exact Strategy.within_of_fields? hfields field hown

mutual

/-- Below the root, everything in a value is named for its path or has a dot in its name. -/
theorem visit_within : ∀ {place : Place} {json : Json} {projections : List Projection},
    place.path ≠ "" → builder.visit place json = .ok projections →
      ∀ field ∈ projections.flatMap Projection.fields, field.Within place.path
  | place, .object members, projections, hplace, h => visitMembers_within hplace h
  | place, .array items, projections, hplace, h => by
      obtain ⟨own, hown, h⟩ := bind_eq_ok.mp h
      obtain ⟨others, hothers, h⟩ := bind_eq_ok.mp h
      obtain rfl := Except.ok.inj h
      intro field hfield
      rw [List.flatMap_append] at hfield
      rcases List.mem_append.mp hfield with hfield | hfield
      · exact project_within hown field hfield
      · exact visitItems_within hplace hothers field hfield
  | _, .null, _, _, h => project_within h
  | _, .bool _, _, _, h => project_within h
  | _, .int _, _, _, h => project_within h
  | _, .double _, _, _, h => project_within h
  | _, .text _, _, _, h => project_within h

theorem visitMembers_within : ∀ {place : Place} {members : List (String × Json)}
    {projections : List Projection}, place.path ≠ "" →
      builder.visitMembers place members = .ok projections →
        ∀ field ∈ projections.flatMap Projection.fields, field.Within place.path
  | _, [], _, _, h => by
      obtain rfl := Except.ok.inj h
      simp
  | place, (key, value) :: rest, projections, hplace, h => by
      obtain ⟨first, hfirst, h⟩ := bind_eq_ok.mp h
      obtain ⟨others, hothers, h⟩ := bind_eq_ok.mp h
      obtain rfl := Except.ok.inj h
      have hchild : (place.child key).path ≠ "" := by
        intro heq
        have hdot := place.dot_mem_child hplace key
        rw [heq] at hdot
        simp at hdot
      intro field hfield
      rw [List.flatMap_append] at hfield
      rcases List.mem_append.mp hfield with hfield | hfield
      · exact (visit_within hchild hfirst field hfield).of_child hplace
      · exact visitMembers_within hplace hothers field hfield

theorem visitItems_within : ∀ {place : Place} {items : List Json}
    {projections : List Projection}, place.path ≠ "" →
      builder.visitItems place items = .ok projections →
        ∀ field ∈ projections.flatMap Projection.fields, field.Within place.path
  | _, [], _, _, h => by
      obtain rfl := Except.ok.inj h
      simp
  | place, item :: rest, projections, hplace, h => by
      obtain ⟨first, hfirst, h⟩ := bind_eq_ok.mp h
      obtain ⟨others, hothers, h⟩ := bind_eq_ok.mp h
      obtain rfl := Except.ok.inj h
      intro field hfield
      rw [List.flatMap_append] at hfield
      rcases List.mem_append.mp hfield with hfield | hfield
      · exact visit_within hplace hfirst field hfield
      · exact visitItems_within hplace hothers field hfield

end

/-! ### Documents that were prepared -/

theorem sorted_fillIn {members : List (String × Json)} (h : Table.Sorted members)
    (key value : String) : Table.Sorted (fillIn members key value) := by
  unfold fillIn
  split
  · exact h
  · exact Table.sorted_insert h key _

/-- Preparing a document fills in two members. -/
theorem prepare_eq_ok {document json : Json} {freshId : String}
    (h : builder.prepare document freshId = .ok json) : ∃ members, document = .object members ∧
      json = .object (fillIn (fillIn members builder.config.identityField freshId)
        builder.config.contentTypeField builder.config.defaultContentType) := by
  cases document with
  | object members => exact ⟨members, rfl, (Except.ok.inj h).symm⟩
  | null => cases h
  | bool b => cases h
  | int n => cases h
  | double x => cases h
  | text s => cases h
  | array items => cases h

/-! ### What identifies a document -/

/-- Whether a field is searched under a name. -/
def searchedAs (name : String) (field : Field) : Bool := field.indexed && field.name == name

theorem searchedAs_eq_false {name path : String} {field : Field} (h : field.Within path)
    (hpath : path ≠ name) (hdot : '.' ∉ name.toList) : searchedAs name field = false := by
  have hname : field.name ≠ name := by
    intro heq
    rcases h.name with hwhole | hpart
    · exact hpath (hwhole.symm.trans heq)
    · exact hdot (heq ▸ hpart)
  simp [searchedAs, hname]

/-- Top members of other names make no field of a name without a dot. -/
theorem filter_searchedAs_nil {contentType name : String} (hdot : '.' ∉ name.toList) :
    ∀ {members : List (String × Json)} {projections : List Projection},
      (∀ entry ∈ members, entry.1 ≠ "" ∧ entry.1 ≠ name) →
      builder.visitMembers ⟨contentType, ""⟩ members = .ok projections →
        (projections.flatMap Projection.fields).filter (searchedAs name) = []
  | [], _, _, h => by
      obtain rfl := Except.ok.inj h
      rfl
  | (key, value) :: rest, projections, hnames, h => by
      obtain ⟨first, hfirst, h⟩ := bind_eq_ok.mp h
      obtain ⟨others, hothers, h⟩ := bind_eq_ok.mp h
      obtain rfl := Except.ok.inj h
      obtain ⟨hsome, hother⟩ := hnames (key, value) List.mem_cons_self
      have hrest := filter_searchedAs_nil hdot
        (fun entry hentry => hnames entry (List.mem_cons_of_mem _ hentry)) hothers
      have hown : (first.flatMap Projection.fields).filter (searchedAs name) = [] := by
        refine List.filter_eq_nil_iff.mpr fun field hfield => ?_
        rw [searchedAs_eq_false (visit_within hsome hfirst field hfield) hother hdot]
        exact Bool.false_ne_true
      rw [List.flatMap_append, List.filter_append, hown, hrest, List.append_nil]

/-- Only the top member of a name without a dot makes fields of that name. -/
theorem filter_searchedAs {contentType name : String} (hdot : '.' ∉ name.toList) :
    ∀ {members : List (String × Json)} {projections : List Projection} {value : Json},
      Table.Sorted members → (∀ entry ∈ members, entry.1 ≠ "") →
      Table.find? members name = some value →
      builder.visitMembers ⟨contentType, ""⟩ members = .ok projections →
        ∃ own, builder.visit ⟨contentType, name⟩ value = .ok own ∧
          (projections.flatMap Projection.fields).filter (searchedAs name)
            = (own.flatMap Projection.fields).filter (searchedAs name)
  | [], _, _, _, _, hfind, _ => by simp at hfind
  | (key, first) :: rest, projections, value, hsorted, hnames, hfind, h => by
      obtain ⟨own, hown, h⟩ := bind_eq_ok.mp h
      obtain ⟨others, hothers, h⟩ := bind_eq_ok.mp h
      obtain rfl := Except.ok.inj h
      obtain ⟨hfirst, hrest⟩ := Table.sorted_cons.mp hsorted
      rw [List.flatMap_append, List.filter_append]
      by_cases hkey : key = name
      · -- The keys behind this one are greater.
        subst hkey
        have hvalue : first = value := by
          simpa [Table.find?] using hfind
        subst hvalue
        refine ⟨own, hown, ?_⟩
        rw [filter_searchedAs_nil hdot (fun entry hentry =>
          ⟨hnames entry (List.mem_cons_of_mem _ hentry), ?_⟩) hothers, List.append_nil]
        intro heq
        have hlt := hfirst entry hentry
        have hself : compare key key = .eq := Std.ReflCmp.compare_self
        rw [heq, hself] at hlt
        exact absurd hlt (by decide)
      · have hbehind : Table.find? rest name = some value := by
          cases hc : compare name key with
          | lt => simp [Table.find?, hc] at hfind
          | eq => exact absurd (Std.LawfulEqOrd.eq_of_compare hc).symm hkey
          | gt => simpa [Table.find?, hc] using hfind
        obtain ⟨place, hplace, heq⟩ := filter_searchedAs hdot hrest
          (fun entry hentry => hnames entry (List.mem_cons_of_mem _ hentry)) hbehind hothers
        refine ⟨place, hplace, ?_⟩
        have hnone : (own.flatMap Projection.fields).filter (searchedAs name) = [] := by
          refine List.filter_eq_nil_iff.mpr fun field hfield => ?_
          have hsome := hnames (key, first) List.mem_cons_self
          rw [searchedAs_eq_false (visit_within hsome hown field hfield) hkey hdot]
          exact Bool.false_ne_true
        rw [hnone, heq, List.nil_append]

/-- No value of a named member keeps bytes. -/
theorem kept_nil {contentType : String} :
    ∀ {members : List (String × Json)} {projections : List Projection},
      (∀ entry ∈ members, entry.1 ≠ "") →
      builder.visitMembers ⟨contentType, ""⟩ members = .ok projections →
        (projections.flatMap Projection.fields).flatMap keptOf = []
  | [], _, _, h => by
      obtain rfl := Except.ok.inj h
      rfl
  | (key, value) :: rest, projections, hnames, h => by
      obtain ⟨first, hfirst, h⟩ := bind_eq_ok.mp h
      obtain ⟨others, hothers, h⟩ := bind_eq_ok.mp h
      obtain rfl := Except.ok.inj h
      have hrest := kept_nil
        (fun entry hentry => hnames entry (List.mem_cons_of_mem _ hentry)) hothers
      have hown : (first.flatMap Projection.fields).flatMap keptOf = [] := by
        refine List.flatMap_eq_nil_iff.mpr fun field hfield => ?_
        exact (visit_within (hnames (key, value) List.mem_cons_self) hfirst field hfield).unkept
      rw [List.flatMap_append, List.flatMap_append, hown, hrest, List.append_nil]

end DocumentBuilder

/-- A JSON object whose members have names, as a table. -/
def Json.HasNames : Json → Prop
  | .object members => Table.Sorted members ∧ ∀ entry ∈ members, entry.1 ≠ ""
  | _ => False

/-- A document that is found by one exact term as its identity, and keeps one source. -/
structure Document.Carries (config : Config) (document : Document) (id : String)
    (source : Bytes) : Prop where
  identity : document.filter (DocumentBuilder.searchedAs config.identityField)
    = [.term config.identityField id]
  kept : document.flatMap keptOf = [(config.sourceField, source)]

namespace DocumentBuilder

/-- The builder with the settings that hold unless others are given. -/
def standard : DocumentBuilder := ⟨.default, .ofConfig .default, Analyzers.builtIn⟩

/-- The member that gives an identity becomes one exact term. -/
theorem visit_identity {members : List (String × Json)} {contentType id : String}
    (h : standard.identity? (.object members) = some id) :
    ∃ value type, Table.find? members "$id" = some value ∧
      standard.visit ⟨contentType, "$id"⟩ value
        = .ok [⟨"$id", type, "identity", [.term "$id" id]⟩] := by
  have hmember : (Json.object members).member? "$id" = Table.find? members "$id" := rfl
  simp only [identity?, Json.identity?, standard, Config.default, hmember] at h
  cases hfind : Table.find? members "$id" with
  | none => simp [hfind] at h
  | some value =>
      rw [hfind] at h
      cases value with
      | text s => exact ⟨_, _, rfl, by rw [← Option.some.inj h]; rfl⟩
      | int n => exact ⟨_, _, rfl, by rw [← Option.some.inj h]; rfl⟩
      | double x => exact ⟨_, _, rfl, by rw [← Option.some.inj h]; rfl⟩
      | null => simp at h
      | bool b => simp at h
      | array items => simp at h
      | object members => simp at h

/-- **A document is identified by the term of its identity alone, and keeps its source alone.** -/
theorem carries_build {json : Json} {built : BuiltDocument} (hnames : json.HasNames)
    (h : standard.build json = .ok built) :
    built.document.Carries .default built.id (pack (Bytes.ofText json.write) .lz4) := by
  obtain ⟨members, id, projections, rfl, hid, hvisit, -, rfl⟩ := build_eq_ok h
  obtain ⟨hsorted, hsome⟩ := hnames
  obtain ⟨value, type, hfind, hown⟩ := visit_identity hid
  obtain ⟨own, hvalue, hfields⟩ :=
    filter_searchedAs (by decide : '.' ∉ "$id".toList) hsorted hsome hfind hvisit
  rw [hown] at hvalue
  obtain rfl := Except.ok.inj hvalue
  refine ⟨?_, ?_⟩
  · show (projections.flatMap Projection.fields ++ [standard.sourceOf _]).filter
      (searchedAs "$id") = _
    rw [List.filter_append, hfields]
    rfl
  · show (projections.flatMap Projection.fields ++ [standard.sourceOf _]).flatMap keptOf = _
    rw [List.flatMap_append, kept_nil hsome hvisit]
    rfl

end DocumentBuilder

end DocIndex
