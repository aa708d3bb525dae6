/-
What is known of documents does not depend on the order in which they were written.

What a pipeline knows is joined from what the documents show that were tried, chunk by chunk
(`WritePipeline.Delivered.known`), and what a document shows is known from the document
(`DocumentBuilder.shown_of_build`).  Schemas and observations are joins, so only which documents
were tried counts: not their order, nor how they were cut into chunks, nor how often one of them
came.

A document that states no identity is given one that depends on when it comes.  Its field and its
schema are the same for all identifiers, and so the documents may be compared as they were given.
Only where the content type is read from the identity they must be compared as they were prepared.
-/
import DocIndex.Proofs.Document.Showing
import DocIndex.Proofs.Writing.Identities
import DocIndex.Proofs.Writing.Leftovers
import DocIndex.Proofs.Writing.Noting

namespace DocIndex

/-! ### What is tried of a chunk -/

/-- How many edits are tried: all up to the first that fails, and that one. -/
def Edit.triedCount (analyzers : Analyzers) : List Edit → Nat
  | [] => 0
  | edit :: rest =>
    match edit.error? analyzers with
    | some _ => 1
    | none => triedCount analyzers rest + 1

theorem Edit.documentsTried_eq (analyzers : Analyzers) (edits : List Edit) :
    documentsTried analyzers edits =
      (edits.take (triedCount analyzers edits)).flatMap documents := by
  induction edits with
  | nil => rfl
  | cons edit rest ih =>
      cases herror : edit.error? analyzers with
      | some e => simp [documentsTried, triedCount, herror]
      | none => simp [documentsTried, triedCount, herror, ih]

namespace DocumentBuilder

variable {builder : DocumentBuilder}

/-- The first requests of a chunk are converted to the first edits. -/
theorem convert_take : ∀ {requests : List WriteRequest} {next : IdentifierSupply}
    {edits : List Edit}, builder.convert next requests = .ok edits → ∀ count,
      builder.convert next (requests.take count) = .ok (edits.take count)
  | _, _, _, _, 0 => rfl
  | [], _, _, h, _ + 1 => by
      obtain rfl := Except.ok.inj h
      rfl
  | request :: rest, next, _, h, count + 1 => by
      obtain ⟨edit, hedit, h⟩ := bind_eq_ok.mp h
      obtain ⟨others, hothers, h⟩ := bind_eq_ok.mp h
      obtain rfl := Except.ok.inj h
      rw [List.take_succ_cons, List.take_succ_cons, convert, hedit]
      show (do return edit :: (← builder.convert (next + 1) (rest.take count))) = _
      rw [convert_take hothers count]
      rfl

/-- A request is converted by building the document that it was prepared to. -/
theorem shown_of_convertOne {freshId : String} {request : WriteRequest} {edit : Edit}
    (h : builder.convertOne freshId request = .ok edit) :
    edit.documents.map BuiltDocument.shown
      = (builder.preparedOf freshId request).map builder.shows := by
  cases request with
  | create document =>
      obtain ⟨json, hprepare, h⟩ := bind_eq_ok.mp h
      obtain ⟨built, hbuild, h⟩ := bind_eq_ok.mp h
      obtain rfl := Except.ok.inj h
      simp [Edit.documents, preparedOf, WriteRequest.document?, hprepare, Except.toOption,
        shown_of_build hbuild]
  | update document =>
      rw [convertOne] at h
      split at h
      · obtain ⟨json, hprepare, h⟩ := bind_eq_ok.mp h
        obtain ⟨built, hbuild, h⟩ := bind_eq_ok.mp h
        obtain rfl := Except.ok.inj h
        simp [Edit.documents, preparedOf, WriteRequest.document?, hprepare, Except.toOption,
          shown_of_build hbuild]
      · cases h
  | delete id =>
      obtain rfl := Except.ok.inj h
      rfl

/-- **The documents of a chunk show what they do as they were prepared.** -/
theorem shown_of_convert : ∀ {requests : List WriteRequest} {next : IdentifierSupply}
    {edits : List Edit}, builder.convert next requests = .ok edits →
      (edits.flatMap Edit.documents).map BuiltDocument.shown
        = (builder.prepared next requests).map builder.shows
  | [], _, _, h => by
      obtain rfl := Except.ok.inj h
      rfl
  | request :: rest, next, _, h => by
      obtain ⟨edit, hedit, h⟩ := bind_eq_ok.mp h
      obtain ⟨others, hothers, h⟩ := bind_eq_ok.mp h
      obtain rfl := Except.ok.inj h
      rw [prepared, List.flatMap_cons, List.map_append, List.map_append,
        shown_of_convertOne hedit, shown_of_convert hothers]

/-- What a document shows with some identifier, unless it cannot be prepared. -/
def shownBy (builder : DocumentBuilder) (document : Json) : Option Shown :=
  (builder.prepare document (Identifier.ofNat 0)).toOption.map builder.shows

/-- Prepared with another identifier, it shows the same. -/
theorem shows_preparedOf {request : WriteRequest}
    (h : ∀ document ∈ request.document?, builder.Anchored document) (n : Nat) :
    (builder.preparedOf (Identifier.ofNat n) request).map builder.shows
      = request.document?.toList.filterMap builder.shownBy := by
  cases hdocument : request.document? with
  | none => simp [preparedOf, hdocument]
  | some document =>
      have htype : (Json.text (Identifier.ofNat n)).type
          = (Json.text (Identifier.ofNat 0)).type := by
        rw [Identifier.type_ofNat, Identifier.type_ofNat]
      cases document with
      | object members =>
          have hsame := shows_prepare (h _ hdocument) htype rfl rfl
          simpa [preparedOf, shownBy, hdocument, prepare, Except.toOption] using hsame
      | _ => simp [preparedOf, shownBy, hdocument, prepare, Except.toOption]

theorem shows_prepared : ∀ {requests : List WriteRequest} {next : IdentifierSupply},
    (∀ document ∈ requests.filterMap WriteRequest.document?, builder.Anchored document) →
      (builder.prepared next requests).map builder.shows
        = (requests.filterMap WriteRequest.document?).filterMap builder.shownBy
  | [], _, _ => rfl
  | request :: rest, next, h => by
      rw [prepared, List.map_append]
      cases hdocument : request.document? with
      | none =>
          rw [List.filterMap_cons_none hdocument] at h ⊢
          rw [shows_preparedOf (by simp [hdocument]), shows_prepared h, hdocument]
          rfl
      | some document =>
          rw [List.filterMap_cons_some hdocument] at h ⊢
          obtain ⟨hfirst, hrest⟩ := List.forall_mem_cons.mp h
          rw [shows_preparedOf (by simpa [hdocument] using hfirst), shows_prepared hrest, hdocument,
            Option.toList_some, ← List.filterMap_append, List.singleton_append]

/-- What a document of tables shows is in order. -/
theorem inOrder_shows {json : Json} (h : json.Tabular) :
    (builder.shows json).2.1.InOrder ∧ (builder.shows json).2.2.Tidy :=
  ⟨FieldInfos.InOrder.merge .nil _, JsonSchema.tidy_infer h⟩

end DocumentBuilder

/-! ### What is known -/

namespace Knowledge

/-- Catalogs in order, of collections and schemas that are. -/
def InOrder (known : Knowledge) : Prop :=
  Table.Of FieldInfos.InOrder known.1 ∧ Table.Of JsonSchema.Tidy known.2

/-- What is known with what a document shows. -/
def learn (known : Knowledge) (shown : Shown) : Knowledge :=
  (known.1.merge shown.1 shown.2.1, known.2.merge shown.1 shown.2.2)

/-- **What documents show may be learned in any order**, and again. -/
theorem unordered_learn : Unordered InOrder
    (fun shown : Shown => shown.2.1.InOrder ∧ shown.2.2.Tidy) learn :=
  (FieldCatalog.unordered_merge.prod SchemaCatalog.unordered_merge).comap
    fun shown : Shown => ((shown.1, shown.2.1), (shown.1, shown.2.2))

theorem foldl_note (known : Knowledge) (documents : List BuiltDocument) :
    documents.foldl note known = (documents.map BuiltDocument.shown).foldl learn known := by
  rw [List.foldl_map]
  rfl

end Knowledge

/-! ### Chunks that arrive -/

/-- A task, and the first identifier that its documents may take. -/
structure Assignment where
  task : WriteTask
  next : IdentifierSupply

namespace Assignment

variable (settings : WriteSettings) (a : Assignment)

/-- What arrives of a task. -/
def delivery : Delivery := a.task.result settings.builder a.next

/-- The requests that are tried: those of a chunk that is converted, up to the first whose
document cannot be analysed. -/
def tried : List WriteRequest :=
  match a.task with
  | .convert requests _ =>
    match settings.builder.convert a.next requests with
    | .ok edits => requests.take (Edit.triedCount settings.analyzers edits)
    | .error _ => []
  | .commit _ _ => []

/-- The documents that are tried, as they were given. -/
def given : List Json := (a.tried settings).filterMap WriteRequest.document?

/-- The documents that are tried, with an identity and a content type. -/
def prepared : List Json := settings.builder.prepared a.next (a.tried settings)

theorem shown_tried : ((a.delivery settings).documentsTried settings.analyzers).map
    BuiltDocument.shown = (a.prepared settings).map settings.builder.shows := by
  obtain ⟨task, next⟩ := a
  cases task with
  | convert requests turn =>
      simp only [delivery, prepared, tried, WriteTask.result]
      cases hconvert : settings.builder.convert next requests with
      | ok edits =>
          rw [Delivery.documentsTried, Edit.documentsTried_eq]
          exact DocumentBuilder.shown_of_convert (DocumentBuilder.convert_take hconvert _)
      | error e => rfl
  | commit turn ticket => rfl

variable {settings} {a}

/-- What documents show is known from them as they were given. -/
theorem shows_given : ∀ {all : List Assignment},
    (∀ document ∈ all.flatMap (given settings), settings.builder.Anchored document) →
      (all.flatMap (prepared settings)).map settings.builder.shows
        = (all.flatMap (given settings)).filterMap settings.builder.shownBy
  | [], _ => rfl
  | first :: rest, h => by
      rw [List.flatMap_cons] at h ⊢
      obtain ⟨hfirst, hrest⟩ := List.forall_mem_append.mp h
      have hown : (first.prepared settings).map settings.builder.shows
          = (first.given settings).filterMap settings.builder.shownBy :=
        DocumentBuilder.shows_prepared hfirst
      rw [List.map_append, List.flatMap_cons, List.filterMap_append, hown, shows_given hrest]

theorem tabular_prepared (h : ∀ document ∈ a.given settings, document.Tabular) :
    ∀ json ∈ a.prepared settings, json.Tabular := by
  intro json hjson
  obtain ⟨request, hrequest, document, freshId, hdocument, hprepare⟩ :=
    DocumentBuilder.exists_of_mem_prepared hjson
  exact DocumentBuilder.tabular_prepare
    (h document (List.mem_filterMap.mpr ⟨request, hrequest, hdocument⟩)) hprepare

end Assignment

/-- The same documents are tried, be it as they were prepared or as they were given. -/
def SameTried (settings : WriteSettings) (first second : List Assignment) : Prop :=
  (∀ json, json ∈ first.flatMap (Assignment.prepared settings) ↔
      json ∈ second.flatMap (Assignment.prepared settings)) ∨
    (∀ document, document ∈ first.flatMap (Assignment.given settings) ↔
      document ∈ second.flatMap (Assignment.given settings)) ∧
    ∀ document ∈ first.flatMap (Assignment.given settings), settings.builder.Anchored document

namespace WritePipeline

variable {σ : Type} [Storage σ] {settings : WriteSettings} {start p q : WritePipeline σ}
  {first second : List Assignment}

/-- What is known is learned from the documents as they were prepared. -/
theorem Delivered.known_eq
    (h : Delivered settings start (first.map (Assignment.delivery settings)) p) :
    p.store.known = ((first.flatMap (Assignment.prepared settings)).map
      settings.builder.shows).foldl Knowledge.learn start.store.known := by
  rw [h.known, Knowledge.foldl_note, List.flatMap_map, List.map_flatMap, List.map_flatMap]
  simp only [Assignment.shown_tried]

/-- **Where the same documents were tried, the same is known.** -/
theorem known_eq_of_sameTried (hstart : start.store.known.InOrder)
    (hp : Delivered settings start (first.map (Assignment.delivery settings)) p)
    (hq : Delivered settings start (second.map (Assignment.delivery settings)) q)
    (hsame : SameTried settings first second)
    (htabular : ∀ document ∈ first.flatMap (Assignment.given settings), document.Tabular) :
    p.store.known = q.store.known := by
  have hshown : ∀ shown,
      shown ∈ (first.flatMap (Assignment.prepared settings)).map settings.builder.shows ↔
        shown ∈ (second.flatMap (Assignment.prepared settings)).map settings.builder.shows := by
    intro shown
    rcases hsame with hprepared | ⟨hgiven, hanchored⟩
    · simp only [List.mem_map, hprepared]
    · have hanchored' : ∀ document ∈ second.flatMap (Assignment.given settings),
          settings.builder.Anchored document := fun document hdocument =>
        hanchored document ((hgiven document).mpr hdocument)
      rw [Assignment.shows_given hanchored, Assignment.shows_given hanchored']
      simp only [List.mem_filterMap, hgiven]
  have hinOrder : ∀ shown ∈
      (first.flatMap (Assignment.prepared settings)).map settings.builder.shows,
        shown.2.1.InOrder ∧ shown.2.2.Tidy := by
    intro shown hmem
    obtain ⟨json, hjson, rfl⟩ := List.mem_map.mp hmem
    obtain ⟨a, ha, hown⟩ := List.mem_flatMap.mp hjson
    exact DocumentBuilder.inOrder_shows (Assignment.tabular_prepared (fun document hdocument =>
      htabular document (List.mem_flatMap.mpr ⟨a, ha, hdocument⟩)) json hown)
  rw [hp.known_eq, hq.known_eq]
  exact Knowledge.unordered_learn.foldl_eq hshown hinOrder hstart

/--
**Schemas and observations are joined, and so the order of documents is of no account.**

For schemas and collections in order, as they always are, merging is commutative, associative and
idempotent.  A schema is reported to have grown exactly if it is another one than before, and as
many observations are reported as there are more.  The schema of an array is the same for the same
items, and what an index knows is the same for the same documents: in whatever order and chunks
they came, with whatever commits in between, and also if some of them came again.
-/
theorem known_in_any_order :
    IsJoin JsonSchema.Tidy JsonSchema.merge ∧
    (∀ schema other : JsonSchema, schema.Tidy → other.Tidy →
      (schema.grows other = true ↔ schema.merge other ≠ schema)) ∧
    IsJoin FieldInfos.InOrder FieldInfos.merge ∧
    (∀ infos others : FieldInfos, infos.InOrder → others.InOrder →
      (infos.merge others).length = infos.length + infos.countNew others) ∧
    (∀ items others : List Json, (∀ item, item ∈ items ↔ item ∈ others) →
      (∀ item ∈ items, item.Tabular) →
      JsonSchema.infer (.array items) = JsonSchema.infer (.array others)) ∧
    ∀ {σ : Type} [Storage σ] (settings : WriteSettings) (start p q : WritePipeline σ)
      (first second : List Assignment), start.store.known.InOrder →
      Delivered settings start (first.map (Assignment.delivery settings)) p →
      Delivered settings start (second.map (Assignment.delivery settings)) q →
      SameTried settings first second →
      (∀ document ∈ first.flatMap (Assignment.given settings), document.Tabular) →
      p.store.known = q.store.known :=
  ⟨JsonSchema.isJoin_merge, fun _ _ hschema hother => JsonSchema.grows_eq_true_iff hother hschema,
    FieldInfos.isJoin_merge, fun _ _ hinfos hothers => FieldInfos.length_merge hinfos hothers,
    fun _ _ => JsonSchema.infer_array_eq,
    fun _ _ _ _ _ _ hstart hp hq => known_eq_of_sameTried hstart hp hq⟩

/-- A document with an identity, and one that is given an identity when it comes. -/
def sized : Json := .object [("$id", .text "A"), ("size", .int 1)]

def worded : Json := .object [("size", .text "large"), ("tags", .array [.text "a", .int 1])]

/-- Both documents in one chunk. -/
def together : List Assignment := [⟨.convert [.create sized, .create worded] ⟨[0]⟩, 0⟩]

/-- The second document, a commit, and the first document twice. -/
def apart : List Assignment := [⟨.convert [.create worded] ⟨[0]⟩, 0⟩, ⟨.commit ⟨[1]⟩ 0, 1⟩,
  ⟨.convert [.create sized, .create sized] ⟨[2]⟩, 1⟩]

/-- A new index in memory when what was assigned has arrived. -/
def arrived (assignments : List Assignment) : WritePipeline Storage.Directory :=
  (assignments.map (Assignment.delivery Traffic.plainSettings)).foldl
    (deliver Traffic.plainSettings) Traffic.newIndex

/-- Whether they come together or apart, sizes are known to be texts and integers. -/
theorem known_in_any_order_sizes :
    JsonSchema.infer (.array [.text "a", .int 1]) = JsonSchema.infer (.array [.int 1, .text "a"]) ∧
      (JsonSchema.infer sized).merge (JsonSchema.infer worded) ≠ JsonSchema.infer sized ∧
      (arrived apart).store.known = (arrived together).store.known ∧
      ((arrived apart).store.schemas.find? "document").bind (fun schema =>
        (Table.find? schema.properties "size").map JsonSchema.types) = some [.text, .integer] := by
  obtain ⟨-, hgrows, -, -, hitems, hknown⟩ := known_in_any_order
  have hsized : sized.Tabular := ⟨by decide, trivial, trivial, trivial⟩
  have hworded : worded.Tabular := ⟨by decide, trivial, ⟨trivial, trivial, trivial⟩, trivial⟩
  have hfirst : together.flatMap (Assignment.given Traffic.plainSettings) = [sized, worded] := by
    rfl
  have hsecond : apart.flatMap (Assignment.given Traffic.plainSettings)
      = [worded, sized, sized] := by
    rfl
  have hsame : SameTried Traffic.plainSettings together apart := by
    refine .inr ⟨fun document => ?_, fun document _ _ => by decide⟩
    rw [hfirst, hsecond]
    simp only [List.mem_cons, List.not_mem_nil, or_false]
    tauto
  have hsameKnown := hknown Traffic.plainSettings Traffic.newIndex (arrived together)
    (arrived apart) together apart ⟨⟨Table.sorted_nil, List.forall_mem_nil _⟩,
      ⟨Table.sorted_nil, List.forall_mem_nil _⟩⟩ (Delivered.foldl _ _ _) (Delivered.foldl _ _ _)
    hsame (by
      rw [hfirst]
      exact List.forall_mem_cons.mpr ⟨hsized, List.forall_mem_singleton.mpr hworded⟩)
  refine ⟨hitems _ _ (fun item => by simp [or_comm]) (by simp [Json.Tabular]), ?_,
    hsameKnown.symm, ?_⟩
  · exact (hgrows _ _ (JsonSchema.tidy_infer hsized) (JsonSchema.tidy_infer hworded)).mp
      (by decide +kernel)
  · have hschemas : (arrived apart).store.schemas = (arrived together).store.schemas :=
      congrArg Prod.snd hsameKnown.symm
    rw [hschemas]
    decide +kernel

end WritePipeline

end DocIndex
