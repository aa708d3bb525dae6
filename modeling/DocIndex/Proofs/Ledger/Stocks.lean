/-
What was put into an index, document by document and change by change.

A stock lists the documents, each as it was prepared and at the place of its number, and the
changes that make the index when they are replayed.  What the changes keep under a number is the
source of the document there and nothing else of it, whatever members it has.  Deletions take
nothing out of a stock, and neither does writing the changes down and reading them back.

The bytes of a document are kept under the number that it goes in by, and no later change touches
them: a deletion only takes numbers out of the live ones, and the next document has a number of its
own.  So what is kept is known from the changes alone, in their order, whatever fields the documents
have besides, and it is the same once the changes were written to a segment.
-/
import DocIndex.Proofs.Document.Parts
import DocIndex.Proofs.Index.Hits
import DocIndex.Proofs.Index.Listing
import DocIndex.Proofs.Writing.Holdings

namespace DocIndex

open InvertedIndex (keptOf)

namespace Change

/-- What an added document keeps. -/
def kept? : Change → Option (List (String × Bytes))
  | add document => some (document.flatMap keptOf)
  | deleteTerm _ _ => none

/-- A change whose document, if it has one, can be analysed. -/
def Analysable (analyzers : Analyzers) : Change → Prop
  | add document => ∃ fields, InvertedIndex.analyze analyzers document = .ok fields
  | deleteTerm _ _ => True

theorem kept?_narrowed (change : Change) : change.narrowed.kept? = change.kept? := by
  cases change with
  | deleteTerm field term => rfl
  | add document =>
      refine congrArg some ?_
      rw [List.flatMap_map]
      exact congrArg (List.flatMap · document) (funext InvertedIndex.keptOf_narrowed)

theorem Analysable.narrowed {analyzers : Analyzers} {change : Change}
    (h : change.Analysable analyzers) : change.narrowed.Analysable analyzers := by
  cases change with
  | deleteTerm field term => trivial
  | add document => exact InvertedIndex.analyze_narrowed h

/-- What the documents of changes keep, in the order in which they are added. -/
def keptBy (changes : List Change) : List (List (String × Bytes)) := changes.filterMap kept?

theorem keptBy_append (first second : List Change) :
    keptBy (first ++ second) = keptBy first ++ keptBy second := List.filterMap_append

theorem keptBy_narrowed (changes : List Change) :
    keptBy (changes.map narrowed) = keptBy changes := by
  rw [keptBy, List.filterMap_map]
  exact congrArg (List.filterMap · changes) (funext kept?_narrowed)

end Change

namespace InvertedIndex

/-- Changes that were replayed could be analysed. -/
theorem analysable_of_replay {analyzers : Analyzers} : ∀ {changes : List Change}
    {index next : InvertedIndex}, index.replay analyzers changes = .ok next →
      ∀ change ∈ changes, change.Analysable analyzers
  | [], _, _, _ => List.forall_mem_nil _
  | change :: rest, index, next, h => by
      rw [replay] at h
      split at h
      · rename_i middle happly
        refine List.forall_mem_cons.mpr ⟨?_, analysable_of_replay h⟩
        cases change with
        | deleteTerm field term => trivial
        | add document =>
            rw [apply, add] at happly
            show ∃ fields, analyze analyzers document = .ok fields
            cases hanalyzed : analyze analyzers document with
            | ok fields => exact ⟨fields, rfl⟩
            | error e =>
                rw [hanalyzed] at happly
                cases happly
      · cases h

/-- An index that keeps the given bytes of its documents, in the order of their numbers. -/
structure Keeps (index : InvertedIndex) (rows : List (List (String × Bytes))) : Prop where
  nextDoc : index.nextDoc = rows.length
  below : ∀ doc ∈ index.live, doc < index.nextDoc
  stored : ∀ doc, index.storedOf doc = (rows[doc]?).getD []

namespace Keeps

variable {index : InvertedIndex} {rows : List (List (String × Bytes))} {analyzers : Analyzers}

theorem empty : InvertedIndex.empty.Keeps [] := ⟨rfl, by simp [InvertedIndex.empty], fun _ => rfl⟩

/-- What a document keeps is added behind the others. -/
theorem insert (h : index.Keeps rows) {document : Document} {fields : List AnalyzedField}
    (hfields : analyze analyzers document = .ok fields) :
    (index.insert fields).1.Keeps (rows ++ [document.flatMap keptOf]) := by
  have hkept : (fields.flatMap fun f => keptOf f.field) = document.flatMap keptOf := by
    rw [← List.flatMap_map, map_field_of_analyze hfields]
  refine ⟨?_, fun doc hdoc => ?_, fun doc => ?_⟩
  · rw [nextDoc_insert, h.nextDoc, List.length_append]
    rfl
  · rw [live_insert h.below] at hdoc
    rw [nextDoc_insert]
    rcases List.mem_append.mp hdoc with hold | hnew
    · exact Nat.lt_succ_of_lt (h.below doc hold)
    · rw [List.mem_singleton.mp hnew]
      exact Nat.lt_succ_self _
  · rw [storedOf_insert, h.stored, hkept, h.nextDoc]
    rcases Nat.lt_trichotomy doc rows.length with hlt | heq | hgt
    · rw [List.getElem?_append_left hlt, if_neg (Nat.ne_of_lt hlt), List.append_nil]
    · rw [heq, if_pos rfl, List.getElem?_concat_length, List.getElem?_eq_none (Nat.le_refl _)]
      rfl
    · have hbeyond : (rows ++ [document.flatMap keptOf]).length ≤ doc := by
        rw [List.length_append]
        exact hgt
      rw [if_neg (Nat.ne_of_gt hgt), List.append_nil, List.getElem?_eq_none hgt.le,
        List.getElem?_eq_none hbeyond]

/-- A deletion leaves what is kept. -/
theorem deleteTerm (h : index.Keeps rows) (field term : String) :
    (index.deleteTerm field term).1.Keeps rows := by
  rw [deleteTerm_eq]
  exact ⟨h.nextDoc, fun doc hdoc => h.below doc (List.mem_filter.mp hdoc).1, h.stored⟩

/-- **Changes that can be analysed are replayed**, and the index keeps what they add. -/
theorem replay {changes : List Change} : (∀ change ∈ changes, change.Analysable analyzers) →
    ∀ {index : InvertedIndex} {rows : List (List (String × Bytes))}, index.Keeps rows →
      ∃ next, index.replay analyzers changes = .ok next ∧
        next.Keeps (rows ++ Change.keptBy changes) := by
  induction changes with
  | nil =>
      intro _ index rows h
      exact ⟨index, rfl, by simpa [Change.keptBy] using h⟩
  | cons change rest ih =>
      intro hall index rows h
      obtain ⟨hchange, hrest⟩ := List.forall_mem_cons.mp hall
      cases change with
      | add document =>
          obtain ⟨fields, hfields⟩ := hchange
          obtain ⟨next, hreplay, hnext⟩ := ih hrest (h.insert hfields)
          refine ⟨next, ?_, ?_⟩
          · rw [InvertedIndex.replay, apply, add, hfields]
            exact hreplay
          · rwa [List.append_assoc] at hnext
      | deleteTerm field term => exact ih hrest (h.deleteTerm field term)

/-- A live document keeps what was kept under its number. -/
theorem exists_row (h : index.Keeps rows) {doc : DocId} (hdoc : doc ∈ index.live) :
    ∃ row, rows[doc]? = some row ∧ index.storedOf doc = row := by
  have hlt : doc < rows.length := h.nextDoc ▸ h.below doc hdoc
  refine ⟨rows[doc], List.getElem?_eq_getElem hlt, ?_⟩
  rw [h.stored, List.getElem?_eq_getElem hlt]
  rfl

end Keeps

end InvertedIndex

/-- **A document keeps its source alone**, whatever its members are called. -/
theorem DocumentBuilder.kept_build {builder : DocumentBuilder} {json : Json} {built : BuiltDocument}
    (h : builder.build json = .ok built) : built.document.flatMap keptOf =
      [(builder.config.sourceField,
        pack (Bytes.ofText json.write) builder.config.sourceCompression)] := by
  obtain ⟨projections, hbuilt⟩ := builtBy h
  have hunkept : (projections.flatMap Projection.fields).flatMap keptOf = [] := by
    refine List.flatMap_eq_nil_iff.mpr fun field hfield => ?_
    obtain ⟨projection, hprojection, hfield⟩ := List.mem_flatMap.mp hfield
    obtain ⟨part, -, group, hproject, hmem⟩ :=
      (hbuilt.parts.mem_iff projection).mp hprojection
    exact (project_within hproject field (List.mem_flatMap.mpr ⟨projection, hmem, hfield⟩)).unkept
  rw [hbuilt.document, List.flatMap_append, hunkept]
  rfl

/-! ### What is kept of a document -/

/-- JSON whose text fits the frame of a block, and is parsed as it was written. -/
structure Json.Rereads (json : Json) : Prop where
  size : (Bytes.ofText json.write).length < 256 ^ 4
  text : Json.parse? json.write = some json

namespace DocumentBuilder

variable {builder : DocumentBuilder}

/-- What an index keeps of a document that was built of JSON. -/
def row (builder : DocumentBuilder) (json : Json) : List (String × Bytes) :=
  [(builder.config.sourceField,
    pack (Bytes.ofText json.write) builder.config.sourceCompression)]

/-- JSON that can be built, and whose text can be read. -/
structure Sourced (builder : DocumentBuilder) (json : Json) : Prop where
  built : ∃ built, builder.build json = .ok built
  rereads : json.Rereads

/-- **What is kept of a document gives back its JSON, and the identity that it was built with.** -/
theorem read_row {index : InvertedIndex} {doc : DocId} {json : Json}
    (hcodec : ∀ data, builder.config.sourceCompression.Restores data)
    (hkept : index.storedOf doc = builder.row json) (h : builder.Sourced json) :
    ∃ built, builder.build json = .ok built ∧
      Hit.read index builder.config.sourceField builder.config.identityField doc
        = .ok ⟨doc, some built.id, json⟩ := by
  obtain ⟨built, hbuild⟩ := h.built
  obtain ⟨_, id, _, -, hid, -, -, rfl⟩ := build_eq_ok hbuild
  have hstored : index.stored? doc builder.config.sourceField
      = some (pack (Bytes.ofText json.write) builder.config.sourceCompression) := by
    rw [InvertedIndex.Lists.stored?_eq, hkept, row]
    simp
  have hunpack := Hit.unpackJson_pack h.rereads.size (hcodec _) h.rereads.text
  have hidentity : json.identity? builder.config.identityField = some id := hid
  refine ⟨_, hbuild, ?_⟩
  simp only [Hit.read, hstored, hunpack, bind, Except.bind, hidentity]
  rfl

/-- The edit of a request keeps the document that was prepared for it, if there is one. -/
theorem keptBy_convertOne {freshId : String} {request : WriteRequest} {edit : Edit}
    (h : builder.convertOne freshId request = .ok edit) (identityField : String) :
    Change.keptBy (edit.changes identityField)
        = (builder.preparedOf freshId request).map builder.row ∧
      ∀ json ∈ builder.preparedOf freshId request, ∃ built, builder.build json = .ok built := by
  have hprepared : ∀ {document json : Json}, builder.prepare document freshId = .ok json →
      request.document? = some document → builder.preparedOf freshId request = [json] := by
    intro document json hprepare hdocument
    simp [preparedOf, hdocument, hprepare, Except.toOption]
  cases request with
  | create document =>
      obtain ⟨json, hprepare, h⟩ := bind_eq_ok.mp h
      obtain ⟨built, hbuild, h⟩ := bind_eq_ok.mp h
      obtain rfl := Except.ok.inj h
      rw [hprepared hprepare rfl]
      refine ⟨?_, List.forall_mem_singleton.mpr ⟨built, hbuild⟩⟩
      exact congrArg (fun row => [row]) (kept_build hbuild)
  | update document =>
      rw [convertOne] at h
      split at h
      · obtain ⟨json, hprepare, h⟩ := bind_eq_ok.mp h
        obtain ⟨built, hbuild, h⟩ := bind_eq_ok.mp h
        obtain rfl := Except.ok.inj h
        rw [hprepared hprepare rfl]
        refine ⟨?_, List.forall_mem_singleton.mpr ⟨built, hbuild⟩⟩
        exact congrArg (fun row => [row]) (kept_build hbuild)
      · cases h
  | delete id =>
      obtain rfl := Except.ok.inj h
      exact ⟨rfl, List.forall_mem_nil _⟩

/-- The edits of a chunk keep the documents that were prepared for it, in their order. -/
theorem keptBy_convert (identityField : String) : ∀ {requests : List WriteRequest}
    {next : IdentifierSupply} {edits : List Edit}, builder.convert next requests = .ok edits →
      Change.keptBy (edits.flatMap (Edit.changes identityField))
          = (builder.prepared next requests).map builder.row ∧
        ∀ json ∈ builder.prepared next requests, ∃ built, builder.build json = .ok built
  | [], _, _, h => by
      obtain rfl := Except.ok.inj h
      exact ⟨rfl, List.forall_mem_nil _⟩
  | request :: rest, next, edits, h => by
      obtain ⟨edit, hedit, h⟩ := bind_eq_ok.mp h
      obtain ⟨others, hothers, h⟩ := bind_eq_ok.mp h
      obtain rfl := Except.ok.inj h
      obtain ⟨hkept, hbuilt⟩ := keptBy_convertOne hedit identityField
      obtain ⟨hkept', hbuilt'⟩ := keptBy_convert identityField hothers
      refine ⟨?_, List.forall_mem_append.mpr ⟨hbuilt, hbuilt'⟩⟩
      rw [prepared, List.map_append, ← hkept, ← hkept', List.flatMap_cons, Change.keptBy_append]

end DocumentBuilder

/-- The changes of an edit can be analysed if its document can. -/
theorem Edit.Analysable.changes {analyzers : Analyzers} {edit : Edit}
    (h : edit.Analysable analyzers) (identityField : String) :
    ∀ change ∈ edit.changes identityField, change.Analysable analyzers := by
  cases edit with
  | add document => exact List.forall_mem_singleton.mpr h
  | replace document => exact List.forall_mem_cons.mpr ⟨trivial, List.forall_mem_singleton.mpr h⟩
  | delete id => exact List.forall_mem_singleton.mpr trivial

/-! ### Stocks -/

/--
What was put into an index: the documents, at the places of their numbers, and the changes that
made the index.
-/
structure Stock where
  documents : List Json
  changes : List Change

namespace Stock

def empty : Stock := ⟨[], []⟩

/-- The stock as it is read back from segments. -/
def narrowed (stock : Stock) : Stock :=
  { stock with changes := stock.changes.map Change.narrowed }

/-- The stock with the documents of a chunk and what they were converted to. -/
def add (stock : Stock) (builder : DocumentBuilder) (next : IdentifierSupply)
    (requests : List WriteRequest) (edits : List Edit) : Stock :=
  ⟨stock.documents ++ builder.prepared next requests,
    stock.changes ++ edits.flatMap (Edit.changes builder.config.identityField)⟩

/-- A stock whose changes make an index. -/
def Makes (stock : Stock) (analyzers : Analyzers) (index : InvertedIndex) : Prop :=
  InvertedIndex.empty.replay analyzers stock.changes = .ok index

/-- A stock whose changes can be made and keep its documents, each of which can be read. -/
structure Sound (builder : DocumentBuilder) (stock : Stock) : Prop where
  kept : Change.keptBy stock.changes = stock.documents.map builder.row
  sourced : ∀ json ∈ stock.documents, builder.Sourced json
  analysable : ∀ change ∈ stock.changes, change.Analysable builder.analyzers

theorem changes_narrowed_narrowed (stock : Stock) :
    stock.narrowed.narrowed.changes = stock.narrowed.changes := by
  show (stock.changes.map _).map _ = stock.changes.map _
  rw [List.map_map]
  exact congrArg (stock.changes.map ·) (funext Change.narrowed_narrowed)

theorem changes_narrowed_add (stock : Stock) (builder : DocumentBuilder) (next : IdentifierSupply)
    (requests : List WriteRequest) (edits : List Edit) :
    (stock.add builder next requests edits).narrowed.changes = stock.narrowed.changes
      ++ (edits.flatMap (Edit.changes builder.config.identityField)).map Change.narrowed :=
  List.map_append

variable {builder : DocumentBuilder} {stock : Stock}

namespace Sound

theorem empty : Stock.empty.Sound builder :=
  ⟨rfl, List.forall_mem_nil _, List.forall_mem_nil _⟩

theorem narrowed (h : stock.Sound builder) : stock.narrowed.Sound builder where
  kept := (Change.keptBy_narrowed stock.changes).trans h.kept
  sourced := h.sourced
  analysable := by
    intro change hchange
    obtain ⟨original, horiginal, rfl⟩ := List.mem_map.mp hchange
    exact (h.analysable original horiginal).narrowed

/-- What a chunk is converted to can be added. -/
theorem add (h : stock.Sound builder) {requests : List WriteRequest} {next : IdentifierSupply}
    {edits : List Edit} (hedits : builder.convert next requests = .ok edits)
    (hrereads : ∀ json ∈ builder.prepared next requests, json.Rereads) :
    (stock.add builder next requests edits).Sound builder := by
  obtain ⟨hkept, hbuilt⟩ := DocumentBuilder.keptBy_convert builder.config.identityField hedits
  refine ⟨?_, List.forall_mem_append.mpr ⟨h.sourced, fun json hjson => ?_⟩,
    List.forall_mem_append.mpr ⟨h.analysable, fun change hchange => ?_⟩⟩
  · rw [Stock.add, Change.keptBy_append, h.kept, hkept, List.map_append]
  · exact ⟨hbuilt json hjson, hrereads json hjson⟩
  · obtain ⟨edit, hedit, hchange⟩ := List.mem_flatMap.mp hchange
    exact (DocumentBuilder.analysable_of_convert hedits edit hedit).changes _ change hchange

theorem makes (h : stock.Sound builder) : ∃ index, stock.Makes builder.analyzers index ∧
    index.Keeps (stock.documents.map builder.row) := by
  obtain ⟨index, hmakes, hkeeps⟩ := InvertedIndex.Keeps.replay h.analysable .empty
  rw [List.nil_append, h.kept] at hkeeps
  exact ⟨index, hmakes, hkeeps⟩

/-- **Every live document is read back as it stands in the stock.** -/
theorem read_live (h : stock.Sound builder)
    (hcodec : ∀ data, builder.config.sourceCompression.Restores data) {index : InvertedIndex}
    (hmakes : stock.Makes builder.analyzers index) {doc : DocId} (hlive : doc ∈ index.live) :
    ∃ json built, stock.documents[doc]? = some json ∧ builder.build json = .ok built ∧
      Hit.read index builder.config.sourceField builder.config.identityField doc
        = .ok ⟨doc, some built.id, json⟩ := by
  obtain ⟨made, hmade, hkeeps⟩ := h.makes
  obtain rfl := Except.ok.inj (hmade.symm.trans hmakes)
  obtain ⟨row, hrow, hkept⟩ := hkeeps.exists_row hlive
  rw [List.getElem?_map, Option.map_eq_some_iff] at hrow
  obtain ⟨json, hjson, rfl⟩ := hrow
  obtain ⟨built, hbuild, hread⟩ :=
    DocumentBuilder.read_row hcodec hkept (h.sourced json (List.mem_of_getElem? hjson))
  exact ⟨json, built, hjson, hbuild, hread⟩

end Sound

end Stock

end DocIndex
