/-
Requests as changes to a plain list of documents.

A document is listed in the form in which it is prepared, under the identity that it states.
Creating a document puts it at the end, even if its identity is listed already; updating takes
out all documents with the identity first; deleting only takes them out.  The changes that the
requests are converted to do the same to what the index keeps of the documents.
-/
import DocIndex.Proofs.Index.Hits
import DocIndex.Proofs.Json.RoundTrip

namespace DocIndex

open DocumentBuilder (standard fillIn prepare_eq_ok sorted_fillIn)

/-! ### The list -/

/-- A document as it is prepared, with the identity that it states. -/
def Listed.of? (document : Json) : Option Listed :=
  (standard.prepare document "").toOption.bind fun json =>
    (standard.identity? json).map fun id => ⟨id, json⟩

/-- The documents without those of an identity. -/
def Listed.without (id : String) (listed : List Listed) : List Listed :=
  listed.filter fun document => document.id != id

/-- What a request makes of the list. -/
def WriteRequest.revise (listed : List Listed) : WriteRequest → List Listed
  | create document => listed ++ (Listed.of? document).toList
  | update document =>
    match Listed.of? document with
    | some added => Listed.without added.id listed ++ [added]
    | none => listed
  | delete id => Listed.without id listed

/-- What requests make of the list, one after the other. -/
def reviseAll (listed : List Listed) (requests : List WriteRequest) : List Listed :=
  requests.foldl WriteRequest.revise listed

/-! ### Prepared documents -/

/-- A document that can be rebuilt once it was prepared. -/
structure Json.Rebuildable (document : Json) : Prop where
  names : document.HasNames
  size : ∀ listed, Listed.of? document = some listed →
    (Bytes.ofText listed.document.write).length < 256 ^ 4
  /-- The text that the document is kept as is parsed as it was written. -/
  text : ∀ listed, Listed.of? document = some listed →
    Json.parse? listed.document.write = some listed.document

/-- A request that can be converted, and whose document, if it has one, can be rebuilt. -/
def WriteRequest.Listable (request : WriteRequest) : Prop :=
  standard.Convertible request ∧
    match request with
    | create document | update document => document.Rebuildable
    | delete _ => True

theorem mem_fillIn {members : List (String × Json)} {key value : String} {entry : String × Json}
    (h : entry ∈ fillIn members key value) : entry ∈ members ∨ entry = (key, .text value) := by
  unfold fillIn at h
  split at h
  · exact Or.inl h
  · exact (Table.mem_insert h).symm

/-- What holds of texts holds of all members that are filled in if it holds of the others. -/
theorem forall_fillIn {p : Json → Prop} {members : List (String × Json)}
    (h : ∀ member ∈ members, p member.2) (htext : ∀ s, p (.text s)) (key value : String) :
    ∀ member ∈ fillIn members key value, p member.2 := by
  intro member hmember
  rcases mem_fillIn hmember with hold | rfl
  · exact h member hold
  · exact htext value

theorem hasNames_fillIn {members : List (String × Json)} (h : (Json.object members).HasNames)
    {key : String} (hkey : key ≠ "") (value : String) :
    (Json.object (fillIn members key value)).HasNames := by
  refine ⟨sorted_fillIn h.1 key value, fun entry hentry => ?_⟩
  rcases mem_fillIn hentry with hold | rfl
  · exact h.2 entry hold
  · exact hkey

theorem hasNames_prepare {document json : Json} {freshId : String} (h : document.HasNames)
    (hprepare : standard.prepare document freshId = .ok json) : json.HasNames := by
  obtain ⟨members, rfl, rfl⟩ := prepare_eq_ok hprepare
  have hid := hasNames_fillIn h (by decide : Config.default.identityField ≠ "") freshId
  exact hasNames_fillIn hid (by decide : Config.default.contentTypeField ≠ "") _

/-- A document without doubles that is not too deep and not too long can be rebuilt. -/
theorem Json.Rebuildable.of_legible {document : Json} (hnames : document.HasNames)
    (hlegible : document.Legible maxDepth) (htabular : document.Tabular)
    (hsize : ∀ listed, Listed.of? document = some listed →
      (Bytes.ofText listed.document.write).length < 256 ^ 4) : document.Rebuildable := by
  refine ⟨hnames, hsize, fun listed hlisted => ?_⟩
  obtain ⟨json, hprepare, hlisted⟩ := Option.bind_eq_some_iff.mp hlisted
  obtain ⟨id, -, rfl⟩ := Option.map_eq_some_iff.mp hlisted
  have hok : standard.prepare document "" = .ok json := by
    cases hresult : standard.prepare document "" with
    | ok value =>
        rw [hresult] at hprepare
        exact congrArg _ (Option.some.inj hprepare)
    | error e =>
        rw [hresult] at hprepare
        cases hprepare
  obtain ⟨members, rfl, rfl⟩ := prepare_eq_ok hok
  obtain ⟨hdepth, hmembers⟩ := hlegible
  obtain ⟨hsorted, htables⟩ := htabular
  have hall := legibleMembers_iff.mp hmembers
  have htexts : ∀ s, (Json.text s).Legible (maxDepth - 1) := fun _ => trivial
  refine parse?_write ⟨hdepth, legibleMembers_iff.mpr ?_⟩
    ⟨sorted_fillIn (sorted_fillIn hsorted _ _) _ _, tabularMembers_iff.mpr ?_⟩
  · exact forall_fillIn (forall_fillIn hall htexts _ _) htexts _ _
  · exact forall_fillIn (forall_fillIn (tabularMembers_iff.mp htables) (fun _ => trivial) _ _)
      (fun _ => trivial) _ _

/-- What a document is built to carries what is listed of it. -/
theorem carries_of_convert {document json : Json} {built : BuiltDocument}
    (h : document.Rebuildable) (hprepare : standard.prepare document "" = .ok json)
    (hbuild : standard.build json = .ok built) :
    Listed.of? document = some ⟨built.id, json⟩ ∧ Listed.Readable ⟨built.id, json⟩ ∧
      built.document.Carries .default built.id (Listed.entry ⟨built.id, json⟩).2 := by
  have hid : standard.identity? json = some built.id := by
    obtain ⟨_, _, _, _, hid, -, -, rfl⟩ := DocumentBuilder.build_eq_ok hbuild
    exact hid
  have hlisted : Listed.of? document = some ⟨built.id, json⟩ := by
    simp only [Listed.of?, hprepare, Except.toOption, Option.bind_some, hid, Option.map_some]
  exact ⟨hlisted, ⟨hid, h.size _ hlisted, h.text _ hlisted⟩,
    DocumentBuilder.carries_build (hasNames_prepare h.names hprepare) hbuild⟩

/-! ### Converted requests -/

theorem map_entry_without (id : String) (listed : List Listed) :
    (Listed.without id listed).map Listed.entry
      = (listed.map Listed.entry).filter fun entry => entry.1 != id := by
  rw [Listed.without, List.filter_map]
  rfl

/-- The changes of an edit that lists something or takes it out. -/
theorem revises_edit {request : WriteRequest} {edit : Edit} (hlistable : request.Listable)
    (h : standard.convertOne "" request = .ok edit) (listed : List Listed) :
    RevisesAll Analyzers.builtIn .default (edit.changes Config.default.identityField)
        (listed.map Listed.entry) ((request.revise listed).map Listed.entry) ∧
      ∀ document ∈ request.revise listed, document ∈ listed ∨ document.Readable := by
  have hanalysable := DocumentBuilder.analysable_of_convertOne h
  cases request with
  | create document =>
      obtain ⟨json, hprepare, h⟩ := bind_eq_ok.mp h
      obtain ⟨built, hbuild, h⟩ := bind_eq_ok.mp h
      obtain rfl := Except.ok.inj h
      obtain ⟨hlisted, hreadable, hcarries⟩ := carries_of_convert hlistable.2 hprepare hbuild
      rw [WriteRequest.revise, hlisted, Option.toList_some]
      refine ⟨?_, fun other hother => ?_⟩
      · rw [List.map_append]
        exact .cons (.add hanalysable hcarries) .nil
      · rcases List.mem_append.mp hother with hold | hnew
        · exact Or.inl hold
        · exact Or.inr (List.mem_singleton.mp hnew ▸ hreadable)
  | update document =>
      simp only [DocumentBuilder.convertOne] at h
      split at h
      · obtain ⟨json, hprepare, h⟩ := bind_eq_ok.mp h
        obtain ⟨built, hbuild, h⟩ := bind_eq_ok.mp h
        obtain rfl := Except.ok.inj h
        obtain ⟨hlisted, hreadable, hcarries⟩ := carries_of_convert hlistable.2 hprepare hbuild
        simp only [WriteRequest.revise, hlisted]
        refine ⟨?_, fun other hother => ?_⟩
        · rw [List.map_append, map_entry_without]
          exact .cons .delete (.cons (.add hanalysable hcarries) .nil)
        · rcases List.mem_append.mp hother with hold | hnew
          · exact Or.inl (List.mem_filter.mp hold).1
          · exact Or.inr (List.mem_singleton.mp hnew ▸ hreadable)
      · cases h
  | delete id =>
      obtain rfl := Except.ok.inj h
      rw [WriteRequest.revise]
      refine ⟨?_, fun other hother => Or.inl (List.mem_filter.mp hother).1⟩
      rw [map_entry_without]
      exact .cons .delete .nil

/-- **The changes that requests are converted to do to the index what these do to the list.** -/
theorem revises_editsOf {requests : List WriteRequest}
    (h : ∀ request ∈ requests, request.Listable) : ∀ listed : List Listed,
    RevisesAll Analyzers.builtIn .default
        ((standard.editsOf requests).flatMap (Edit.changes Config.default.identityField))
        (listed.map Listed.entry) ((reviseAll listed requests).map Listed.entry) ∧
      ∀ document ∈ reviseAll listed requests, document ∈ listed ∨ document.Readable := by
  induction requests with
  | nil => exact fun listed => ⟨.nil, fun document hdocument => Or.inl hdocument⟩
  | cons request rest ih =>
      intro listed
      have hrequest := h request List.mem_cons_self
      obtain ⟨edit, hedit, hconvert⟩ := hrequest.1.convertOne_eq
      obtain ⟨hfirst, hreadable⟩ := revises_edit hrequest (hconvert "") listed
      obtain ⟨hrest, hall⟩ :=
        ih (fun other hother => h other (List.mem_cons_of_mem _ hother)) (request.revise listed)
      have hedits : standard.editsOf (request :: rest) = edit :: standard.editsOf rest :=
        List.filterMap_cons_some hedit
      refine ⟨?_, fun document hdocument => ?_⟩
      · rw [hedits, List.flatMap_cons]
        exact hfirst.append hrest
      · rcases hall document hdocument with hmiddle | hnew
        · exact hreadable document hmiddle
        · exact Or.inr hnew

end DocIndex
