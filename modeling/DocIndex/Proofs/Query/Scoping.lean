/-
The content types that a conjunction is searched with.

A conjunction whose clauses ask for content types is tagged with the texts that they ask for,
and then the fields in it are searched by what is known of those types alone.  Nothing is
overlooked if a document that is found is of one of the types.  It is if one of the clauses
asks for texts and nothing else: the content type of the document is one of its texts then, and
the tag has them all, whatever the other clauses ask for.

It need not be otherwise.  A clause may list a wildcard beside a text, and a document that is
found by the wildcard is of a type that the tag does not name.
-/
import DocIndex.Proofs.Query.NormalForm
import DocIndex.Proofs.Query.OwnText
import DocIndex.Proofs.Schema.Resolving
import DocIndex.Proofs.Writing.Identities

namespace DocIndex

namespace Query

namespace Tree

/-! ### Every conjunction is tagged -/

/-- No conjunction in a tree is left to be tagged. -/
def Scoped (field : String) (tree : Tree) : Prop :=
  ∀ node, Within node tree → scopeContentTypes field node = none

/-- No conjunction below the root is left to be tagged. -/
def PartsScoped (field : String) (tree : Tree) : Prop := ∀ part ∈ tree.parts, Scoped field part

variable {field : String} {conventions : Conventions} {tree : Tree} {parts : List Tree}
  {tags : Tags}

theorem scopeContentTypes_after (tree : Tree) :
    scopeContentTypes field (after (scopeContentTypes field) tree) = none := by
  cases tree with
  | all parts tags =>
      by_cases hnone : scopeContentTypes field (all parts tags) = none
      · rw [after_of_none hnone, hnone]
      · rw [scopeContentTypes_all] at hnone
        rw [after, scopeContentTypes_all, if_neg fun h => hnone (if_pos h)]
        simp [scopeContentTypes_all, contentTypes?_setContentTypes]
  | _ => rfl

/-- Tagging comes last in a round, and so a round leaves nothing to be tagged. -/
theorem givenByRounds_scoped (conventions : Conventions) : GivenByRounds conventions
    fun node => scopeContentTypes conventions.contentTypeField node = none := by
  intro tree _ h
  refine everywhere_iff.mpr ⟨scopeContentTypes_after _, ?_⟩
  have hrules : ∀ rule ∈ rules conventions, ∀ {tree : Tree},
      PartsScoped conventions.contentTypeField tree →
        PartsScoped conventions.contentTypeField (after rule tree) :=
    fun rule hrule tree => below_after (fun _ _ _ => rfl) hrule
  simp only [rules, List.forall_mem_cons] at hrules
  obtain ⟨hresolve, hcancel, hgroup, hunwrap, hscope, -⟩ := hrules
  exact hscope (hunwrap (hgroup (hcancel (hresolve h))))

/-- **In a simplified tree no conjunction is left to be tagged.** -/
theorem scoped_simplify (tree : Tree) :
    Scoped conventions.contentTypeField (simplify conventions tree) :=
  (givenByRounds_scoped conventions).simplify fun _ _ => rfl

/-! ### The tag of a conjunction -/

theorem mem_askedContentTypes {name : String} :
    name ∈ askedContentTypes field parts ↔ ∃ part ∈ parts, name ∈ contentTypesOf field part := by
  suffices hfold : ∀ names found : List String,
      name ∈ names.foldl (fun found name =>
        if found.contains name then found else found ++ [name]) found ↔
        name ∈ found ∨ name ∈ names by
    rw [askedContentTypes, hfold, List.mem_flatMap]
    simp
  intro names
  induction names with
  | nil => simp
  | cons first rest ih =>
      intro found
      rw [List.foldl_cons, ih, List.mem_cons]
      split
      · rename_i hknown
        have hfirst : first ∈ found := by simpa using hknown
        constructor
        · exact Or.imp_right Or.inr
        · rintro (hfound | rfl | hrest)
          · exact Or.inl hfound
          · exact Or.inl hfirst
          · exact Or.inr hrest
      · simp [or_assoc]

/-- A conjunction that asks for content types is tagged with them. -/
theorem Scoped.contentTypes? (h : Scoped field tree) (hnode : Within (all parts tags) tree)
    (hasks : ∃ part ∈ parts, contentTypesOf field part ≠ []) :
    tags.contentTypes? = some (askedContentTypes field parts) := by
  have hscoped := h _ hnode
  rw [scopeContentTypes_all] at hscoped
  have hnone := ite_eq_left_iff.mp hscoped
  obtain ⟨part, hpart, hne⟩ := hasks
  obtain ⟨name, hname⟩ := List.exists_mem_of_ne_nil _ hne
  have hasked : askedContentTypes field parts ≠ [] :=
    List.ne_nil_of_mem (mem_askedContentTypes.mpr ⟨part, hpart, hname⟩)
  by_contra hother
  simp [hasked, hother] at hnone

end Tree

/-! ### What a conjunction finds -/

/-- Whether a value is a text, in quotes or not. -/
def Value.isText : Value → Bool
  | .word _ | .phrase _ => true
  | _ => false

/-- Whether a tree is a clause that asks for content types by texts alone. -/
def Tree.asksForTexts (field : String) : Tree → Bool
  | .clause c => c.field == some field && (c.op == .equals || c.op == .oneOf) &&
      c.value.items.all Value.isText
  | _ => false

namespace PlanContext

variable {context : PlanContext} {scope : Scope} {parts : List Tree} {tags : Tags} {role : Role}
  {field : String} {index : InvertedIndex} {doc : DocId}

/-- Each part of a conjunction that includes documents finds those that the conjunction finds. -/
theorem mem_evaluate_part (hrole : context.node scope (.all parts tags) = .ok role)
    (hdoc : doc ∈ index.evaluate role.lookup) {part : Tree} (hpart : part ∈ parts) :
    ∃ own, context.node (tags.contentTypes? <|> scope) part = .ok own ∧
      (own.excludes = false → doc ∈ index.evaluate own.lookup) := by
  obtain ⟨roles, hroles, hret⟩ := bind_eq_ok.mp hrole
  obtain rfl := Except.ok.inj hret
  rw [nodes_eq_mapM, mapM_eq_ok] at hroles
  obtain ⟨own, hown, hnode⟩ := (exists_partners hroles).1 part hpart
  refine ⟨own, hnode, fun hincludes => ?_⟩
  have hmust : own.lookup ∈ (split roles).1 :=
    List.mem_map_of_mem (List.mem_filter.mpr ⟨hown, by simp [hincludes]⟩)
  exact ((InvertedIndex.mem_evaluate_combine (List.ne_nil_of_mem hmust)).mp hdoc).1 _ hmust

/-- Without an analyzer, a text is looked up as the term that it is. -/
theorem exact_text (hanalyzer : context.catalog.analyzer? field scope = none) {value : Value}
    (htext : value.isText = true) : ∃ text, (value = .word text ∨ value = .phrase text) ∧
      context.exact field value scope = .ok (.term field text) := by
  have hanalysed : ∀ (text : String) (slop : Nat),
      context.analysed field text slop scope = .ok (.term field text) := fun text slop =>
    analysed_eq (askedTerms_of_none hanalyzer) slop
  cases value with
  | word text => exact ⟨text, .inl rfl, hanalysed text 0⟩
  | phrase text => exact ⟨text, .inr rfl, hanalysed text context.phraseSlop⟩
  | _ => cases htext

/-- A clause that asks for texts alone finds documents that have one of them as a term. -/
theorem exists_text_of_clause (hanalyzer : context.catalog.analyzer? field scope = none)
    {part : Tree} (hasks : part.asksForTexts field = true)
    (hrole : context.node scope part = .ok role) : role.excludes = false ∧
      (doc ∈ index.evaluate role.lookup → ∃ text ∈ Tree.contentTypesOf field part,
        doc ∈ index.evaluate (.term field text)) := by
  cases part with
  | clause c =>
      obtain ⟨owner, op, value, tags⟩ := c
      simp only [Tree.asksForTexts, Bool.and_eq_true, Bool.or_eq_true, beq_iff_eq,
        List.all_eq_true] at hasks
      obtain ⟨⟨rfl, hop⟩, htexts⟩ := hasks
      have hnamed : ∀ item ∈ value.items, ∀ text, (item = .word text ∨ item = .phrase text) →
          text ∈ Tree.contentTypesOf field (.clause ⟨some field, op, value, tags⟩) := by
        intro item hitem text htext
        rw [Tree.contentTypesOf, if_pos (by simpa using hop)]
        refine List.mem_filterMap.mpr ⟨item, hitem, ?_⟩
        rcases htext with rfl | rfl <;> rfl
      rcases hop with rfl | rfl
      · obtain ⟨lookup, hexact, hret⟩ := bind_eq_ok.mp hrole
        obtain rfl := Except.ok.inj hret
        have hitems : value ∈ value.items := by
          cases value <;> first | exact List.mem_singleton_self _ | cases hexact
        obtain ⟨text, htext, hterm⟩ := exact_text hanalyzer (htexts value hitems)
        obtain rfl := Except.ok.inj (hexact.symm.trans hterm)
        exact ⟨rfl, fun hdoc => ⟨text, hnamed value hitems text htext, hdoc⟩⟩
      · obtain ⟨lookup, hany, hret⟩ := bind_eq_ok.mp hrole
        obtain rfl := Except.ok.inj hret
        refine ⟨rfl, fun hdoc => ?_⟩
        cases value with
        | list values =>
            obtain ⟨lookups, hlookups, hret⟩ := bind_eq_ok.mp hany
            obtain rfl := Except.ok.inj hret
            obtain ⟨found, hfound, hin⟩ := InvertedIndex.mem_evaluate_anyOf.mp hdoc
            obtain ⟨item, hitem, hexact⟩ :=
              (exists_partners (mapM_eq_ok.mp hlookups)).2 found hfound
            obtain ⟨text, htext, hterm⟩ := exact_text hanalyzer (htexts item hitem)
            obtain rfl := Except.ok.inj (hexact.symm.trans hterm)
            exact ⟨text, hnamed item hitem text htext, hin⟩
        | _ => cases hany
  | _ => cases hasks

end PlanContext

end Query

/-! ### Documents with their content types as terms -/

open DocumentBuilder (searchedAs standard)

/-- A document whose content type is the only term of the content type field. -/
def DocumentBuilder.StatesType (builder : DocumentBuilder) (built : BuiltDocument) : Prop :=
  built.document.filter (searchedAs builder.config.contentTypeField)
    = [.term builder.config.contentTypeField built.contentType]

namespace DocumentStore.Holds

variable {builder : DocumentBuilder} {store : DocumentStore} {entries : List Held}
  {scope : Query.Scope}

/-- Content types are not analysed. -/
theorem analyzer?_contentType (h : store.Holds builder entries)
    (hstates : ∀ entry ∈ entries, builder.StatesType entry.built) :
    store.catalog.analyzer? builder.config.contentTypeField scope = none := by
  have hnone : ∀ info ∈ store.catalog.observations builder.config.contentTypeField scope,
      ¬ (decide (info.kind = .text)) = true := by
    intro info hinfo htext
    obtain ⟨hname, _, -, hknows⟩ := (FieldCatalog.mem_observations_iff h.sorted).mp hinfo
    obtain ⟨entry, hentry, -, hown⟩ := (h.knows _ _).mp hknows
    obtain ⟨projections, hbuilt⟩ := DocumentBuilder.builtBy (h.made entry hentry).build
    obtain ⟨projection, hprojection, field, hfield, rfl⟩ := (hbuilt.mem_infos info).mp hown
    have hindexed := hbuilt.indexed projection hprojection field hfield
    have hfieldName : field.name = builder.config.contentTypeField := hname
    have hsearched : field ∈
        entry.built.document.filter (searchedAs builder.config.contentTypeField) :=
      List.mem_filter.mpr
        ⟨(hbuilt.mem_document hindexed).mpr ⟨projection, hprojection, hfield⟩,
          by simp [searchedAs, hindexed, hfieldName]⟩
    rw [hstates entry hentry] at hsearched
    obtain rfl := List.mem_singleton.mp hsearched
    exact absurd (of_decide_eq_true htext) FieldKind.noConfusion
  rw [FieldCatalog.analyzer?, List.find?_eq_none.mpr hnone]
  rfl

/-- A document that has a text as a term of the content type field is of that type. -/
theorem exists_of_contentType (h : store.Holds builder entries)
    (hstates : ∀ entry ∈ entries, builder.StatesType entry.built) {doc : DocId} {text : String}
    (hdoc : doc ∈ store.writer.index.matching (.term builder.config.contentTypeField text)) :
    ∃ entry, entries[doc]? = some entry ∧ entry.built.contentType = text := by
  obtain ⟨entry, hentry, -, hsatisfies⟩ := h.mem_matching.mp hdoc
  have hmem := List.mem_of_getElem? hentry
  have hterm : InvertedIndex.hasTerm entry.fields builder.config.contentTypeField
      (fun term => term == text) = (entry.built.contentType == text) := by
    refine InvertedIndex.hasTerm_of_filter ?_ _
    rw [InvertedIndex.map_field_of_analyze (h.made entry hmem).analyze]
    exact hstates entry hmem
  exact ⟨entry, hentry, beq_iff_eq.mp (hterm.symm.trans hsatisfies)⟩

/-- What a document showed is observed in every scope that takes its content type in. -/
theorem mem_observations_own (h : store.Holds builder entries) {entry : Held}
    (hentry : entry ∈ entries) (hscope : FieldCatalog.InScope scope entry.built.contentType)
    {info : FieldInfo} (hinfo : info ∈ entry.built.infos) :
    info ∈ store.catalog.observations info.fieldName scope :=
  (FieldCatalog.mem_observations_iff h.sorted).mpr
    ⟨rfl, _, hscope, (h.knows _ _).mpr ⟨entry, hentry, rfl, hinfo⟩⟩

end DocumentStore.Holds

namespace Query.PlanContext

open Tree (Within simplify contentTypesOf)

/-- The tag of a conjunction names the content type of every document that it finds. -/
theorem contentType_mem_tag {builder : DocumentBuilder} {store : DocumentStore}
    {entries : List Held} (h : store.Holds builder entries)
    (hstates : ∀ entry ∈ entries, builder.StatesType entry.built) {context : PlanContext}
    (hcatalog : context.catalog = store.catalog) {parts : List Tree} {tags : Tags}
    {names : List String} (htag : tags.contentTypes? = some names)
    (hnames : ∀ part ∈ parts,
      ∀ name ∈ contentTypesOf builder.config.contentTypeField part, name ∈ names)
    (htexts : ∃ part ∈ parts, part.asksForTexts builder.config.contentTypeField = true)
    {scope : Scope} {role : Role} (hrole : context.node scope (.all parts tags) = .ok role)
    {doc : DocId} (hdoc : doc ∈ store.writer.index.matching role.lookup) :
    ∃ entry, entries[doc]? = some entry ∧ entry.built.contentType ∈ names := by
  obtain ⟨hfound, hlive⟩ := InvertedIndex.mem_matching.mp hdoc
  obtain ⟨part, hpart, hasks⟩ := htexts
  obtain ⟨own, hown, hpartFinds⟩ := mem_evaluate_part hrole hfound hpart
  rw [htag] at hown
  have hanalyzer : context.catalog.analyzer? builder.config.contentTypeField (some names) = none :=
    hcatalog ▸ h.analyzer?_contentType hstates
  obtain ⟨hincludes, hterms⟩ := exists_text_of_clause hanalyzer hasks hown
  obtain ⟨text, htext, hterm⟩ := hterms (hpartFinds hincludes)
  obtain ⟨entry, hentry, rfl⟩ :=
    h.exists_of_contentType hstates (InvertedIndex.mem_matching.mpr ⟨hterm, hlive⟩)
  exact ⟨entry, hentry, hnames part hpart _ htext⟩

/--
**A conjunction that is tagged with content types overlooks nothing that is known of the
documents it finds**, if one of its clauses asks for content types by texts alone.

Every conjunction in a simplified query that asks for content types is tagged.  If each
document has its content type as the only term of the content type field, then the tag names
the content type of every document that the conjunction finds, and all that was observed of the
fields of the document is observed for the types of the tag.
-/
theorem tag_covers_matching (builder : DocumentBuilder) (next : IdentifierSupply)
    (requests : List WriteRequest) (edits : List Edit)
    (hedits : builder.convert next requests = .ok edits)
    (hstates : ∀ json ∈ builder.prepared next requests, ∀ built, builder.build json = .ok built →
      builder.StatesType built)
    (context : PlanContext) (hcatalog : context.catalog = (builder.storeOf edits).catalog)
    (conventions : Conventions)
    (hfield : conventions.contentTypeField = builder.config.contentTypeField)
    (tree : Tree) (parts : List Tree) (tags : Tags)
    (hnode : Within (.all parts tags) (simplify conventions tree))
    (hasks : ∃ part ∈ parts, contentTypesOf conventions.contentTypeField part ≠ [])
    (htexts : ∃ part ∈ parts, part.asksForTexts conventions.contentTypeField = true)
    (scope : Scope) (role : Role) (hrole : context.node scope (.all parts tags) = .ok role) :
    ∃ names, tags.contentTypes? = some names ∧
      ∀ doc ∈ (builder.storeOf edits).writer.index.matching role.lookup,
        ∃ json built, (builder.prepared next requests)[doc]? = some json ∧
          builder.build json = .ok built ∧ built.contentType ∈ names ∧
          ∀ info ∈ built.infos,
            info ∈ context.catalog.observations info.fieldName (some names) := by
  obtain ⟨entries, hholds, hjson⟩ := DocumentStore.Holds.storeOf hedits
  have hall : ∀ entry ∈ entries, builder.StatesType entry.built := fun entry hentry =>
    hstates entry.json (hjson ▸ List.mem_map_of_mem hentry) _ (hholds.made entry hentry).build
  have htag := (Tree.scoped_simplify tree).contentTypes? hnode hasks
  rw [hfield] at htag htexts
  refine ⟨_, htag, fun doc hdoc => ?_⟩
  have hnames : ∀ part ∈ parts, ∀ name ∈ contentTypesOf builder.config.contentTypeField part,
      name ∈ Tree.askedContentTypes builder.config.contentTypeField parts :=
    fun part hpart name hname => Tree.mem_askedContentTypes.mpr ⟨part, hpart, hname⟩
  obtain ⟨entry, hentry, hmem⟩ :=
    contentType_mem_tag hholds hall hcatalog htag hnames htexts hrole hdoc
  have hin := List.mem_of_getElem? hentry
  refine ⟨entry.json, entry.built, by rw [← hjson, List.getElem?_map, hentry]; rfl,
    (hholds.made entry hin).build, hmem, fun info hinfo => ?_⟩
  rw [hcatalog]
  refine hholds.mem_observations_own hin ?_ hinfo
  intro names hnames
  obtain rfl := Option.some.inj hnames
  exact hmem

/-- A person with a number and a customer with a greeting. -/
def visitors : List WriteRequest :=
  [.create (.object [("$contentType", .text "person"), ("$id", .text "A"), ("x", .int 1)]),
    .create (.object [("$contentType", .text "customer"), ("$id", .text "B"),
      ("x", .text "Hello")])]

/-- The edits that they are converted to. -/
def visitorEdits : List Edit := ((standard.convert 0 visitors).toOption).getD []

/-- The store of the visitors is searched. -/
def visitorContext : PlanContext :=
  ⟨(standard.storeOf visitorEdits).catalog, Analyzers.builtIn, ⟨0, 0, 0⟩, 0, 0⟩

/-- Persons, and the content types that a value stands for, with a greeting. -/
def greeted (other : Value) : List Tree :=
  [.compare "$contentType" .oneOf (.list [.word "person", other]),
    .compare "x" .equals (.word "Hello")]

theorem tag_covers_matching_visitors :
    standard.convert 0 visitors = .ok visitorEdits ∧
      (∀ json ∈ standard.prepared 0 visitors, ∀ built, standard.build json = .ok built →
        standard.StatesType built) ∧
      ∃ tags, simplify Config.default.conventions (.all (greeted (.phrase "customer")) [])
          = .all (greeted (.phrase "customer")) tags ∧
        ∃ role, visitorContext.node none (.all (greeted (.phrase "customer")) tags) = .ok role ∧
          (standard.storeOf visitorEdits).writer.index.matching role.lookup = [1] ∧
          ∃ names, tags.contentTypes? = some names ∧
            ∀ doc ∈ (standard.storeOf visitorEdits).writer.index.matching role.lookup,
              ∃ json built, (standard.prepared 0 visitors)[doc]? = some json ∧
                standard.build json = .ok built ∧ built.contentType ∈ names ∧
                ∀ info ∈ built.infos,
                  info ∈ visitorContext.catalog.observations info.fieldName (some names) := by
  have hstates : ∀ json ∈ standard.prepared 0 visitors, ∀ built,
      standard.build json = .ok built → standard.StatesType built := by
    refine List.forall_mem_cons.mpr ⟨?_, List.forall_mem_singleton.mpr ?_⟩ <;>
    · intro built hbuilt
      obtain rfl := Except.ok.inj hbuilt
      rfl
  refine ⟨rfl, hstates, _, rfl, _, rfl, by decide +kernel, ?_⟩
  exact tag_covers_matching standard 0 visitors visitorEdits rfl hstates visitorContext rfl
    Config.default.conventions rfl (.all (greeted (.phrase "customer")) []) _ _ (.root _)
    ⟨_, List.mem_cons_self, by decide⟩ ⟨_, List.mem_cons_self, by decide⟩ none _ rfl

/-- Persons and whatever fits a wildcard, with an identity. -/
def identified : List Tree :=
  [.compare "$contentType" .oneOf (.list [.word "person", .wildcard "cust*"]),
    .compare "$id" .equals (.word "B")]

/-- A customer is found by the wildcard, but the tag names persons alone.  Among what is known of
persons a greeting is no text that is analysed, and by it the customer is not found any more. -/
theorem customer_not_covered :
    standard.convert 0 visitors = .ok visitorEdits ∧
      (∃ json built, (standard.prepared 0 visitors)[1]? = some json ∧
        standard.build json = .ok built ∧ built.contentType = "customer") ∧
      (∃ tags role,
        simplify Config.default.conventions (.all identified []) = .all identified tags ∧
        tags.contentTypes? = some ["person"] ∧
        visitorContext.node none (.all identified tags) = .ok role ∧
        (standard.storeOf visitorEdits).writer.index.matching role.lookup = [1]) ∧
      ∃ tags untagged tagged,
        simplify Config.default.conventions (.all (greeted (.wildcard "cust*")) [])
          = .all (greeted (.wildcard "cust*")) tags ∧
        visitorContext.node none (.all (greeted (.wildcard "cust*")) []) = .ok untagged ∧
        visitorContext.node none (.all (greeted (.wildcard "cust*")) tags) = .ok tagged ∧
        (standard.storeOf visitorEdits).writer.index.matching untagged.lookup = [1] ∧
        (standard.storeOf visitorEdits).writer.index.matching tagged.lookup = [] :=
  ⟨rfl, ⟨_, _, rfl, rfl, rfl⟩, ⟨_, _, rfl, rfl, rfl, by decide +kernel⟩, _, _, _, rfl, rfl, rfl,
    by decide +kernel, by decide +kernel⟩

end Query.PlanContext

end DocIndex
