/-
The documents of an index as a search for everything finds them.

A hit is rebuilt from the bytes that its document kept, so it gives back the document as it was
written, provided that its text fits the frame of a block and is parsed as it was written.  The
query for everything has a plan that does not depend on what is known of the fields.  Searching
changes nothing but the cache, and whatever is in the cache, a query is what its text reads as.
-/
import DocIndex.OpenIndex
import DocIndex.Proofs.Codec.Packing
import DocIndex.Proofs.Index.Listing
import DocIndex.Proofs.Query.Recency

namespace DocIndex

open Query (CacheKey Tree)
open Storage (Step)

/-- JSON that was packed is read back, if its text fits the frame and is parsed as written. -/
theorem Hit.unpackJson_pack {json : Json} {compression : Compression}
    (hsize : (Bytes.ofText json.write).length < 256 ^ 4)
    (hcodec : compression.Restores (Bytes.ofText json.write))
    (htext : Json.parse? json.write = some json) :
    unpackJson (pack (Bytes.ofText json.write) compression) = .ok json := by
  have hunpack := unpack_pack hsize hcodec
  simp only [unpackJson, hunpack, bind, Except.bind, Bytes.toText?_ofText, Option.bind_some, htext]

/-- A document with its identity. -/
structure Listed where
  id : String
  document : Json

namespace Listed

/-- What an index keeps of a document. -/
def entry (listed : Listed) : Entry := (listed.id, pack (Bytes.ofText listed.document.write) .lz4)

/-- A document that can be rebuilt from what is kept of it. -/
structure Readable (listed : Listed) : Prop where
  identity : listed.document.identity? Config.default.identityField = some listed.id
  size : (Bytes.ofText listed.document.write).length < 256 ^ 4
  text : Json.parse? listed.document.write = some listed.document

theorem Readable.unpackJson {listed : Listed} (h : listed.Readable) :
    Hit.unpackJson listed.entry.2 = .ok listed.document :=
  Hit.unpackJson_pack h.size (Compression.restores_lz4 _) h.text

end Listed

/-- At most so many elements of a list, from the first one on. -/
def upTo {α : Type} (limit : Option Nat) (xs : List α) : List α := limit.elim xs fun n => xs.take n

namespace InvertedIndex

variable {index : InvertedIndex}

/-- Documents that keep what is kept of listed ones are read back as these. -/
theorem readHits_ok {docs : List DocId} : ∀ {listed : List Listed},
    List.Forall₂ (fun doc entry => index.stored? doc Config.default.sourceField = some entry.2)
      docs (listed.map Listed.entry) → (∀ document ∈ listed, document.Readable) →
    ∃ hits, OpenIndex.readHits index .default docs = .ok hits ∧
      hits.map (fun hit => (hit.id, hit.source))
        = listed.map fun listed => (some listed.id, listed.document) := by
  induction docs with
  | nil =>
      intro listed hkept _
      cases listed with
      | nil => exact ⟨[], rfl, rfl⟩
      | cons document rest => cases hkept
  | cons doc docs ih =>
      intro listed hkept hreadable
      cases listed with
      | nil => cases hkept
      | cons document rest =>
          obtain ⟨hfirst, hrest⟩ := List.forall₂_cons.mp hkept
          have hdocument := hreadable document List.mem_cons_self
          obtain ⟨hits, hhits, hmap⟩ :=
            ih hrest fun other hother => hreadable other (List.mem_cons_of_mem _ hother)
          have hhit : Hit.read index Config.default.sourceField Config.default.identityField doc
              = .ok ⟨doc, some document.id, document.document⟩ := by
            simp only [Hit.read, hfirst, hdocument.unpackJson, bind, Except.bind,
              hdocument.identity]
            rfl
          refine ⟨⟨doc, some document.id, document.document⟩ :: hits, ?_, ?_⟩
          · unfold OpenIndex.readHits at hhits ⊢
            rw [List.mapM_cons, hhit, hhits]
            rfl
          · rw [List.map_cons, List.map_cons, hmap]

/-- What everything matches are the live documents. -/
theorem matching_everything (index : InvertedIndex) : index.matching .everything = index.live := by
  unfold matching DocSet.inter
  exact List.filter_eq_self.mpr fun doc hdoc => List.contains_iff_mem.mpr hdoc

end InvertedIndex

namespace OpenIndex

variable {σ : Type}

/-! ### Reading queries -/

/-- What the text of a key is read as. -/
def readKey (key : CacheKey) : Except Error Tree := readQuery .default key.text

/-- A query gives what its text is read as, whatever is in the cache. -/
theorem compile_eq {index : OpenIndex σ} (hconfig : index.config = .default)
    (hcache : index.cache.Faithful readKey) (text : String) :
    ∃ cache, cache.Faithful readKey ∧ (compile text).runFrom index
      = (if (String.ofList (Text.trim text.toList)).isEmpty then .error .blankQuery
          else readQuery .default (String.ofList (Text.trim text.toList)),
        { index with cache }) := by
  have hfields : { index with config := .default } = index := by rw [← hconfig]
  rw [runFrom_compile, hconfig]
  by_cases hblank : (trimmed text).isEmpty = true
  · refine ⟨index.cache, hcache, ?_⟩
    rw [if_pos hblank]
    exact Prod.ext (if_pos hblank).symm hfields.symm
  · obtain ⟨hresult, hfaithful⟩ := hcache.getOrMake (keyOf .default (trimmed text))
    refine ⟨_, hfaithful, ?_⟩
    rw [if_neg hblank]
    exact Prod.ext (hresult.trans (if_neg hblank).symm) rfl

theorem explain_frame {index : OpenIndex σ} (hconfig : index.config = .default)
    (hcache : index.cache.Faithful readKey) (text : String) (now : Moment) :
    ∃ cache, cache.Faithful readKey ∧
      ((explain text now).runFrom index).2 = { index with cache } := by
  obtain ⟨cache, hfaithful, hcompile⟩ := compile_eq hconfig hcache text
  refine ⟨cache, hfaithful, ?_⟩
  rw [explain]
  split at hcompile
  · rw [Storage.runFrom_bind_error hcompile]
  · cases hread : readQuery .default (String.ofList (Text.trim text.toList)) with
    | error e =>
        rw [hread] at hcompile
        rw [Storage.runFrom_bind_error hcompile]
    | ok tree =>
        rw [hread] at hcompile
        let next : OpenIndex σ := { index with cache }
        have hget : (get : Step (OpenIndex σ) (OpenIndex σ)).runFrom next = (.ok next, next) := rfl
        rw [Storage.runFrom_bind hcompile, Storage.runFrom_bind hget]
        cases (next.planContext now).plan tree with
        | ok found => rfl
        | error e => rfl

/-- Searching leaves everything but the cache as it is. -/
theorem search_frame {index : OpenIndex σ} (hconfig : index.config = .default)
    (hcache : index.cache.Faithful readKey) (text : String) (limit : Option Nat) (now : Moment) :
    ∃ cache, cache.Faithful readKey ∧
      ((search text limit now).runFrom index).2 = { index with cache } := by
  obtain ⟨cache, hfaithful, hexplain⟩ := explain_frame hconfig hcache text now
  refine ⟨cache, hfaithful, ?_⟩
  rw [search]
  cases hrun : (explain text now).runFrom index with
  | mk result next =>
      rw [hrun] at hexplain
      cases result with
      | error e =>
          rw [Storage.runFrom_bind_error hrun]
          exact hexplain
      | ok found =>
          obtain ⟨lookup, keys⟩ := found
          have hget : (get : Step (OpenIndex σ) (OpenIndex σ)).runFrom next
              = (.ok next, next) := rfl
          rw [Storage.runFrom_bind hrun, Storage.runFrom_bind hget, ← hexplain]
          dsimp only
          generalize next.store.writer.index.search lookup (keys.getD []) limit = found
          cases readHits next.store.writer.index next.config found.1 with
          | ok hits => rfl
          | error e => rfl

/-! ### Searching for everything -/

theorem readQuery_everything : readQuery .default "*" = .ok .everything := by
  with_unfolding_all rfl

theorem compile_everything {index : OpenIndex σ} (hconfig : index.config = .default)
    (hcache : index.cache.Faithful readKey) : ∃ cache, cache.Faithful readKey ∧
      (compile "*").runFrom index = (.ok .everything, { index with cache }) := by
  obtain ⟨cache, hfaithful, hcompile⟩ := compile_eq hconfig hcache "*"
  have htrim : String.ofList (Text.trim "*".toList) = "*" := by decide
  have hsome : ¬"*".isEmpty = true := by decide
  rw [htrim, if_neg hsome, readQuery_everything] at hcompile
  exact ⟨cache, hfaithful, hcompile⟩

/-- **A search for everything finds the documents that the index lists, in their order.** -/
theorem search_everything {index : OpenIndex σ} {listed : List Listed}
    (hconfig : index.config = .default) (hcache : index.cache.Faithful readKey)
    (hlists : index.store.writer.index.Lists .default (listed.map Listed.entry))
    (hreadable : ∀ document ∈ listed, document.Readable) (limit : Option Nat) (now : Moment) :
    ∃ results cache, (search "*" limit now).runFrom index = (.ok results, { index with cache }) ∧
      results.hits.map (fun hit => (hit.id, hit.source))
        = (upTo limit listed).map (fun listed => (some listed.id, listed.document)) ∧
      results.total = listed.length := by
  obtain ⟨cache, -, hcompile⟩ := compile_everything hconfig hcache
  let documents := index.store.writer.index
  have hkept : List.Forall₂ (fun doc entry =>
      documents.stored? doc Config.default.sourceField = some entry.2)
      (upTo limit documents.live) ((upTo limit listed).map Listed.entry) := by
    have hall := hlists.sources
    cases limit with
    | none => exact hall
    | some n =>
        show List.Forall₂ _ (documents.live.take n) ((listed.take n).map Listed.entry)
        rw [List.map_take]
        exact List.forall₂_take n hall
  have hsome : ∀ document ∈ upTo limit listed, document.Readable := by
    intro document hdocument
    cases limit with
    | none => exact hreadable document hdocument
    | some n => exact hreadable document (List.mem_of_mem_take hdocument)
  obtain ⟨hits, hhits, hmap⟩ := InvertedIndex.readHits_ok hkept hsome
  have hfound : documents.search .everything [] limit
      = (upTo limit documents.live, documents.live.length) := by
    simp only [InvertedIndex.search, InvertedIndex.matching_everything]
    cases limit <;> rfl
  refine ⟨⟨hits, documents.live.length⟩, cache, ?_, hmap, ?_⟩
  · obtain ⟨next, hnext⟩ : ∃ next : OpenIndex σ, next = { index with cache } := ⟨_, rfl⟩
    have hdocuments : next.store.writer.index = documents := by rw [hnext]; rfl
    have hdefault : next.config = .default := by rw [hnext]; exact hconfig
    rw [← hnext] at hcompile ⊢
    have hget : (get : Step (OpenIndex σ) (OpenIndex σ)).runFrom next = (.ok next, next) := rfl
    have hexplain : (explain "*" now).runFrom index = (.ok (.everything, none), next) := by
      rw [explain, Storage.runFrom_bind hcompile, Storage.runFrom_bind hget]
      rfl
    have hlift : (liftM (readHits documents .default (upTo limit documents.live)) :
        Step (OpenIndex σ) (List Hit)).runFrom next = (.ok hits, next) := by
      rw [hhits]
      rfl
    rw [search, Storage.runFrom_bind hexplain, Storage.runFrom_bind hget]
    simp only [hdocuments, hdefault, Option.getD_none, hfound]
    rw [Storage.runFrom_bind hlift]
    rfl
  · rw [hlists.entries.length_eq, List.length_map]

end OpenIndex

end DocIndex
