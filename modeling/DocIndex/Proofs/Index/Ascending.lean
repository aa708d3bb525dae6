/-
Postings in ascending order.

The search for the posting of a document halves the list, and the search for a phrase takes the
first position that will do.  Both count on an order that nobody checks: documents ascend in every
posting list, and positions in every posting.  The order comes from how the postings are made.
Documents go in under growing numbers, the instances of a field stand behind each other, and the
tokens of a text stand at increasing positions whatever analyzers cut it.

So the invariant of an index (`WellFormed`) is read off the documents that went into it, and in a
list that has it halving finds a posting exactly if the list has one.
-/
import DocIndex.Proofs.Index.Histories
import DocIndex.Proofs.Index.Separation

namespace DocIndex

/-! ### Posting lists -/

/-- A posting counts its positions, has some, and has them in increasing order. -/
structure Posting.WellFormed (p : Posting) : Prop where
  frequency : p.frequency = p.positions.length
  occurs : 1 ≤ p.frequency
  ascends : p.positions.Pairwise (· < ·)

namespace PostingList

/-- The documents of a list ascend below a bound, and each of its postings is well formed. -/
structure WellFormed (bound : DocId) (list : PostingList) : Prop where
  ascends : list.Pairwise fun p q => p.doc < q.doc
  below : ∀ p ∈ list, p.doc < bound
  postings : ∀ p ∈ list, p.WellFormed

/--
Looks for the posting of a document among the `size` postings from `first` on.  The half that begins
with a later document is left out.
-/
def searchFrom (list : PostingList) (doc : DocId) (first size : Nat) : Option Posting :=
  if size ≤ 1 then list[first]?.filter fun p => p.doc == doc
  else
    let middle := first + size / 2
    if list[middle]?.any fun p => p.doc ≤ doc then searchFrom list doc middle (size - size / 2)
    else searchFrom list doc first (size - size / 2)
termination_by size

/-- Looks for the posting of a document by halving the list. -/
def search? (list : PostingList) (doc : DocId) : Option Posting := list.searchFrom doc 0 list.length

variable {list : PostingList} {doc : DocId} {p : Posting}

theorem of_searchFrom_eq_some {first size : Nat} (h : list.searchFrom doc first size = some p) :
    p ∈ list ∧ p.doc = doc := by
  fun_induction searchFrom list doc first size with
  | case1 first size hsmall =>
      obtain ⟨hp, hdoc⟩ := Option.filter_eq_some_iff.mp h
      exact ⟨List.mem_of_getElem? hp, beq_iff_eq.mp hdoc⟩
  | case2 first size hlarge middle hbefore ih => exact ih h
  | case3 first size hlarge middle hbehind ih => exact ih h

/--
Halving does not lose a posting.  The induction is on the halves; what carries it is that the
posting stands in the one that is kept, since the posting in the middle tells where its document is.
-/
theorem searchFrom_eq_some (hascends : list.Pairwise fun p q => p.doc < q.doc) {i : Nat}
    (hi : list[i]? = some p) {first size : Nat} (hfirst : first ≤ i) (hlast : i < first + size)
    (hsize : first + size ≤ list.length) : list.searchFrom p.doc first size = some p := by
  obtain ⟨hbound, rfl⟩ := List.getElem?_eq_some_iff.mp hi
  have hdocs := List.pairwise_iff_getElem.mp hascends
  fun_induction searchFrom list list[i].doc first size with
  | case1 first size hsmall =>
      obtain rfl : first = i := by omega
      simp [hi]
  | case2 first size hlarge middle hbefore ih =>
      have hmiddle : middle < list.length := by omega
      have hle : list[middle].doc ≤ list[i].doc := by
        simpa [List.getElem?_eq_getElem hmiddle] using hbefore
      refine ih ?_ (by omega) (by omega)
      by_contra hlt
      exact Nat.not_lt_of_le hle (hdocs i middle hbound hmiddle (by omega))
  | case3 first size hlarge middle hbehind ih =>
      have hmiddle : middle < list.length := by omega
      have hlt : list[i].doc < list[middle].doc := by
        simpa [List.getElem?_eq_getElem hmiddle] using hbehind
      have hi : i < middle := by
        by_contra hge
        rcases Nat.eq_or_lt_of_le (Nat.le_of_not_lt hge) with heq | hafter
        · simp only [heq, Nat.lt_irrefl] at hlt
        · exact Nat.lt_asymm hlt (hdocs middle i hmiddle hbound hafter)
      exact ih hfirst (by omega) (by omega)

theorem search?_eq_some_iff (hascends : list.Pairwise fun p q => p.doc < q.doc) :
    list.search? doc = some p ↔ p ∈ list ∧ p.doc = doc := by
  refine ⟨of_searchFrom_eq_some, ?_⟩
  rintro ⟨hp, rfl⟩
  obtain ⟨i, hi⟩ := List.mem_iff_getElem?.mp hp
  have hbound := (List.getElem?_eq_some_iff.mp hi).1
  exact searchFrom_eq_some hascends hi (Nat.zero_le _) (by omega) (by omega)

theorem get?_eq_some_iff (hascends : list.Pairwise fun p q => p.doc < q.doc) :
    list.get? doc = some p ↔ p ∈ list ∧ p.doc = doc := by
  have hfound : ∀ {q : Posting}, list.get? doc = some q → q ∈ list ∧ q.doc = doc := fun h =>
    ⟨List.mem_reverse.mp (List.mem_of_find?_eq_some h), by simpa using List.find?_some h⟩
  refine ⟨hfound, ?_⟩
  rintro ⟨hp, rfl⟩
  obtain ⟨q, hq⟩ : ∃ q, list.get? p.doc = some q :=
    Option.isSome_iff_exists.mp (List.find?_isSome.mpr ⟨p, List.mem_reverse.mpr hp, by simp⟩)
  obtain ⟨hmem, hdoc⟩ := hfound hq
  -- No two postings belong to one document.
  have hdocs : (list.map Posting.doc).Nodup :=
    List.pairwise_map.mpr (hascends.imp fun hlt => Nat.ne_of_lt hlt)
  rw [hq, List.inj_on_of_nodup_map hdocs hmem hp hdoc]

/-- Halving finds what there is to find. -/
theorem search?_eq_get? (hascends : list.Pairwise fun p q => p.doc < q.doc) :
    list.search? doc = list.get? doc :=
  Option.ext fun _ => (search?_eq_some_iff hascends).trans (get?_eq_some_iff hascends).symm

/-- The postings of a term that stands at increasing positions in every document. -/
theorem wellFormed_ofPositions {docs : List (List Nat)}
    (h : ∀ positions ∈ docs, positions.Pairwise (· < ·)) :
    (ofPositions docs).WellFormed docs.length where
  ascends := by
    have hplaces : docs.zipIdx.Pairwise fun a b => a.2 < b.2 :=
      List.pairwise_map.mp (by rw [List.zipIdx_map_snd]; exact List.pairwise_lt_range')
    refine hplaces.filterMap _ fun a b hlt p hp q hq => ?_
    obtain ⟨-, rfl⟩ := posting?_eq_some.mp hp
    obtain ⟨-, rfl⟩ := posting?_eq_some.mp hq
    exact hlt
  below p hp := doc_lt_of_mem_ofPositions hp
  postings p hp := by
    obtain ⟨positions, hdoc, hposting⟩ := mem_ofPositions.mp hp
    obtain ⟨hne, heq⟩ := posting?_eq_some.mp hposting
    rw [heq]
    exact ⟨rfl, List.length_pos_iff.mpr hne, h positions (List.mem_of_getElem? hdoc)⟩

end PostingList

namespace InvertedIndex

/-! ### Positions in a document -/

/-- A term stands at increasing positions, instance by instance. -/
theorem pairwise_positionsFrom {name term : String} {fields : List AnalyzedField}
    (h : ∀ f ∈ fields, f.InOrder) (start : Nat) :
    (positionsFrom name term start fields).Pairwise (· < ·) := by
  induction fields generalizing start with
  | nil => exact .nil
  | cons f rest ih =>
      obtain ⟨hfirst, hrest⟩ := List.forall_mem_cons.mp h
      rw [positionsFrom]
      split
      · refine List.pairwise_append.mpr ⟨?_, ih hrest _, fun a ha b hb => ?_⟩
        · exact List.pairwise_map.mpr
            ((List.Pairwise.filter _ hfirst).imp fun hlt => Nat.add_lt_add_left hlt start)
        · obtain ⟨entry, hentry, rfl⟩ := List.mem_map.mp ha
          have hle := AnalyzedField.le_lastPosition hfirst (List.mem_of_mem_filter hentry)
          have hge := le_of_mem_positionsFrom hb
          omega
      · exact ih hrest start

/-! ### Indexes -/

/-- What the lookups of an index count on. -/
structure WellFormed (index : InvertedIndex) : Prop where
  postings : ∀ {field term list}, index.postings? field term = some list →
    list.WellFormed index.nextDoc
  live : ∀ doc ∈ index.live, doc < index.nextDoc

/-- The posting of a document among those of a term. -/
def posting? (index : InvertedIndex) (field term : String) (doc : DocId) : Option Posting :=
  (index.postings? field term).bind fun list => list.search? doc

/-- A change that is asked for, with the analyzers that cut the texts of its document. -/
structure Call where
  analyzers : Analyzers
  change : Change

namespace Call

/-- What a call does to an index, unless its document cannot be analysed. -/
def happening? (call : Call) : Option Happening :=
  match call.change with
  | .add document => (analyze call.analyzers document).toOption.map .inserted
  | .deleteTerm field term => some (.deleted field term)

end Call

/-- The index after calls; a document that cannot be analysed changes nothing. -/
def afterCalls (calls : List Call) : InvertedIndex :=
  calls.foldl (fun index call => (index.make call.analyzers call.change).1) empty

/-- The documents that calls put into an index, in the order of their numbers. -/
def documentsAfter (calls : List Call) : List (List AnalyzedField) :=
  documentsOf (calls.filterMap Call.happening?)

/-- A call is what happens by it, or nothing. -/
theorem make_fst (index : InvertedIndex) (call : Call) :
    (index.make call.analyzers call.change).1 = (call.happening?.map index.after).getD index := by
  unfold make Call.happening?
  cases call.change with
  | add document =>
      simp only [InvertedIndex.add]
      cases analyze call.analyzers document <;> rfl
  | deleteTerm field term => rfl

/-- An index that was called has a history. -/
theorem afterCalls_eq (calls : List Call) :
    afterCalls calls = ofHistory (calls.filterMap Call.happening?) := by
  have hfrom : ∀ (calls : List Call) (start : InvertedIndex),
      calls.foldl (fun index call => (index.make call.analyzers call.change).1) start
        = (calls.filterMap Call.happening?).foldl after start := by
    intro calls
    induction calls with
    | nil => exact fun _ => rfl
    | cons call rest ih =>
        intro start
        rw [List.foldl_cons, ih, make_fst, List.filterMap_cons]
        cases call.happening? <;> rfl
  exact hfrom calls empty

/-- Whatever analyzers cut its texts, a document has their terms in order. -/
theorem inOrder_of_documentsAfter {calls : List Call} {fields : List AnalyzedField}
    (h : fields ∈ documentsAfter calls) : ∀ f ∈ fields, f.InOrder := by
  obtain ⟨happening, hhappening, hfields⟩ := List.mem_filterMap.mp h
  obtain ⟨call, -, hcall⟩ := List.mem_filterMap.mp hhappening
  unfold Call.happening? at hcall
  split at hcall
  · rename_i document _
    obtain ⟨analyzed, hanalyze, rfl⟩ := Option.map_eq_some_iff.mp hcall
    obtain rfl := Option.some.inj hfields
    have hok : analyze call.analyzers document = .ok analyzed := by
      cases hresult : analyze call.analyzers document with
      | error e => simp [hresult, Except.toOption] at hanalyze
      | ok other => simpa [hresult, Except.toOption] using hanalyze
    exact fun f hf => AnalyzedField.inOrder_of_tokens (inOrder_tokens_of_analyze hok f hf)
  · obtain rfl := Option.some.inj hcall
    cases hfields

theorem represents_afterCalls (calls : List Call) :
    (afterCalls calls).Represents ((documentsAfter calls).map contentOf) ∧
      ∀ doc ∈ (afterCalls calls).live, doc < (afterCalls calls).nextDoc := by
  obtain ⟨shelf, hrefines, hfields⟩ := exists_refines_ofHistory (calls.filterMap Call.happening?)
  rw [afterCalls_eq, documentsAfter, ← hfields]
  refine ⟨hrefines.represents, fun doc hdoc => ?_⟩
  obtain ⟨document, hshelved, -⟩ := hrefines.mem_live.mp hdoc
  rw [hrefines.nextDoc]
  exact (List.getElem?_eq_some_iff.mp hshelved).1

/-- The invariant holds after every call, since the documents alone make the postings. -/
theorem wellFormed_afterCalls (calls : List Call) : (afterCalls calls).WellFormed := by
  obtain ⟨hrepresents, hlive⟩ := represents_afterCalls calls
  refine ⟨fun {field term list} hlist => ?_, hlive⟩
  have hnext : (afterCalls calls).nextDoc
      = (positionsIn (documentsAfter calls) field term).length := by
    rw [hrepresents.nextDoc, positionsIn, List.length_map, List.length_map, List.length_map]
  rw [hrepresents.postings?_eq_some hlist, hnext]
  refine PostingList.wellFormed_ofPositions fun positions hpositions => ?_
  rw [positionsIn, List.map_map] at hpositions
  obtain ⟨fields, hfields, rfl⟩ := List.mem_map.mp hpositions
  exact pairwise_positionsFrom (inOrder_of_documentsAfter hfields) 0

/-- What is found for a document is made of the positions that it has the term at. -/
theorem posting?_afterCalls (calls : List Call) (field term : String) (doc : DocId) :
    (afterCalls calls).posting? field term doc = (documentsAfter calls)[doc]?.bind fun fields =>
      PostingList.posting? doc (positionsOf fields field term) := by
  obtain ⟨hrepresents, -⟩ := represents_afterCalls calls
  unfold posting?
  cases hlist : (afterCalls calls).postings? field term with
  | some list =>
      have hascends := ((wellFormed_afterCalls calls).postings hlist).ascends
      rw [Option.bind_some, PostingList.search?_eq_get? hascends,
        hrepresents.postings?_eq_some hlist, PostingList.get?_ofPositions]
      cases hdoc : (documentsAfter calls)[doc]? with
      | some fields => rw [getElem?_positionsIn hdoc, Option.bind_some, Option.bind_some]
      | none => simp [positionsIn, hdoc]
  | none =>
      cases hdoc : (documentsAfter calls)[doc]? with
      | some fields =>
          have hnone : positionsOf fields field term = [] := by
            by_contra hne
            obtain ⟨list, hsome⟩ := hrepresents.exists_postings hdoc hne
            rw [hlist] at hsome
            cases hsome
          rw [Option.bind_none, Option.bind_some, hnone, PostingList.posting?, if_pos rfl]
      | none => rfl

/--
**Postings ascend, and halving finds them.**  After any calls that put documents in and delete
terms, each with analyzers of its own, the documents of every posting list ascend below the next
number, every posting counts its positions, of which it has at least one, and these ascend, and
only numbers that were given out are live.  Halving finds the same posting as looking at each, and
it finds one exactly if the document with that number was indexed with the term.
-/
theorem postings_wellFormed (calls : List Call) :
    (afterCalls calls).WellFormed ∧ ∀ field term doc,
      (afterCalls calls).posting? field term doc
        = ((afterCalls calls).postings? field term).bind (fun list => list.get? doc) ∧
      (((afterCalls calls).posting? field term doc).isSome = true ↔
        ∃ fields, (documentsAfter calls)[doc]? = some fields ∧
          hasTerm fields field (fun other => other == term) = true) := by
  have hwell := wellFormed_afterCalls calls
  refine ⟨hwell, fun field term doc => ⟨?_, ?_⟩⟩
  · unfold posting?
    cases hlist : (afterCalls calls).postings? field term with
    | none => rfl
    | some list => exact PostingList.search?_eq_get? (hwell.postings hlist).ascends
  · rw [posting?_afterCalls, Option.isSome_bind]
    simp only [hasTerm_iff, beq_iff_eq, exists_eq_left, Option.any_eq_true,
      Option.isSome_iff_exists, PostingList.posting?_eq_some]
    simp

end InvertedIndex

end DocIndex
