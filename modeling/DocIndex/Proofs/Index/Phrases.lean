/-
A text is found as the phrase of its own tokens, or of a run of them.

The search for a phrase takes each term at the first position that will do and does not come
back.  That is no loss where the phrase is a run of the terms of an instance of the field.
Analysis gives tokens at increasing positions, and the instances of a field stand behind each
other, so the positions of a term that come before its place in this instance are all too early:
they are in instances before it, or belong to tokens before the one that was taken last.  So from
the first token of the run on, the search takes exactly the tokens of the run.
-/
import DocIndex.Proofs.Index.Reference

namespace DocIndex

/-! ### The order of tokens -/

namespace Analysis

/-- Tokens stand at increasing positions. -/
def InOrder (tokens : List Token) : Prop := tokens.Pairwise fun a b => a.position < b.position

/-- The terms of tokens with their distances from the first one. -/
def relativeTerms (tokens : List Token) : List (String × Nat) :=
  let base := match tokens with
    | [] => 0
    | first :: _ => first.position
  tokens.map fun token => (token.text, token.position - base)

theorem Tokenizer.inOrder_place : ∀ (words : List (Nat × List Char)) (position : Nat),
    InOrder (place position words) ∧ ∀ token ∈ place position words, position ≤ token.position
  | [], _ => ⟨List.Pairwise.nil, by simp [place]⟩
  | (_, _) :: rest, position => by
      obtain ⟨hrest, hbehind⟩ := inOrder_place rest (position + 1)
      refine ⟨List.pairwise_cons.mpr ⟨fun token htoken => hbehind token htoken, hrest⟩, ?_⟩
      refine List.forall_mem_cons.mpr ⟨Nat.le_refl _, fun token htoken => ?_⟩
      exact Nat.le_of_succ_le (hbehind token htoken)

theorem Tokenizer.inOrder_tokens (tokenizer : Tokenizer) (text : String) :
    InOrder (tokenizer.tokens text) := by
  unfold tokens
  split
  · exact (inOrder_place _ 0).1
  · split
    · exact List.Pairwise.nil
    · exact List.pairwise_singleton _ _

/-- A filter changes the texts of tokens or drops some of them. -/
theorem Filter.inOrder_apply (filter : Filter) {tokens : List Token} (h : InOrder tokens) :
    InOrder (filter.apply tokens) := by
  have hwords : ∀ change : String → String, InOrder (mapWords change tokens) := by
    intro change
    refine List.pairwise_map.mpr (h.imp ?_)
    intro a b hlt
    split <;> split <;> exact hlt
  cases filter with
  | lowercase => exact hwords _
  | stopWords words => exact List.Pairwise.filter _ h
  | stem => exact hwords _

theorem Analyzer.inOrder_analyze (analyzer : Analyzer) (text : String) :
    InOrder (analyzer.analyze text) := by
  have hfold : ∀ (filters : List Filter) (tokens : List Token), InOrder tokens →
      InOrder (filters.foldl (fun tokens filter => filter.apply tokens) tokens) := by
    intro filters
    induction filters with
    | nil => exact fun _ h => h
    | cons filter rest ih => exact fun tokens h => ih _ (filter.inOrder_apply h)
  exact hfold analyzer.filters _ (analyzer.tokenizer.inOrder_tokens text)

end Analysis

namespace InvertedIndex

namespace AnalyzedField

/-- The terms of a field stand at increasing positions. -/
def InOrder (f : AnalyzedField) : Prop := f.placedTerms.Pairwise fun a b => a.2 < b.2

/-- The position of the first term of a field. -/
def firstPosition (f : AnalyzedField) : Nat := (f.placedTerms.head?.map Prod.snd).getD 0

/-- The terms of a field with their distances from the first one. -/
def relativeTerms (f : AnalyzedField) : List (String × Nat) :=
  f.placedTerms.map fun entry => (entry.1, entry.2 - f.firstPosition)

theorem le_lastPosition {f : AnalyzedField} (h : f.InOrder) {entry : String × Nat}
    (hentry : entry ∈ f.placedTerms) : entry.2 ≤ f.lastPosition := by
  unfold InOrder at h
  unfold lastPosition
  generalize f.placedTerms = terms at h hentry
  rcases List.eq_nil_or_concat terms with rfl | ⟨rest, last, rfl⟩
  · simp at hentry
  · rw [List.concat_eq_append] at h hentry ⊢
    rw [List.getLast?_concat, Option.map_some, Option.getD_some]
    rcases List.mem_append.mp hentry with hrest | hlast
    · exact Nat.le_of_lt ((List.pairwise_append.mp h).2.2 entry hrest last
        (List.mem_singleton_self _))
    · rw [List.mem_singleton.mp hlast]

end AnalyzedField

theorem AnalyzedField.inOrder_of_tokens {f : AnalyzedField} (h : Analysis.InOrder f.tokens) :
    f.InOrder := by
  unfold InOrder placedTerms
  split
  · exact List.pairwise_singleton _ _
  · exact List.pairwise_map.mpr h
  · exact List.Pairwise.nil

theorem inOrder_tokens_of_analyzeField {analyzers : Analyzers} {field : Field}
    {f : AnalyzedField} (h : analyzeField analyzers field = .ok f) :
    Analysis.InOrder f.tokens := by
  unfold analyzeField at h
  split at h
  · split at h
    · split at h
      · rename_i analyzer _
        obtain rfl := Except.ok.inj h
        exact analyzer.inOrder_analyze _
      · cases h
    · obtain rfl := Except.ok.inj h
      exact List.Pairwise.nil
  · obtain rfl := Except.ok.inj h
    exact List.Pairwise.nil

theorem inOrder_of_analyzeField {analyzers : Analyzers} {field : Field} {f : AnalyzedField}
    (h : analyzeField analyzers field = .ok f) : f.InOrder :=
  AnalyzedField.inOrder_of_tokens (inOrder_tokens_of_analyzeField h)

/-- The analyzers of an index put the tokens of every text in order. -/
theorem inOrder_tokens_of_analyze {analyzers : Analyzers} {document : Document}
    {fields : List AnalyzedField} (h : analyze analyzers document = .ok fields) :
    ∀ f ∈ fields, Analysis.InOrder f.tokens := by
  intro f hf
  obtain ⟨field, -, hfield⟩ := (exists_partners (mapM_eq_ok.mp h)).2 f hf
  exact inOrder_tokens_of_analyzeField hfield

/-! ### Where the terms of an instance stand -/

variable {name term : String} {fields : List AnalyzedField}

theorem le_startAfter (name : String) (fields : List AnalyzedField) (start : Nat) :
    start ≤ startAfter name start fields := by
  induction fields generalizing start with
  | nil => exact Nat.le_refl _
  | cons f rest ih =>
      rw [startAfter]
      split
      · exact Nat.le_trans (by omega) (ih _)
      · exact ih start

/-- Instances before a place end before it. -/
theorem positionsFrom_lt (h : ∀ f ∈ fields, f.hasTermsOf name = true → f.InOrder)
    {start position : Nat}
    (hposition : position ∈ positionsFrom name term start fields) :
    position < startAfter name start fields := by
  induction fields generalizing start with
  | nil => simp [positionsFrom] at hposition
  | cons f rest ih =>
      obtain ⟨hfirst, hrest⟩ := List.forall_mem_cons.mp h
      rw [positionsFrom] at hposition
      rw [startAfter]
      split at hposition
      · rename_i hterms
        rw [if_pos hterms]
        rcases List.mem_append.mp hposition with hown | hbehind
        · obtain ⟨entry, hentry, rfl⟩ := List.mem_map.mp hown
          have hle := AnalyzedField.le_lastPosition (hfirst hterms) (List.mem_of_mem_filter hentry)
          exact Nat.lt_of_lt_of_le (by omega) (le_startAfter name rest _)
        · exact ih hrest hbehind
      · rename_i hterms
        rw [if_neg hterms]
        exact ih hrest hposition

/--
The positions of a term that come before its place in an instance are in instances before that
one, or places of terms that come before it in the instance.
-/
theorem positionsOf_split {before : List AnalyzedField} (after : List AnalyzedField)
    {f : AnalyzedField} (h : ∀ other ∈ before, other.hasTermsOf name = true → other.InOrder)
    (hterms : f.hasTermsOf name = true)
    {front rest : List (String × Nat)} {entry : String × Nat}
    (hplaced : f.placedTerms = front ++ entry :: rest) :
    ∃ early late, positionsOf (before ++ f :: after) name entry.1
        = early ++ (startAfter name 0 before + entry.2) :: late ∧
      ∀ position ∈ early, position < startAfter name 0 before ∨
        ∃ other ∈ front, position = startAfter name 0 before + other.2 := by
  let start := startAfter name 0 before
  let shift := fun terms : List (String × Nat) =>
    (terms.filter fun other => other.1 == entry.1).map fun other => start + other.2
  have hown : shift f.placedTerms = shift front ++ (start + entry.2) :: shift rest := by
    simp [shift, hplaced]
  refine ⟨positionsFrom name entry.1 0 before ++ shift front,
    shift rest ++ positionsFrom name entry.1 (start + f.lastPosition + 1 + positionGap) after,
    ?_, fun position hposition => ?_⟩
  · show positionsFrom name entry.1 0 (before ++ f :: after) = _
    rw [positionsFrom_append, positionsFrom, if_pos hterms]
    show _ ++ (shift f.placedTerms ++ _) = _
    rw [hown]
    simp [start]
  · rcases List.mem_append.mp hposition with hbefore | hfront
    · exact Or.inl (positionsFrom_lt h hbefore)
    · obtain ⟨other, hother, rfl⟩ := List.mem_map.mp hfront
      exact Or.inr ⟨other, List.mem_of_mem_filter hother, rfl⟩

/-! ### The walk along an instance -/

theorem find?_append_cons {α : Type} {test : α → Bool} {early late : List α} {found : α}
    (hearly : ∀ x ∈ early, test x = false) (hfound : test found = true) :
    (early ++ found :: late).find? test = some found := by
  have hnone : early.find? test = none := List.find?_eq_none.mpr (by simpa using hearly)
  rw [List.find?_append, hnone, Option.none_or, List.find?_cons_of_pos hfound]

section Instance

variable {before : List AnalyzedField} (after : List AnalyzedField) {f : AnalyzedField}
  (hbefore : ∀ other ∈ before, other.hasTermsOf name = true → other.InOrder) (horder : f.InOrder)
  (hterms : f.hasTermsOf name = true)

include hbefore horder hterms

/--
From a term of a run on, the search takes the terms that follow in the run.  The induction is on
these, and `front` collects the terms of the instance that are behind the search already.
-/
theorem followsWithin_run (slop base : Nat) (back rest : List (String × Nat)) :
    ∀ {front : List (String × Nat)} {entry : String × Nat},
      f.placedTerms = front ++ entry :: (rest ++ back) → base ≤ entry.2 →
      followsWithin slop (startAfter name 0 before + entry.2) (entry.2 - base)
        (rest.map fun other =>
          ⟨positionsOf (before ++ f :: after) name other.1, other.2 - base⟩) = true := by
  induction rest with
  | nil => exact fun _ _ => rfl
  | cons next rest ih =>
      intro front entry hplaced hbase
      have hnext : f.placedTerms = (front ++ [entry]) ++ next :: (rest ++ back) := by
        rw [hplaced, List.append_assoc, List.singleton_append, List.cons_append]
      have hsorted : (front ++ entry :: next :: (rest ++ back)).Pairwise fun a b => a.2 < b.2 :=
        hplaced ▸ horder
      obtain ⟨-, htail, hfront⟩ := List.pairwise_append.mp hsorted
      have hlt : entry.2 < next.2 := List.rel_of_pairwise_cons htail List.mem_cons_self
      obtain ⟨early, late, hpositions, hearly⟩ :=
        positionsOf_split after hbefore hterms hnext
      have htake : (positionsOf (before ++ f :: after) name next.1).find? (fun p =>
          startAfter name 0 before + entry.2 < p && p ≤ startAfter name 0 before + entry.2 +
            max (next.2 - base - (entry.2 - base)) 1 + slop)
          = some (startAfter name 0 before + next.2) := by
        rw [hpositions]
        refine find?_append_cons (fun position hposition => ?_) ?_
        · have hle : position ≤ startAfter name 0 before + entry.2 := by
            rcases hearly position hposition with hlt | ⟨other, hother, rfl⟩
            · omega
            · rcases List.mem_append.mp hother with hother | hother
              · have := hfront other hother entry List.mem_cons_self
                omega
              · rw [List.mem_singleton.mp hother]
          simp [Nat.not_lt.mpr hle]
        · simp only [Bool.and_eq_true, decide_eq_true_eq]
          omega
      rw [List.map_cons, followsWithin]
      simp only [htake]
      exact ih hnext (by omega)

/-- A document has the phrase of any run of the terms of an instance. -/
theorem satisfies_phrase_run {front rest back : List (String × Nat)} {first : String × Nat}
    (hplaced : f.placedTerms = front ++ first :: (rest ++ back)) (slop : Nat) :
    satisfies (before ++ f :: after) (.phrase name
      ((first :: rest).map fun entry => (entry.1, entry.2 - first.2)) slop) = true := by
  obtain ⟨early, late, hpositions, -⟩ := positionsOf_split after hbefore hterms hplaced
  have hstart : startAfter name 0 before + first.2
      ∈ positionsOf (before ++ f :: after) name first.1 := by
    rw [hpositions]
    exact List.mem_append_right _ List.mem_cons_self
  have hfollows := followsWithin_run after hbefore horder hterms slop first.2 back rest hplaced
    (Nat.le_refl _)
  rw [satisfies, List.map_map, List.map_cons, matchesPhrase]
  exact List.any_eq_true.mpr ⟨_, hstart, hfollows⟩

/-- A document has the phrase of the terms of an instance. -/
theorem satisfies_phrase_instance (hne : f.placedTerms ≠ []) (slop : Nat) :
    satisfies (before ++ f :: after) (.phrase name f.relativeTerms slop) = true := by
  obtain ⟨first, rest, hplaced⟩ := List.exists_cons_of_ne_nil hne
  have hrun : f.placedTerms = [] ++ first :: (rest ++ []) := by
    rw [hplaced, List.append_nil, List.nil_append]
  have hrelative : f.relativeTerms
      = (first :: rest).map fun entry => (entry.1, entry.2 - first.2) := by
    simp [AnalyzedField.relativeTerms, AnalyzedField.firstPosition, hplaced]
  rw [hrelative]
  exact satisfies_phrase_run after hbefore horder hterms hrun slop

end Instance

/-- A document has each term of an instance. -/
theorem satisfies_term_instance {f : AnalyzedField} (hf : f ∈ fields)
    (hterms : f.hasTermsOf name = true) {entry : String × Nat} (hentry : entry ∈ f.placedTerms) :
    satisfies fields (.term name entry.1) = true := by
  show hasTerm fields name (fun term => term == entry.1) = true
  exact hasTerm_iff.mpr ⟨entry.1, beq_self_eq_true _,
    positionsFrom_ne_nil.mpr ⟨f, hf, hterms, entry, hentry, rfl⟩⟩

/-- What asks for terms at distances from the first one. -/
def lookupOf (name : String) (terms : List (String × Nat)) (slop : Nat) : Lookup :=
  match terms with
  | [] => .anyOf []
  | [(term, _)] => .term name term
  | terms => .phrase name terms slop

/-- **A document is found by the terms of any of its fields that has some.** -/
theorem satisfies_relativeTerms {f : AnalyzedField} (horder : ∀ other ∈ fields, other.InOrder)
    (hf : f ∈ fields) (hterms : f.hasTermsOf name = true) (hne : f.placedTerms ≠ [])
    (slop : Nat) : satisfies fields (lookupOf name f.relativeTerms slop) = true := by
  obtain ⟨before, after, rfl⟩ := List.append_of_mem hf
  have hphrase := satisfies_phrase_instance after
    (fun other hother _ => horder other (List.mem_append_left _ hother)) (horder f hf) hterms hne
    slop
  obtain ⟨first, rest, hplaced⟩ := List.exists_cons_of_ne_nil hne
  cases rest with
  | nil =>
      have hrelative : f.relativeTerms = [(first.1, first.2 - f.firstPosition)] := by
        simp [AnalyzedField.relativeTerms, hplaced]
      rw [hrelative]
      exact satisfies_term_instance hf hterms (hplaced ▸ List.mem_cons_self)
  | cons second rest =>
      have hlookup : lookupOf name f.relativeTerms slop = .phrase name f.relativeTerms slop := by
        simp [AnalyzedField.relativeTerms, hplaced, lookupOf]
      rwa [hlookup]

end InvertedIndex

end DocIndex
