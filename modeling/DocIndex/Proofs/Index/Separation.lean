/-
A phrase stays within one instance of its field.

The instances of a field stand behind each other, and from the last term of one to the first term
of the next there are `positionGap` positions more than from a term to its neighbour.  A search
for a phrase goes from term to term by no more than their distance in the phrase and the slop.
While that is at most the gap, no step leads out of an instance: the next one begins too far
ahead, and the ones before lie behind.  So the search through a document is a search through the
instance in which it starts, as if there were no other, and by induction on the terms of the phrase
all positions that are chosen lie in that one.

An instance without terms, or one that ends in words that were dropped, only moves the next one
further away: the next one begins behind the last term that was kept, or behind the place where a
term would have been.
-/
import DocIndex.Proofs.Index.Choices
import DocIndex.Proofs.Index.Histories
import DocIndex.Proofs.Index.Phrases

namespace DocIndex.InvertedIndex

/-! ### Where the instances of a field stand -/

variable {name term : String} {fields before after : List AnalyzedField} {f : AnalyzedField}

/-- The terms of the instances of a field stand behind its beginning. -/
theorem le_of_mem_positionsFrom {start position : Nat}
    (h : position ∈ positionsFrom name term start fields) : start ≤ position := by
  induction fields generalizing start with
  | nil => cases h
  | cons first rest ih =>
      rw [positionsFrom] at h
      split at h
      · rcases List.mem_append.mp h with hown | hbehind
        · obtain ⟨entry, -, rfl⟩ := List.mem_map.mp hown
          exact Nat.le_add_right _ _
        · exact Nat.le_trans (by omega) (ih hbehind)
      · exact ih h

/-- A term of a field stands in one of its instances. -/
theorem exists_instance {start position : Nat}
    (h : position ∈ positionsFrom name term start fields) :
    ∃ before f after, fields = before ++ f :: after ∧ f.hasTermsOf name = true ∧
      ∃ place, (term, place) ∈ f.placedTerms ∧ position = startAfter name start before + place := by
  induction fields generalizing start with
  | nil => cases h
  | cons first rest ih =>
      have hrest : ∀ {next : Nat}, position ∈ positionsFrom name term next rest →
          startAfter name start [first] = next →
          ∃ before f after, first :: rest = before ++ f :: after ∧ f.hasTermsOf name = true ∧
            ∃ place, (term, place) ∈ f.placedTerms ∧
              position = startAfter name start before + place := by
        rintro _ hposition rfl
        obtain ⟨before, f, after, rfl, hterms, place, hplace, hat⟩ := ih hposition
        refine ⟨first :: before, f, after, rfl, hterms, place, hplace, ?_⟩
        rw [hat, ← startAfter_append, List.singleton_append]
      rw [positionsFrom] at h
      split at h
      · rename_i hterms
        rcases List.mem_append.mp h with hown | hbehind
        · obtain ⟨entry, hentry, rfl⟩ := List.mem_map.mp hown
          obtain ⟨hmem, heq⟩ := List.mem_filter.mp hentry
          exact ⟨[], first, rest, rfl, hterms, entry.2, by rwa [← beq_iff_eq.mp heq], rfl⟩
        · exact hrest hbehind (by simp [startAfter, hterms])
      · rename_i hterms
        exact hrest h (by simp [startAfter, hterms])

/-- The positions of a term in an instance, counted from where the instance begins. -/
theorem mem_positionsOf_singleton (hterms : f.hasTermsOf name = true) {place : Nat} :
    place ∈ positionsOf [f] name term ↔ (term, place) ∈ f.placedTerms := by
  simp [positionsOf, positionsFrom, hterms]

/-- The positions of a term are those before an instance, those in it, and those behind it. -/
theorem positionsOf_instance (hterms : f.hasTermsOf name = true) :
    positionsOf (before ++ f :: after) name term
      = positionsFrom name term 0 before ++
        ((positionsOf [f] name term).map (startAfter name 0 before + ·) ++
          positionsFrom name term
            (startAfter name 0 before + f.lastPosition + 1 + positionGap) after) := by
  simp [positionsOf, positionsFrom_append, positionsFrom, hterms, Function.comp_def]

/-! ### Steps within an instance -/

/-- From term to term a phrase goes no further than the gap between two instances. -/
def Narrow (slop : Nat) (terms : List (String × Nat)) : Prop :=
  terms.IsChain fun a b => max (b.2 - a.2) 1 + slop ≤ positionGap

/-- The terms of a phrase with their positions in a document. -/
def phrasePlaces (fields : List AnalyzedField) (name : String) (terms : List (String × Nat)) :
    List TermPositions :=
  terms.map fun entry => ⟨positionsOf fields name entry.1, entry.2⟩

section Instance

variable (hbefore : ∀ other ∈ before, other.hasTermsOf name = true → other.InOrder)
  (horder : f.InOrder) (hterms : f.hasTermsOf name = true)

include hbefore hterms

/-- What comes soon after a term of an instance is in that instance. -/
theorem mem_instance_of_near {place position : Nat} (hplace : place ≤ f.lastPosition)
    (hposition : position ∈ positionsOf (before ++ f :: after) name term)
    (hlt : startAfter name 0 before + place < position)
    (hle : position ≤ startAfter name 0 before + place + positionGap) :
    ∃ next, (term, next) ∈ f.placedTerms ∧ position = startAfter name 0 before + next := by
  rw [positionsOf_instance hterms] at hposition
  rcases List.mem_append.mp hposition with hearly | hposition
  · have := positionsFrom_lt hbefore hearly
    omega
  rcases List.mem_append.mp hposition with hown | hlate
  · obtain ⟨next, hnext, rfl⟩ := List.mem_map.mp hown
    exact ⟨next, (mem_positionsOf_singleton hterms).mp hnext, rfl⟩
  · have := le_of_mem_positionsFrom hlate
    omega

/-- From a term of an instance, the search takes what it takes in the instance alone. -/
theorem taken?_instance {slop place offset : Nat} {entry : String × Nat}
    (hplace : place ≤ f.lastPosition) (hnarrow : max (entry.2 - offset) 1 + slop ≤ positionGap) :
    (positionsOf (before ++ f :: after) name entry.1).find? (fun p =>
        startAfter name 0 before + place < p &&
          p ≤ startAfter name 0 before + place + max (entry.2 - offset) 1 + slop)
      = ((positionsOf [f] name entry.1).find? fun p =>
        place < p && p ≤ place + max (entry.2 - offset) 1 + slop).map
          (startAfter name 0 before + ·) := by
  have hearly : (positionsFrom name entry.1 0 before).find? (fun p =>
      startAfter name 0 before + place < p &&
        p ≤ startAfter name 0 before + place + max (entry.2 - offset) 1 + slop) = none := by
    refine List.find?_eq_none.mpr fun p hp => ?_
    have := positionsFrom_lt hbefore hp
    simp only [Bool.and_eq_true, decide_eq_true_eq]
    omega
  have hlate : (positionsFrom name entry.1
      (startAfter name 0 before + f.lastPosition + 1 + positionGap) after).find? (fun p =>
      startAfter name 0 before + place < p &&
        p ≤ startAfter name 0 before + place + max (entry.2 - offset) 1 + slop) = none := by
    refine List.find?_eq_none.mpr fun p hp => ?_
    have := le_of_mem_positionsFrom hp
    simp only [Bool.and_eq_true, decide_eq_true_eq]
    omega
  rw [positionsOf_instance hterms, List.find?_append, hearly, Option.none_or, List.find?_append,
    hlate, Option.or_none, List.find?_map]
  congr 2
  funext p
  simp only [Function.comp_apply, Nat.add_assoc, Nat.add_lt_add_iff_left, Nat.add_le_add_iff_left]

include horder

/--
The search for the terms that follow a term of an instance is the search in that instance alone.
The induction is on these terms; what carries it is that each one taken is in the instance again.
-/
theorem followsWithin_instance {slop : Nat} {rest : List (String × Nat)} :
    ∀ {first : String × Nat} {place : Nat}, Narrow slop (first :: rest) → place ≤ f.lastPosition →
      followsWithin slop (startAfter name 0 before + place) first.2
          (phrasePlaces (before ++ f :: after) name rest)
        = followsWithin slop place first.2 (phrasePlaces [f] name rest) := by
  induction rest with
  | nil => exact fun _ _ => rfl
  | cons entry rest ih =>
      intro first place hnarrow hplace
      obtain ⟨hstep, hothers⟩ := List.isChain_cons_cons.mp hnarrow
      simp only [phrasePlaces, List.map_cons, followsWithin]
      rw [taken?_instance hbefore hterms hplace hstep]
      cases hfind : (positionsOf [f] name entry.1).find? fun p =>
          place < p && p ≤ place + max (entry.2 - first.2) 1 + slop with
      | none => rfl
      | some next =>
          have hnext := (mem_positionsOf_singleton hterms).mp (List.mem_of_find?_eq_some hfind)
          exact ih hothers (AnalyzedField.le_lastPosition horder hnext)

/-- Positions that are within reach of each other one by one are all in one instance. -/
theorem chosen_within_instance {slop : Nat} {rest : List (String × Nat)} :
    ∀ {first : String × Nat} {place : Nat} {chosen : List Nat}, Narrow slop (first :: rest) →
      place ≤ f.lastPosition →
      List.Forall₂ (fun places position => position ∈ places.positions)
        (phrasePlaces (before ++ f :: after) name rest) chosen →
      ((⟨positionsOf (before ++ f :: after) name first.1, first.2⟩,
          startAfter name 0 before + place) ::
        (phrasePlaces (before ++ f :: after) name rest).zip chosen).IsChain
          (TermPositions.Reaches slop) →
      List.Forall₂ (fun entry position => ∃ place, (entry.1, place) ∈ f.placedTerms ∧
        position = startAfter name 0 before + place) rest chosen := by
  induction rest with
  | nil =>
      intro _ _ chosen _ _ hchosen _
      cases hchosen
      exact .nil
  | cons entry rest ih =>
      intro first place chosen hnarrow hplace hchosen hchain
      obtain ⟨position, others, hposition, hothers, rfl⟩ := List.forall₂_cons_left_iff.mp hchosen
      obtain ⟨hreach, htail⟩ := List.isChain_cons_cons.mp hchain
      obtain ⟨hstep, hnarrow⟩ := List.isChain_cons_cons.mp hnarrow
      obtain ⟨hlt, hle⟩ := hreach
      simp only at hlt hle hposition
      obtain ⟨next, hnext, rfl⟩ := mem_instance_of_near hbefore hterms hplace hposition
        (by omega) (by omega)
      exact .cons ⟨next, hnext, rfl⟩
        (ih hnarrow (AnalyzedField.le_lastPosition horder hnext) hothers htail)

end Instance

/-! ### Documents -/

/-- A document has a phrase exactly if one instance of the field has it on its own. -/
theorem satisfies_phrase_iff_instance
    (horder : ∀ f ∈ fields, f.hasTermsOf name = true → f.InOrder) {slop : Nat}
    {terms : List (String × Nat)} (hnarrow : Narrow slop terms) :
    satisfies fields (.phrase name terms slop) = true ↔
      ∃ f ∈ fields, f.hasTermsOf name = true ∧ satisfies [f] (.phrase name terms slop) = true := by
  show matchesPhrase slop (phrasePlaces fields name terms) = true ↔
    ∃ f ∈ fields, f.hasTermsOf name = true ∧
      matchesPhrase slop (phrasePlaces [f] name terms) = true
  cases terms with
  | nil => simp [phrasePlaces, matchesPhrase]
  | cons first rest =>
      -- The search that starts at a place of an instance is the same in both.
      have hsame : ∀ {before after : List AnalyzedField} {f : AnalyzedField},
          fields = before ++ f :: after → f.hasTermsOf name = true → ∀ {place : Nat},
          (first.1, place) ∈ f.placedTerms →
          followsWithin slop (startAfter name 0 before + place) first.2
              (phrasePlaces fields name rest)
            = followsWithin slop place first.2 (phrasePlaces [f] name rest) := by
        rintro before after f rfl hterms place hplace
        have hown := horder f (List.mem_append_right _ List.mem_cons_self) hterms
        exact followsWithin_instance
          (fun other hother => horder other (List.mem_append_left _ hother)) hown hterms hnarrow
          (AnalyzedField.le_lastPosition hown hplace)
      simp only [phrasePlaces, List.map_cons, matchesPhrase_cons]
      constructor
      · rintro ⟨start, hstart, hfollows⟩
        obtain ⟨before, f, after, heq, hterms, place, hplace, rfl⟩ := exists_instance hstart
        refine ⟨f, heq ▸ List.mem_append_right _ List.mem_cons_self, hterms, place,
          (mem_positionsOf_singleton hterms).mpr hplace, ?_⟩
        exact (hsame heq hterms hplace).symm.trans hfollows
      · rintro ⟨f, hf, hterms, place, hplace, hfollows⟩
        obtain ⟨before, after, heq⟩ := List.append_of_mem hf
        have hown := (mem_positionsOf_singleton hterms).mp hplace
        refine ⟨startAfter name 0 before + place, ?_, (hsame heq hterms hown).trans hfollows⟩
        rw [heq, positionsOf_instance hterms]
        exact List.mem_append_right _
          (List.mem_append_left _ (List.mem_map_of_mem hplace))

/-- The places of a choice for a phrase lie in one instance. -/
theorem exists_instance_of_choice
    (horder : ∀ f ∈ fields, f.hasTermsOf name = true → f.InOrder) {slop : Nat}
    {terms : List (String × Nat)} (hnarrow : Narrow slop terms) (hne : terms ≠ [])
    {chosen : List Nat} (h : IsChoice slop (phrasePlaces fields name terms) chosen) :
    ∃ before f after, fields = before ++ f :: after ∧ f.hasTermsOf name = true ∧
      List.Forall₂ (fun entry position => ∃ place, (entry.1, place) ∈ f.placedTerms ∧
        position = startAfter name 0 before + place) terms chosen := by
  obtain ⟨first, rest, rfl⟩ := List.exists_cons_of_ne_nil hne
  obtain ⟨hmem, hreaches⟩ := h
  obtain ⟨start, others, hstart, hothers, rfl⟩ := List.forall₂_cons_left_iff.mp hmem
  obtain ⟨before, f, after, rfl, hterms, place, hplace, rfl⟩ := exists_instance hstart
  have hown := horder f (List.mem_append_right _ List.mem_cons_self) hterms
  refine ⟨before, f, after, rfl, hterms, .cons ⟨place, hplace, rfl⟩ ?_⟩
  exact chosen_within_instance
    (fun other hother => horder other (List.mem_append_left _ hother)) hown hterms hnarrow
    (AnalyzedField.le_lastPosition hown hplace) hothers hreaches

/--
**A phrase is found only within one instance of its field.**  Take an index with any history and a
live document in it, which was analysed with any analyzers, and a phrase whose terms are so far
apart at most that their distance and the slop do not exceed the gap between two instances.  The
document is found exactly if one of the instances has the phrase on its own, as if the document had
nothing else.  However positions of the terms are chosen within reach of each other, the ones that
the search takes among them, they are all places of terms of one and the same instance.
-/
theorem matching_within_instance {history : List Happening} {doc : DocId} {analyzers : Analyzers}
    {document : Document} {fields : List AnalyzedField}
    (hanalyze : analyze analyzers document = .ok fields)
    (hdoc : (documentsOf history)[doc]? = some fields) (hlive : doc ∈ (ofHistory history).live)
    {name : String} {terms : List (String × Nat)} {slop : Nat} (hnarrow : Narrow slop terms) :
    (doc ∈ (ofHistory history).matching (.phrase name terms slop) ↔
      ∃ f ∈ fields, f.hasTermsOf name = true ∧ satisfies [f] (.phrase name terms slop) = true) ∧
    ∀ chosen, terms ≠ [] → IsChoice slop (phrasePlaces fields name terms) chosen →
      ∃ before f after, fields = before ++ f :: after ∧ f.hasTermsOf name = true ∧
        List.Forall₂ (fun entry position => ∃ place, (entry.1, place) ∈ f.placedTerms ∧
          position = startAfter name 0 before + place) terms chosen := by
  have horder : ∀ f ∈ fields, f.hasTermsOf name = true → f.InOrder := fun f hf _ =>
    AnalyzedField.inOrder_of_tokens (inOrder_tokens_of_analyze hanalyze f hf)
  refine ⟨?_, fun chosen hne hchosen => exists_instance_of_choice horder hnarrow hne hchosen⟩
  rw [mem_matching_ofHistory hdoc hlive]
  exact satisfies_phrase_iff_instance horder hnarrow

/-- The notes of an errand: one ends in a frequent word, one is empty, one is an exact term. -/
def scattered : Document :=
  [.text "note" "Walk the" "english", .text "note" "" "english", .term "note" "home"]

/-- The notes with their tokens. -/
def scatteredFields : List AnalyzedField :=
  [⟨.text "note" "Walk the" "english", Analysis.Analyzer.english.analyze "Walk the"⟩,
    ⟨.text "note" "" "english", Analysis.Analyzer.english.analyze ""⟩,
    ⟨.term "note" "home", []⟩]

/-- A note that has both words. -/
def walkHome : AnalyzedField :=
  ⟨.text "note" "Walking the dog home" "english",
    Analysis.Analyzer.english.analyze "Walking the dog home"⟩

/-- The scattered notes alone, and in front of the one that has both words. -/
def errands : List Happening :=
  [.inserted scatteredFields, .inserted (scatteredFields ++ [walkHome])]

/--
The two words with the largest slop that keeps them in one note: the notes where they are
scattered do not have the phrase, and the note with both has it behind the others as well.
-/
theorem matching_within_instance_errands :
    let terms := [("walk", 0), ("home", 2)]
    analyze Analyzers.builtIn scattered = .ok scatteredFields ∧ Narrow 98 terms ∧
      0 ∉ (ofHistory errands).matching (.phrase "note" terms 98) ∧
      1 ∈ (ofHistory errands).matching (.phrase "note" terms 98) := by
  intro terms
  have hanalyze : analyze Analyzers.builtIn scattered = .ok scatteredFields := rfl
  have hboth : analyze Analyzers.builtIn
      (scattered ++ [.text "note" "Walking the dog home" "english"])
        = .ok (scatteredFields ++ [walkHome]) := rfl
  have hlive : (ofHistory errands).live = [0, 1] := by decide +kernel
  have hnarrow : Narrow 98 terms := by simp [Narrow, terms, positionGap]
  refine ⟨hanalyze, hnarrow, ?_, ?_⟩
  · rw [(matching_within_instance hanalyze rfl (by rw [hlive]; decide) hnarrow).1]
    decide +kernel
  · rw [(matching_within_instance hboth rfl (by rw [hlive]; decide) hnarrow).1]
    exact ⟨walkHome, by simp, rfl, by decide +kernel⟩

end DocIndex.InvertedIndex
