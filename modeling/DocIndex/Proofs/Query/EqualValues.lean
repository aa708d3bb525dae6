/-
Equal values are looked up alike, the two zeros apart.

Where clauses on a field are merged, a value is dropped if an equal one is listed.  That costs
nothing if both find the same documents.  Equal values are the same value, but for times of one
instant that are written with different offsets, and for the two zeros.  Times are looked up in
UTC.  Zeros are looked up as numbers where a field holds numbers, and numbers cannot tell them
apart; elsewhere they are looked up by their texts, of which one has a sign.  An analyzer that
cuts words out of a text leaves the sign out, so the zeros are told apart only where texts are
kept whole.
-/
import DocIndex.Proofs.Index.Evaluation
import DocIndex.Proofs.Query.Meaning
import DocIndex.Proofs.Query.MixedNumbers
import DocIndex.Proofs.Query.OwnText
import DocIndex.Proofs.Table
import DocIndex.Proofs.Text.Numerals

namespace DocIndex

/-- A number of the same value has the same place among all numbers. -/
theorem Numeric.order?_of_same {x y : Double} (h : x.same y = true) (n : Numeric) :
    n.order? (.double x) = n.order? (.double y) := by
  have hplace : x.isNaN = y.isNaN ∧ x.orderKey = y.orderKey := by
    rcases Double.eq_or_zeros_of_same h with rfl | ⟨hx, hy, -⟩
    · exact ⟨rfl, rfl⟩
    · simp [Double.isNaN, Double.orderKey, hx, hy]
  have hdouble : ∀ m : Double, m.order? x = m.order? y := fun m => by
    rw [Double.order?, Double.order?, hplace.1, hplace.2]
  cases n <;> exact hdouble _

/-! ### Analysed zeros -/

namespace Analysis

/-- The token, wherever it stands in its text. -/
def Token.atStart (t : Token) : Token := { t with offset := 0 }

/-- Filters do not look at the places of tokens. -/
theorem Filter.apply_atStart (filter : Filter) (tokens : List Token) :
    filter.apply (tokens.map Token.atStart) = (filter.apply tokens).map Token.atStart := by
  have hwords : ∀ change : String → String, mapWords change (tokens.map Token.atStart)
      = (mapWords change tokens).map Token.atStart := by
    intro change
    simp only [mapWords, List.map_map]
    refine List.map_congr_left fun t _ => ?_
    by_cases hword : t.kind = .word <;> simp [Token.atStart, hword]
  cases filter with
  | lowercase => exact hwords foldCase
  | stopWords words =>
      simp only [Filter.apply, List.filter_map]
      rfl
  | stem => exact hwords Stem.stem

theorem foldl_apply_atStart (filters : List Filter) (tokens : List Token) :
    filters.foldl (fun tokens filter => filter.apply tokens) (tokens.map Token.atStart)
      = (filters.foldl (fun tokens filter => filter.apply tokens) tokens).map Token.atStart := by
  induction filters generalizing tokens with
  | nil => rfl
  | cons filter rest ih => rw [List.foldl_cons, filter.apply_atStart, ih, List.foldl_cons]

theorem relativeTerms_atStart (tokens : List Token) :
    relativeTerms (tokens.map Token.atStart) = relativeTerms tokens := by
  cases tokens with
  | nil => rfl
  | cons first rest =>
      simp only [relativeTerms, List.map_cons, List.map_map]
      rfl

/-- The words of the zeros are the same. -/
theorem words_zeros (maxLength : Nat) :
    ((Tokenizer.words maxLength).tokens "-0").map Token.atStart
      = ((Tokenizer.words maxLength).tokens "0").map Token.atStart := by
  have hplain : Text.words "0".toList = [(0, ['0'])] := by decide +kernel
  have hsigned : Text.words "-0".toList = [(1, ['0'])] := by decide +kernel
  simp only [Tokenizer.tokens, hplain, hsigned, List.filter_cons, List.filter_nil]
  split <;> rfl

/-- Filters keep the text of a zero, or drop it. -/
theorem foldl_zero (filters : List Filter) {text : String} (htext : text = "0" ∨ text = "-0") :
    filters.foldl (fun tokens filter => filter.apply tokens) [⟨text, 0, 0, .word⟩] = [] ∨
      filters.foldl (fun tokens filter => filter.apply tokens) [⟨text, 0, 0, .word⟩]
        = [⟨text, 0, 0, .word⟩] := by
  have hfold : Filter.foldCase text = text := by rcases htext with rfl | rfl <;> decide +kernel
  have hstem : Stem.stem text = text := by rcases htext with rfl | rfl <;> decide +kernel
  have hempty : ∀ filters : List Filter,
      filters.foldl (fun tokens filter => filter.apply tokens) [] = [] := by
    intro filters
    induction filters with
    | nil => rfl
    | cons filter rest ih => cases filter <;> exact ih
  induction filters with
  | nil => exact .inr rfl
  | cons filter rest ih =>
      rw [List.foldl_cons]
      cases filter with
      | lowercase => simpa [Filter.apply, Filter.mapWords, hfold] using ih
      | stopWords words =>
          by_cases hdrop : words.contains text = true
          · have hnone : (Filter.stopWords words).apply [⟨text, 0, 0, .word⟩] = [] := by
              simp [Filter.apply, List.contains_iff_mem.mp hdrop]
            rw [hnone]
            exact .inl (hempty rest)
          · have hsame : (Filter.stopWords words).apply [⟨text, 0, 0, .word⟩]
                = [⟨text, 0, 0, .word⟩] := by
              simp [Filter.apply, List.contains_iff_mem.not.mp hdrop]
            rw [hsame]
            exact ih
      | stem => simpa [Filter.apply, Filter.mapWords, hstem] using ih

/-- A zero that is kept whole is its own term, or none. -/
theorem analyze_zero {analyzer : Analyzer} (hwhole : analyzer.tokenizer = .whole) {text : String}
    (htext : text = "0" ∨ text = "-0") :
    analyzer.analyze text = [] ∨ analyzer.analyze text = [⟨text, 0, 0, .word⟩] := by
  have htokens : analyzer.tokenizer.tokens text = [⟨text, 0, 0, .word⟩] := by
    rw [hwhole]
    rcases htext with rfl | rfl <;> rfl
  rw [Analyzer.analyze, htokens]
  exact foldl_zero analyzer.filters htext

end Analysis

open DocumentBuilder (standard)

namespace Query

/-! ### Lookups that find the same -/

/-- Two lookups that find the same documents in every index, or the same failure. -/
inductive FindsAlike : Except Error Lookup → Except Error Lookup → Prop where
  | found {a b : Lookup}
      (h : ∀ (index : InvertedIndex) (doc : DocId),
        doc ∈ index.matching a ↔ doc ∈ index.matching b) :
      FindsAlike (.ok a) (.ok b)
  | failed {e : Error} : FindsAlike (.error e) (.error e)

namespace FindsAlike

variable {x y z : Except Error Lookup} {a b : Lookup}

theorem refl (x : Except Error Lookup) : FindsAlike x x := by
  cases x with
  | error e => exact .failed
  | ok a => exact .found fun _ _ => Iff.rfl

theorem symm (h : FindsAlike x y) : FindsAlike y x := by
  cases h with
  | found h => exact .found fun index doc => (h index doc).symm
  | failed => exact .failed

theorem trans (h : FindsAlike x y) (hnext : FindsAlike y z) : FindsAlike x z := by
  cases h with
  | found h =>
      cases hnext with
      | found hnext => exact .found fun index doc => (h index doc).trans (hnext index doc)
  | failed => exact hnext

/-- An index in which one of two lookups finds a document and the other does not. -/
theorem not_of_found {index : InvertedIndex} {doc : DocId} (ha : doc ∈ index.matching a)
    (hb : doc ∉ index.matching b) : ¬FindsAlike (.ok a) (.ok b) := by
  intro h
  cases h with
  | found h => exact hb ((h index doc).mp ha)

/-- Numbers of one value are found in the same documents. -/
theorem numbers (field : String) {x y : Double} (h : x.same y = true) :
    FindsAlike (.ok (.numbers field (.exactly (.double x))))
      (.ok (.numbers field (.exactly (.double y)))) := by
  have htest : (Interval.exactly (Numeric.double x)).contains Numeric.order?
      = (Interval.exactly (Numeric.double y)).contains Numeric.order? := by
    funext n
    rw [Bool.eq_iff_iff, contains_exactly_iff, contains_exactly_iff, Numeric.order?_of_same h]
  have hevaluate : ∀ (index : InvertedIndex) (bound : Numeric),
      index.evaluate (.numbers field (.exactly bound))
        = index.withNumber field ((Interval.exactly bound).contains Numeric.order?) :=
    fun _ _ => rfl
  refine .found fun index doc => ?_
  rw [InvertedIndex.mem_matching, InvertedIndex.mem_matching, hevaluate, hevaluate, htest]

/-- An alternative that is found alike earlier can be left out. -/
theorem anyOf_left_out {before : List Lookup} (ha : a ∈ before)
    (h : ∀ (index : InvertedIndex) (doc : DocId),
      doc ∈ index.matching a ↔ doc ∈ index.matching b) (after : List Lookup) :
    FindsAlike (.ok (.anyOf (before ++ b :: after))) (.ok (.anyOf (before ++ after))) := by
  have hmatching : ∀ (index : InvertedIndex) (doc : DocId) (lookups : List Lookup),
      doc ∈ index.matching (.anyOf lookups) ↔ ∃ lookup ∈ lookups, doc ∈ index.matching lookup := by
    intro index doc lookups
    simp only [InvertedIndex.mem_matching, InvertedIndex.mem_evaluate_anyOf, ← and_assoc,
      exists_and_right]
  refine .found fun index doc => ?_
  rw [hmatching, hmatching]
  constructor
  · rintro ⟨lookup, hmem, hdoc⟩
    rcases List.mem_append.mp hmem with hmem | hmem
    · exact ⟨lookup, List.mem_append_left _ hmem, hdoc⟩
    · rcases List.mem_cons.mp hmem with rfl | hmem
      · exact ⟨a, List.mem_append_left _ ha, (h index doc).mpr hdoc⟩
      · exact ⟨lookup, List.mem_append_right _ hmem, hdoc⟩
  · rintro ⟨lookup, hmem, hdoc⟩
    exact ⟨lookup, ((List.sublist_cons_self b after).append_left before).mem hmem, hdoc⟩

end FindsAlike

/-- The index of one document, with one term in one field. -/
def holding (field term : String) : InvertedIndex :=
  (InvertedIndex.empty.insert [⟨.term field term, []⟩]).1

theorem mem_matching_holding {field term other : String} :
    0 ∈ (holding field term).matching (.term field other) ↔ other = term := by
  have hterms : (holding field term).terms = [(field, [(term, [⟨0, 1, [0]⟩])])] := rfl
  have hevaluate : (holding field term).evaluate (.term field other)
      = (((holding field term).postings? field other).map PostingList.docs).getD [] := rfl
  have hlive : (0 : DocId) ∈ (holding field term).live := by
    have hall : (holding field term).live = [0] := rfl
    simp [hall]
  rw [InvertedIndex.mem_matching, and_iff_left hlive, hevaluate, InvertedIndex.postings?, hterms]
  by_cases hother : other = term
  · subst hother
    simp [Table.find?, PostingList.docs, DocSet.ofList, sortedDistinct, insertSorted]
  · have hcompare : compare other term ≠ .eq := fun heq =>
      hother (Std.LawfulEqOrd.eq_of_compare heq)
    cases hfind : compare other term <;> simp_all [Table.find?]

/-- A term is looked up unlike another one, and unlike nothing. -/
theorem not_findsAlike_term {field term : String} {b : Lookup}
    (hb : b = .anyOf [] ∨ ∃ other, b = .term field other ∧ other ≠ term) :
    ¬FindsAlike (.ok (.term field term)) (.ok b) := by
  refine FindsAlike.not_of_found (mem_matching_holding.mpr rfl) ?_
  rcases hb with rfl | ⟨other, rfl, hne⟩
  · rw [InvertedIndex.mem_matching, InvertedIndex.mem_evaluate_anyOf]
    simp
  · exact fun hfound => hne (mem_matching_holding.mp hfound)

/-! ### The zeros -/

/-- Two numbers that are zero, of which one has a sign. -/
def Value.OppositeZeros : Value → Value → Prop
  | .number x, .number y => x.magnitude = 0 ∧ y.magnitude = 0 ∧ x.negative ≠ y.negative
  | _, _ => False

/-- The text of a zero, with or without its sign. -/
def zeroText (negative : Bool) : String := if negative then "-0" else "0"

theorem zeroText_eq (negative : Bool) : zeroText negative = "0" ∨ zeroText negative = "-0" := by
  cases negative
  · exact .inl rfl
  · exact .inr rfl

theorem zeroText_ne (negative : Bool) : zeroText (!negative) ≠ zeroText negative := by
  cases negative <;> decide

theorem write_zero {x : Double} (h : x.magnitude = 0) :
    (Value.number x).write = zeroText x.negative := by
  have hzero : x = .ofMagnitude x.negative 0 :=
    Double.eq_of_parts (by cases x.negative <;> decide) (by rw [h]; cases x.negative <;> decide)
  rw [hzero]
  cases x.negative <;> decide +kernel

namespace PlanContext

variable {context : PlanContext} {field : String} {scope : Scope}

/-- Whether zeros are looked up in a field by texts that are kept whole, sign and all. -/
def TellsSigns (context : PlanContext) (field : String) (scope : Scope) : Prop :=
  (∀ kind, context.catalog.resolve field scope ≠ .numeric kind) ∧
    ∀ name, context.catalog.analyzer? field scope = some name →
      ∃ analyzer, Table.find? context.analyzers name = some analyzer ∧
        analyzer.tokenizer = .whole ∧ ∃ negative, analyzer.analyze (zeroText negative) ≠ []

theorem analysed_of_find? {name text : String} {analyzer : Analysis.Analyzer}
    (hname : context.catalog.analyzer? field scope = some name)
    (hfind : Table.find? context.analyzers name = some analyzer) :
    context.analysed field text 0 scope = .ok
      (InvertedIndex.lookupOf field (Analysis.relativeTerms (analyzer.analyze text)) 0) := by
  refine analysed_eq (askedTerms_of_analyzer? hname ?_) 0
  rw [Analyzers.terms?, hfind, Option.map_some]

/-- Where words are cut out of texts, the zeros have the same terms. -/
theorem relativeTerms_words {analyzer : Analysis.Analyzer} {maxLength : Nat}
    (hwords : analyzer.tokenizer = .words maxLength) (negative : Bool) :
    Analysis.relativeTerms (analyzer.analyze (zeroText !negative))
      = Analysis.relativeTerms (analyzer.analyze (zeroText negative)) := by
  have hzeros : Analysis.relativeTerms (analyzer.analyze "-0")
      = Analysis.relativeTerms (analyzer.analyze "0") := by
    rw [← Analysis.relativeTerms_atStart, ← Analysis.relativeTerms_atStart (analyzer.analyze "0")]
    simp only [Analysis.Analyzer.analyze, ← Analysis.foldl_apply_atStart, hwords,
      Analysis.words_zeros]
  cases negative
  · exact hzeros
  · exact hzeros.symm

/-- Where texts are kept whole, a zero is looked up as its text, or as nothing. -/
theorem lookupOf_whole {analyzer : Analysis.Analyzer} (hwhole : analyzer.tokenizer = .whole)
    (negative : Bool) :
    InvertedIndex.lookupOf field
      (Analysis.relativeTerms (analyzer.analyze (zeroText negative))) 0
        = if analyzer.analyze (zeroText negative) = [] then .anyOf []
          else .term field (zeroText negative) := by
  rcases Analysis.analyze_zero hwhole (zeroText_eq negative) with hnone | hone
  · rw [hnone]
    rfl
  · rw [hone]
    rfl

/-- The texts of the zeros are told apart exactly where they are kept whole. -/
theorem findsAlike_analysed_zeros
    (hresolve : ∀ kind, context.catalog.resolve field scope ≠ .numeric kind) (negative : Bool) :
    FindsAlike (context.analysed field (zeroText negative) 0 scope)
      (context.analysed field (zeroText !negative) 0 scope) ↔ ¬context.TellsSigns field scope := by
  cases hname : context.catalog.analyzer? field scope with
  | none =>
      have hterm : ∀ text, context.analysed field text 0 scope = .ok (.term field text) :=
        fun text => analysed_eq (askedTerms_of_none hname) 0
      have htells : context.TellsSigns field scope := by
        refine ⟨hresolve, fun name hsome => ?_⟩
        rw [hname] at hsome
        cases hsome
      rw [hterm, hterm]
      exact iff_of_false (not_findsAlike_term (.inr ⟨_, rfl, zeroText_ne negative⟩))
        (not_not_intro htells)
  | some name =>
      have hknown : context.TellsSigns field scope ↔ ∃ analyzer,
          Table.find? context.analyzers name = some analyzer ∧
            analyzer.tokenizer = .whole ∧
              ∃ negative, analyzer.analyze (zeroText negative) ≠ [] := by
        simp [TellsSigns, hresolve, hname]
      rw [hknown]
      cases hfind : Table.find? context.analyzers name with
      | none =>
          have hfails : ∀ text, context.analysed field text 0 scope
              = .error (.unknownAnalyzer name) := by
            intro text
            simp only [analysed, textTerms, hname, hfind]
            rfl
          rw [hfails, hfails]
          exact iff_of_true .failed (by simp)
      | some analyzer =>
          rw [analysed_of_find? hname hfind, analysed_of_find? hname hfind]
          simp only [Option.some.injEq, exists_eq_left']
          cases htokenizer : analyzer.tokenizer with
          | words maxLength =>
              rw [relativeTerms_words htokenizer]
              exact iff_of_true (.refl _) (by simp)
          | whole =>
              rw [lookupOf_whole htokenizer, lookupOf_whole htokenizer]
              by_cases hfirst : analyzer.analyze (zeroText negative) = []
              · by_cases hsecond : analyzer.analyze (zeroText !negative) = []
                · rw [if_pos hfirst, if_pos hsecond]
                  refine iff_of_true (.refl _) ?_
                  rintro ⟨-, sign, hkept⟩
                  rcases Bool.eq_or_eq_not sign negative with rfl | rfl
                  · exact hkept hfirst
                  · exact hkept hsecond
                · rw [if_pos hfirst, if_neg hsecond]
                  exact iff_of_false (fun h => not_findsAlike_term (.inl rfl) h.symm)
                    (not_not_intro ⟨rfl, _, hsecond⟩)
              · rw [if_neg hfirst]
                refine iff_of_false (not_findsAlike_term ?_) (not_not_intro ⟨rfl, _, hfirst⟩)
                split
                · exact .inl rfl
                · exact .inr ⟨_, rfl, zeroText_ne negative⟩

/-- **Equal values find the same documents, unless they are zeros whose signs are told apart.** -/
theorem findsAlike_exact_iff {v w : Value} (h : v.same w = true) :
    FindsAlike (context.exact field v scope) (context.exact field w scope) ↔
      ¬(v.OppositeZeros w ∧ context.TellsSigns field scope) := by
  have hequal : context.exact field v scope = context.exact field w scope → ¬v.OppositeZeros w →
      (FindsAlike (context.exact field v scope) (context.exact field w scope) ↔
        ¬(v.OppositeZeros w ∧ context.TellsSigns field scope)) := fun heq hzeros =>
    iff_of_true (heq ▸ .refl _) fun hboth => hzeros hboth.1
  have hregular : v.isRegular = true → w.isRegular = true →
      context.exact field v scope = context.exact field w scope := fun hv hw =>
    Value.exact_eq_of_same context hv hw h field scope
  cases v <;> cases w <;> simp only [Value.same, Bool.false_eq_true] at h
  case number.number x y =>
    rcases Double.eq_or_zeros_of_same h with rfl | ⟨hx, hy, hsign⟩
    · exact hequal rfl fun hzeros => hzeros.2.2 rfl
    · have hzeros : (Value.number x).OppositeZeros (.number y) := ⟨hx, hy, hsign⟩
      have hexact : ∀ z : Double, context.exact field (.number z) scope
          = context.numberLookup field (.number z) (fun _ => .double z) scope := fun _ => rfl
      rw [hexact, hexact, and_iff_right hzeros]
      by_cases hnumeric : ∃ kind, context.catalog.resolve field scope = .numeric kind
      · obtain ⟨kind, hkind⟩ := hnumeric
        simp only [numberLookup, hkind]
        exact iff_of_true (.numbers field h) fun htells => htells.1 kind hkind
      · have hresolve := not_exists.mp hnumeric
        have hlookup : ∀ z : Double,
            context.numberLookup field (.number z) (fun _ => .double z) scope
              = context.analysed field (Value.number z).write 0 scope := by
          intro z
          unfold numberLookup
          split
          · exact absurd ‹_› (hresolve _)
          · rfl
        rw [hlookup, hlookup, write_zero hx, write_zero hy, Bool.eq_not.mpr (Ne.symm hsign)]
        exact findsAlike_analysed_zeros hresolve _
  case list.list => exact hequal rfl id
  all_goals exact hequal (hregular rfl rfl) id

/-! ### Values that are dropped -/

section Dropping

variable {op : Operator} {kept rest : List Value} {lookups : List Lookup} {value : Value}

theorem anyOf_eq (values : List Value) : context.anyOf field op (.list values) scope
    = (values.mapM fun v => context.exact field v scope).map Lookup.anyOf := by
  have hbind : context.anyOf field op (.list values) scope
      = (values.mapM fun v => context.exact field v scope) >>= fun lookups =>
          pure (Lookup.anyOf lookups) := rfl
  rw [hbind]
  cases values.mapM fun v => context.exact field v scope <;> rfl

/-- A value that cannot be looked up fails for the whole list, if those before it can. -/
theorem anyOf_of_error (hkept : kept.mapM (fun v => context.exact field v scope) = .ok lookups)
    {e : Error} (hvalue : context.exact field value scope = .error e) (rest : List Value) :
    context.anyOf field op (.list (kept ++ value :: rest)) scope = .error e := by
  rw [anyOf_eq, List.mapM_append, hkept, List.mapM_cons, hvalue]
  rfl

/-- A value that is found alike earlier in a list can be left out. -/
theorem anyOf_of_findsAlike {other : Value}
    (hkept : kept.mapM (fun v => context.exact field v scope) = .ok lookups) (hother : other ∈ kept)
    (h : FindsAlike (context.exact field other scope) (context.exact field value scope))
    (rest : List Value) :
    FindsAlike (context.anyOf field op (.list (kept ++ value :: rest)) scope)
      (context.anyOf field op (.list (kept ++ rest)) scope) := by
  obtain ⟨a, ha, hlookup⟩ := (exists_partners (mapM_eq_ok.mp hkept)).1 other hother
  rw [hlookup] at h
  cases hvalue : context.exact field value scope with
  | error e => rw [hvalue] at h; cases h
  | ok b =>
      rw [hvalue] at h
      cases h with
      | found hsame =>
          rw [anyOf_eq, anyOf_eq, List.mapM_append, List.mapM_append, hkept, List.mapM_cons, hvalue]
          cases rest.mapM fun v => context.exact field v scope with
          | error e => exact .failed
          | ok others => exact .anyOf_left_out ha hsame others

theorem exists_foldl_addValue (rest kept : List Value) :
    ∃ more, rest.foldl Tree.addValue kept = kept ++ more := by
  induction rest generalizing kept with
  | nil => exact ⟨[], (List.append_nil kept).symm⟩
  | cons value rest ih =>
      obtain ⟨more, hmore⟩ := ih (Tree.addValue kept value)
      rw [List.foldl_cons, hmore, Tree.addValue]
      split
      · exact ⟨more, rfl⟩
      · exact ⟨value :: more, by rw [List.append_assoc]; rfl⟩

/-- Values are dropped from a list without loss if equal ones are found alike. -/
theorem findsAlike_foldl_addValue
    (hkept : kept.mapM (fun v => context.exact field v scope) = .ok lookups)
    (halike : ∀ v ∈ kept ++ rest, ∀ w ∈ kept ++ rest, v.same w = true →
      FindsAlike (context.exact field v scope) (context.exact field w scope)) :
    FindsAlike (context.anyOf field op (.list (kept ++ rest)) scope)
      (context.anyOf field op (.list (rest.foldl Tree.addValue kept)) scope) := by
  induction rest generalizing kept lookups with
  | nil => rw [List.append_nil]; exact .refl _
  | cons value rest ih =>
      rw [List.foldl_cons, Tree.addValue]
      have hvalue : value ∈ kept ++ value :: rest :=
        List.mem_append_right _ List.mem_cons_self
      by_cases hthere : kept.any (fun v => v.same value) = true
      · rw [if_pos hthere]
        obtain ⟨other, hother, hsame⟩ := List.any_eq_true.mp hthere
        have hfound := halike other (List.mem_append_left _ hother) value hvalue hsame
        refine (anyOf_of_findsAlike hkept hother hfound rest).trans (ih hkept ?_)
        have hsubset : ∀ v ∈ kept ++ rest, v ∈ kept ++ value :: rest := fun v hv =>
          ((List.sublist_cons_self value rest).append_left kept).mem hv
        exact fun v hv w hw => halike v (hsubset v hv) w (hsubset w hw)
      · rw [if_neg hthere]
        cases hlookup : context.exact field value scope with
        | error e =>
            -- Nothing is looked up if one value cannot be, and this one stays in the list.
            obtain ⟨more, hmore⟩ := exists_foldl_addValue rest (kept ++ [value])
            rw [hmore, List.append_assoc, List.singleton_append, anyOf_of_error hkept hlookup,
              anyOf_of_error hkept hlookup]
            exact .failed
        | ok b =>
            have hnext : (kept ++ [value]).mapM (fun v => context.exact field v scope)
                = .ok (lookups ++ [b]) := by
              rw [List.mapM_append, hkept, List.mapM_cons, hlookup]
              rfl
            have hsplit : kept ++ value :: rest = kept ++ [value] ++ rest := by simp
            rw [hsplit] at halike ⊢
            exact ih hnext halike

end Dropping

/-- **Equal values find the same documents in every index, and fail alike, but for two zeros of
opposite signs in a field that tells signs.  So a list loses nothing by dropping a value that it
has an equal one of, if such a field has no opposite zeros in it.** -/
theorem equal_values_findAlike (context : PlanContext) (field : String) (scope : Scope) :
    (∀ v w : Value, v.same w = true →
      (FindsAlike (context.exact field v scope) (context.exact field w scope) ↔
        ¬(v.OppositeZeros w ∧ context.TellsSigns field scope))) ∧
    ∀ (op : Operator) (values : List Value),
      (context.TellsSigns field scope → ∀ v ∈ values, ∀ w ∈ values, ¬v.OppositeZeros w) →
      FindsAlike (context.anyOf field op (.list values) scope)
        (context.anyOf field op (.list (values.foldl Tree.addValue [])) scope) := by
  refine ⟨fun v w => findsAlike_exact_iff, fun op values hzeros => ?_⟩
  have hnone : ([] : List Value).mapM (fun v => context.exact field v scope) = .ok [] := rfl
  refine findsAlike_foldl_addValue hnone fun v hv w hw hsame => ?_
  exact (findsAlike_exact_iff hsame).mpr fun hboth => hzeros hboth.2 v hv w hw hboth.1

/-- Sizes are numbers that need not be whole. -/
def measuredContext : PlanContext :=
  ⟨[("note", [⟨"size", .float, "size", .double, "double", none⟩])], [], ⟨0, 0, 0⟩, 0, 0⟩

/-- The zeros. -/
def zeros : List Value := [.number .zero, .number Double.zero.neg]

/-- The zeros are found alike among numbers, and one of them can be left out. -/
theorem equal_values_findAlike_sizes :
    (Value.number .zero).same (.number Double.zero.neg) = true ∧
      FindsAlike (measuredContext.exact "size" (.number .zero) none)
        (measuredContext.exact "size" (.number Double.zero.neg) none) ∧
      zeros.foldl Tree.addValue [] = [.number .zero] ∧
      FindsAlike (measuredContext.anyOf "size" .oneOf (.list zeros) none)
        (measuredContext.anyOf "size" .oneOf (.list (zeros.foldl Tree.addValue [])) none) := by
  have hsame : (Value.number .zero).same (.number Double.zero.neg) = true := by decide +kernel
  have htells : ¬measuredContext.TellsSigns "size" none := fun h => h.1 .double rfl
  have hequal := equal_values_findAlike measuredContext "size" none
  exact ⟨hsame, (hequal.1 _ _ hsame).mpr fun hboth => htells hboth.2, rfl,
    hequal.2 .oneOf zeros fun h => absurd h htells⟩

/-- A document whose identity is the text of the zero with a sign. -/
def signedRequests : List WriteRequest := [.create (.object [("$id", .text "-0")])]

/-- The edit that it is converted to. -/
def signedEdits : List Edit := ((standard.convert 0 signedRequests).toOption).getD []

/-- Its store is searched. -/
def signedContext : PlanContext :=
  ⟨(standard.storeOf signedEdits).catalog, Analyzers.builtIn, ⟨0, 0, 0⟩, 0, 0⟩

/-- The zeros are equal, and the document is found by the one with a sign alone.  So it is not
found by both as alternatives, which are merged into a list of the one without a sign. -/
theorem signedZero_not_found :
    let index := (standard.storeOf signedEdits).writer.index
    standard.convert 0 signedRequests = .ok signedEdits ∧
      (Value.number .zero).same (.number Double.zero.neg) = true ∧
      (∃ plain signed,
        signedContext.exact "$id" (.number .zero) none = .ok plain ∧
        signedContext.exact "$id" (.number Double.zero.neg) none = .ok signed ∧
        index.matching plain = [] ∧ index.matching signed = [0]) ∧
      ∃ merged,
        signedContext.plan ((Tree.any (zeros.map (Tree.compare "$id" .equals)) []).simplify
          Config.default.conventions) = .ok (merged, none) ∧
        index.matching merged = [] :=
  ⟨rfl, by decide +kernel, ⟨_, _, rfl, rfl, by decide +kernel, by decide +kernel⟩, _, rfl,
    by decide +kernel⟩

end PlanContext

end Query

end DocIndex
