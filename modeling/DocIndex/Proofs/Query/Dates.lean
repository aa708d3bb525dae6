/-
Finding dates by their own text.

The text of a date in a document is also a literal of the query language, if it is written as
both expect.  Then the document has the ticks of the instant in a field of its own, and the
catalog knows that there was a date, which decides how the field is looked up whatever else was
seen there.  So the literal is looked up among the ticks, and it is the same instant.

A whole day is a literal but no instant: documents hold it as text, and it is not found.
-/
import DocIndex.Proofs.Query.DateLiterals
import DocIndex.Proofs.Query.Integers
import DocIndex.Proofs.Query.Parsing

namespace DocIndex

/-! ### Dates in a document -/

namespace DocumentBuilder

/-- Dates at a path are projected as dates, whatever the content type of the document. -/
def DatesAt (builder : DocumentBuilder) (path : String) : Prop :=
  ∀ contentType, builder.fields.resolve? ⟨contentType, path⟩ .date = some .dateTime

variable {builder : DocumentBuilder} {path contentType : String}

/-- Where nothing is configured, dates are projected as dates. -/
theorem datesAt_default (hconfigured : builder.fields.configured = [])
    (hpath : path ∉ builder.fields.identityPaths) : builder.DatesAt path := by
  intro contentType
  simp [FieldConfiguration.resolve?, hconfigured, hpath, Strategy.default?]

/-- What a date is projected to. -/
def dateProjection (path : String) (instant : Moment) : Projection :=
  ⟨path, .date, Strategy.dateTime.name, Strategy.dateFields path instant⟩

variable {s : String} {instant : Moment}

theorem DatesAt.project (h : builder.DatesAt path)
    (hs : Moment.ofDocumentText? s = some instant) :
    builder.project ⟨contentType, path⟩ (.text s) = .ok [dateProjection path instant] := by
  have htype : (Json.text s).type = .date := by simp [Json.type, hs]
  have hfields : Strategy.dateTime.fields? (.text s) path
      = some (.date, Strategy.dateFields path instant) := by
    simp [Strategy.fields?, Json.text?, hs]
  simp only [DocumentBuilder.project, htype, h contentType, Strategy.project, hfields]
  rfl

variable {json : Json} {built : BuiltDocument}

/-- A date of a document is projected. -/
theorem DatesAt.mem_projections (h : builder.DatesAt path)
    (hs : Moment.ofDocumentText? s = some instant) (hvalue : .text s ∈ json.valuesAt path)
    {projections : List Projection}
    (hparts : builder.ProjectsTo contentType (json.parts "") projections) :
    dateProjection path instant ∈ projections :=
  (hparts.mem_iff _).mpr
    ⟨_, (Json.mem_valuesAt.mp hvalue).1, _, h.project hs, List.mem_singleton_self _⟩

/-- The ticks of a date are searched. -/
theorem DatesAt.ticks_mem (h : builder.DatesAt path)
    (hs : Moment.ofDocumentText? s = some instant) (hvalue : .text s ∈ json.valuesAt path)
    (hbuild : builder.build json = .ok built) :
    .long (Query.ticksField path) instant.ticks ∈ built.document := by
  obtain ⟨projections, hbuilt⟩ := builtBy hbuild
  exact (hbuilt.mem_document rfl).mpr
    ⟨_, h.mem_projections hs hvalue hbuilt.parts, by simp [dateProjection, Strategy.dateFields,
      Query.ticksField]⟩

/-- A date is noted as one. -/
theorem DatesAt.exists_info (h : builder.DatesAt path)
    (hs : Moment.ofDocumentText? s = some instant) (hvalue : .text s ∈ json.valuesAt path)
    (hbuild : builder.build json = .ok built) :
    ∃ info ∈ built.infos, info.fieldName = path ∧ info.jsonType = .date ∧
      info.kind.isLexical = true := by
  obtain ⟨projections, hbuilt⟩ := builtBy hbuild
  have hfield : .term path (Query.PlanContext.writeSecond instant)
      ∈ (dateProjection path instant).fields := List.mem_cons_self
  exact ⟨_, (hbuilt.mem_infos _).mpr
    ⟨_, h.mem_projections hs hvalue hbuilt.parts, _, hfield, rfl⟩, rfl, rfl, rfl⟩

end DocumentBuilder

/-! ### What is known of a field with a date -/

theorem FieldUse.foldl_observe_date (infos : List FieldInfo) :
    infos.foldl FieldUse.observe .date = .date := by
  induction infos with
  | nil => rfl
  | cons info rest ih =>
      have hdate : FieldUse.observe .date info = .date := if_pos rfl
      rw [List.foldl_cons, hdate, ih]

/-- One date among the observations is enough. -/
theorem FieldUse.foldl_observe_of_date {infos : List FieldInfo} {info : FieldInfo}
    (hinfo : info ∈ infos) (htype : info.jsonType = .date) (hkind : info.kind.isLexical = true)
    (use : FieldUse) : infos.foldl FieldUse.observe use = .date := by
  induction infos generalizing use with
  | nil => cases hinfo
  | cons first rest ih =>
      rw [List.foldl_cons]
      rcases List.mem_cons.mp hinfo with rfl | hrest
      · have hdate : use.observe info = .date := by simp [observe, htype, hkind]
        rw [hdate, foldl_observe_date]
      · exact ih hrest _

namespace Query

/-! ### The tokens of a comparison -/

namespace Lexer

/--
Whether a text stands for itself as the name of a field: it is one word, which is no keyword
and does not begin as a number or a relative time does.
-/
def isFieldName (name : String) : Bool :=
  match name.toList with
  | [] => false
  | c :: more =>
    (c :: more).all isWordChar && !c.isDigit && c != '+' && c != '-' &&
      !"NOW".toList.isPrefixOf (c :: more) && !"TODAY".toList.isPrefixOf (c :: more) &&
      keywordOrWord (c :: more) == .word name

variable {text rest : List Char}

/-- No blank is part of a word. -/
theorem isWordChar_of_isBlank {c : Char} (h : Text.isBlank c = true) : isWordChar c = false := by
  have hall : ∀ p ∈ Text.blankIntervals, ∀ n ∈ List.range' p.1 (p.2 + 1 - p.1),
      isWordChar (Char.ofNat n) = false := by
    decide +kernel
  obtain ⟨p, hp, hc⟩ := List.any_eq_true.mp h
  simp only [Bool.and_eq_true, decide_eq_true_eq] at hc
  have hcode := hall p hp c.toNat (List.mem_range'_1.mpr (by omega))
  rwa [Char.ofNat_toNat] at hcode

/-- A prefix without blanks is not longer than the word before a blank. -/
theorem isPrefixOf_append_blank {front : List Char} (hfront : ' ' ∉ front)
    (text : List Char) : front.isPrefixOf (text ++ ' ' :: rest) = front.isPrefixOf text := by
  induction front generalizing text with
  | nil => simp
  | cons c more ih =>
      obtain ⟨hc, hmore⟩ := List.ne_and_not_mem_of_not_mem_cons hfront
      cases text with
      | nil => simp [List.isPrefixOf, hc.symm]
      | cons d others => simp [List.isPrefixOf, ih hmore others]

theorem readDate?_of_not_digit {c : Char} (hc : c.isDigit = false) :
    readDate? (c :: text) = none := by
  refine Option.eq_none_iff_forall_ne_some.mpr fun found hfound => ?_
  obtain ⟨literal, hliteral, -, -⟩ := readDate?_eq_some.mp hfound
  obtain ⟨year, months, month, days, day, tail, hyear, -⟩ := readDateLiteral?_eq_some.mp hliteral
  obtain ⟨d, digits, heq, hd⟩ := Text.readDigits?_cons hyear
  rw [(List.cons.inj heq).1, hd] at hc
  cases hc

theorem readRelative?_of_no_anchor {c : Char} (hnow : "NOW".toList.isPrefixOf (c :: text) = false)
    (htoday : "TODAY".toList.isPrefixOf (c :: text) = false) (hplus : c ≠ '+') (hminus : c ≠ '-') :
    readRelative? (c :: text) = none := by
  have hanchor : readAnchor (c :: text) = (none, c :: text) := by
    unfold readAnchor
    rw [if_neg (by rw [hnow]; decide), if_neg (by rw [htoday]; decide)]
  have hliteral : readRelativeLiteral? (c :: text) = none := by
    simp [readRelativeLiteral?, hanchor, hplus, hminus]
  simp [readRelative?, hliteral, bounded]

theorem readNumber?_of_no_digits (hdigits : text.takeWhile Char.isDigit = [])
    (hminus : ∀ more, text ≠ '-' :: more) : readNumber? text = none := by
  unfold readNumber?
  split
  rename_i negative body hsign
  have hbody : body = text := by
    split at hsign
    · exact absurd rfl (hminus _)
    · exact (Prod.mk.inj hsign).2.symm
  simp [hbody, hdigits]

theorem ne_of_isWordChar {c d : Char} (hc : isWordChar c = true) (hd : isWordChar d = false) :
    c ≠ d := by
  rintro rfl
  rw [hc] at hd
  cases hd

theorem readOperator?_of_isWordChar {c : Char} (hc : isWordChar c = true) :
    readOperator? (c :: text) = none := by
  unfold readOperator?
  split <;> rename_i heq <;> first
    | rfl
    | exact absurd (List.cons.inj heq).1 (ne_of_isWordChar hc (by decide))

theorem readPunctuation?_of_isWordChar {c : Char} (hc : isWordChar c = true) :
    readPunctuation? (c :: text) = none := by
  unfold readPunctuation?
  split <;> rename_i heq <;> first
    | rfl
    | exact absurd (List.cons.inj heq).1 (ne_of_isWordChar hc (by decide))

/-- The name of a field is read as a word, up to the blank behind it. -/
theorem readToken_fieldName {name : String} (h : isFieldName name = true) (rest : List Char) :
    ∃ c more, name.toList = c :: more ∧ Text.isBlank c = false ∧
      readToken c (more ++ ' ' :: rest) = .ok (.word name, ' ' :: rest) := by
  unfold isFieldName at h
  split at h
  · cases h
  · rename_i c more hname
    simp only [Bool.and_eq_true, Bool.not_eq_true', bne_iff_ne, beq_iff_eq, List.all_eq_true] at h
    obtain ⟨⟨⟨⟨⟨⟨hword, hdigit⟩, hplus⟩, hminus⟩, hnow⟩, htoday⟩, hkeyword⟩ := h
    have hc : isWordChar c = true := hword c List.mem_cons_self
    have hblank : Text.isBlank c = false := by
      by_contra hblank
      rw [isWordChar_of_isBlank (by simpa using hblank)] at hc
      cases hc
    have hquote : c ≠ '\x22' := ne_of_isWordChar hc (by decide)
    refine ⟨c, more, hname, hblank, ?_⟩
    have hrelative : readRelative? (c :: (more ++ ' ' :: rest)) = none :=
      readRelative?_of_no_anchor
        ((isPrefixOf_append_blank (by decide) (c :: more)).trans hnow)
        ((isPrefixOf_append_blank (by decide) (c :: more)).trans htoday) hplus hminus
    have hnumber : readNumber? (c :: (more ++ ' ' :: rest)) = none :=
      readNumber?_of_no_digits (by simp [hdigit]) (by simp [hminus])
    have hend : isWordChar ' ' = false := by decide
    have hread : readWord? (c :: (more ++ ' ' :: rest)) = some (.word name, ' ' :: rest) := by
      have htake : (c :: (more ++ ' ' :: rest)).takeWhile isWordChar = c :: more := by
        rw [← List.cons_append, List.takeWhile_append_of_pos hword]
        simp [hend]
      have hdrop : (c :: (more ++ ' ' :: rest)).dropWhile isWordChar = ' ' :: rest := by
        rw [← List.cons_append, List.dropWhile_append_of_pos hword]
        simp [hend]
      unfold readWord?
      simp [htake, hdrop, hkeyword]
    unfold readToken
    simp [hquote, readDate?_of_not_digit hdigit, hrelative,
      hnumber, readOperator?_of_isWordChar hc,
      readPunctuation?_of_isWordChar hc, hread]

theorem readToken_equals (rest : List Char) :
    readToken '=' (' ' :: rest) = .ok (.operator .equals, ' ' :: rest) := by
  have hrelative : readRelative? ('=' :: ' ' :: rest) = none :=
    readRelative?_of_no_anchor rfl rfl (by decide) (by decide)
  have hnumber : readNumber? ('=' :: ' ' :: rest) = none :=
    readNumber?_of_no_digits rfl (by simp)
  unfold readToken
  simp [readDate?_of_not_digit (by decide : '='.isDigit = false), hrelative, hnumber,
    readOperator?]

/-- The characters of a token that was read are passed over. -/
theorem scan_pending (front rest : List Char) (position : Nat) :
    scan position front.length (front ++ rest) = scan (position + front.length) 0 rest := by
  induction front generalizing position with
  | nil => rfl
  | cons c more ih =>
      rw [List.length_cons, List.cons_append, scan, ih]
      congr 1
      omega

/-- The tokens do not depend on the place where the text stands. -/
theorem scan_kinds {position pending : Nat} {tokens : List PlacedToken}
    (h : scan position pending text = .ok tokens) (other : Nat) :
    ∃ others, scan other pending text = .ok others ∧
      Parser.kinds others = Parser.kinds tokens := by
  induction text generalizing position pending tokens other with
  | nil => exact ⟨[], rfl, by cases h; rfl⟩
  | cons c more ih =>
      cases pending with
      | succ pending => exact ih h _
      | zero =>
          rw [scan] at h ⊢
          split at h
          · rename_i hc
            rw [if_pos hc]
            exact ih h _
          · rename_i hc
            rw [if_neg hc]
            split at h
            · cases h
            · rename_i token after htoken
              obtain ⟨rests, hrests, h⟩ := bind_eq_ok.mp h
              cases h
              obtain ⟨others, hothers, hkinds⟩ := ih hrests (other + 1)
              refine ⟨⟨token, other⟩ :: others, bind_eq_ok.mpr ⟨others, hothers, rfl⟩, ?_⟩
              rw [Parser.kinds_cons, Parser.kinds_cons, hkinds]

/-- Reading goes on behind a token that was read. -/
theorem scan_token {c : Char} (front : List Char) {token : Token} {position : Nat}
    (hblank : Text.isBlank c = false) (hread : readToken c (front ++ rest) = .ok (token, rest))
    {tokens : List PlacedToken} (hrest : scan (position + 1 + front.length) 0 rest = .ok tokens) :
    scan position 0 (c :: (front ++ rest)) = .ok (⟨token, position⟩ :: tokens) := by
  have hlength : (front ++ rest).length - rest.length = front.length := by
    rw [List.length_append, Nat.add_sub_cancel]
  rw [scan, if_neg (by simp [hblank])]
  simp only [hread, hlength, scan_pending, hrest]
  rfl

theorem scan_blank {c : Char} (hc : Text.isBlank c = true) (position : Nat) :
    scan position 0 (c :: rest) = scan (position + 1) 0 rest := by
  rw [scan, if_pos hc]

/-- A comparison for equality has the tokens of its parts. -/
theorem tokenize_equals {name s : String} (hname : isFieldName name = true)
    {tokens : List PlacedToken} (h : tokenize s = .ok tokens) :
    ∃ all, tokenize (name ++ " = " ++ s) = .ok all ∧
      Parser.kinds all = .word name :: .operator .equals :: Parser.kinds tokens := by
  have hblank : Text.isBlank ' ' = true := by decide
  obtain ⟨c, more, hchars, hc, hread⟩ := readToken_fieldName hname ('=' :: ' ' :: s.toList)
  have htext : (name ++ " = " ++ s).toList = c :: (more ++ ' ' :: '=' :: ' ' :: s.toList) := by
    simp [String.toList_append, hchars]
  obtain ⟨values, hvalues, hkinds⟩ := scan_kinds h (0 + 1 + more.length + 1 + 1 + 1)
  have hequals : scan (0 + 1 + more.length + 1) 0 ('=' :: ' ' :: s.toList)
      = .ok (⟨.operator .equals, 0 + 1 + more.length + 1⟩ :: values) := by
    refine scan_token [] (by decide) (readToken_equals _) ?_
    rw [scan_blank hblank]
    exact hvalues
  refine ⟨⟨.word name, 0⟩ :: ⟨.operator .equals, 0 + 1 + more.length + 1⟩ :: values, ?_, ?_⟩
  · rw [tokenize, htext]
    exact scan_token more hc hread ((scan_blank hblank _).trans hequals)
  · rw [Parser.kinds_cons, Parser.kinds_cons, hkinds]

end Lexer

/-- A comparison of a field with a time is parsed as it reads. -/
theorem Tree.parse_equals_time {name s : String} (hname : Lexer.isFieldName name = true)
    {m : Moment} {precision : Precision} {place : Nat}
    (h : tokenize s = .ok [⟨.time m precision, place⟩]) :
    Tree.parse (name ++ " = " ++ s) = .ok (.compare name .equals (.time m precision)) := by
  obtain ⟨tokens, htokens, hkinds⟩ := Lexer.tokenize_equals hname h
  let comparison : Grammar.Sentence := .found (.last (.last (.last (.plain
    (.comparison name (.operator .equals) ⟨.time m precision, rfl⟩))))) none
  exact ((parse_eq_ok_iff htokens).1 _).mpr ⟨comparison, by rw [hkinds]; rfl, rfl⟩

/-! ### Looking up an instant -/

namespace PlanContext

variable {builder : DocumentBuilder} {store : DocumentStore} {entries : List Held}
  {context : PlanContext} {path s : String} {instant : Moment}

/-- A field in which a document has a date is searched as a date. -/
theorem resolve_date (hholds : store.Holds builder entries) (hdates : builder.DatesAt path)
    (hs : Moment.ofDocumentText? s = some instant) {held : Held} (hheld : held ∈ entries)
    (hvalue : .text s ∈ held.json.valuesAt path) : store.catalog.resolve path none = .date := by
  obtain ⟨info, hinfo, hname, htype, hkind⟩ :=
    hdates.exists_info hs hvalue (hholds.made held hheld).build
  exact FieldUse.foldl_observe_of_date
    (hholds.mem_observations.mpr ⟨hname, held, hheld, hinfo⟩) htype hkind .unknown

/-- A document with a date satisfies the lookup of an interval with its ticks. -/
theorem satisfies_ticks (hholds : store.Holds builder entries) (hdates : builder.DatesAt path)
    (hs : Moment.ofDocumentText? s = some instant) {held : Held} (hheld : held ∈ entries)
    (hvalue : .text s ∈ held.json.valuesAt path) {interval : Interval Numeric}
    (hinterval : interval.contains Numeric.order? (.long instant.ticks) = true) :
    InvertedIndex.satisfies held.fields (.numbers (ticksField path) interval) = true := by
  have hmade := hholds.made held hheld
  obtain ⟨f, hf, hfield⟩ := hmade.mem_document.mp (hdates.ticks_mem hs hvalue hmade.build)
  have hnumber : .long instant.ticks ∈ InvertedIndex.numbersIn held.fields (ticksField path) :=
    List.mem_filterMap.mpr ⟨f, hf, by
      simp [InvertedIndex.AnalyzedField.number?, hfield, Field.long]⟩
  exact List.any_eq_true.mpr ⟨_, hnumber, hinterval⟩

/-- The ticks that a time in a query stands for. -/
def ticksOf (m : Moment) (precision : Precision) : Interval Numeric :=
  match precision with
  | .day => ⟨some (.long (dayTicks m).1), some (.long (dayTicks m).2), true, false⟩
  | .instant => .exactly (.long m.ticks)

/-- A time can be looked up in any field. -/
theorem exact_time (context : PlanContext) (field : String) (m : Moment) (precision : Precision) :
    ∃ lookup, context.exact field (.time m precision) none = .ok lookup ∧
      (context.catalog.resolve field none = .date →
        lookup = .numbers (ticksField field) (ticksOf m.utc precision)) := by
  have hlookup : instantLookup field m.utc precision
      = .numbers (ticksField field) (ticksOf m.utc precision) := by
    cases precision <;> rfl
  unfold exact
  simp only [Value.instant?, hlookup]
  cases context.catalog.resolve field none with
  | date => exact ⟨_, rfl, fun _ => rfl⟩
  | _ => exact ⟨_, rfl, fun h => by cases h⟩

/-- A query for a time is planned, and finds every document with a date that the time covers. -/
theorem matching_time (hdates : builder.DatesAt path) (hs : Moment.ofDocumentText? s = some instant)
    {m : Moment} {precision : Precision}
    (hcovers : (ticksOf m.utc precision).contains Numeric.order? (.long instant.ticks) = true)
    {next : IdentifierSupply} {requests : List WriteRequest} {edits : List Edit}
    (hedits : builder.convert next requests = .ok edits)
    (hcatalog : context.catalog = (builder.storeOf edits).catalog) (conventions : Conventions) :
    ∃ lookup, context.plan ((Tree.compare path .equals (.time m precision)).simplify conventions)
        = .ok (lookup, none) ∧
      ∀ doc ∈ (builder.storeOf edits).writer.index.live, ∀ json,
        (builder.prepared next requests)[doc]? = some json → .text s ∈ json.valuesAt path →
          doc ∈ (builder.storeOf edits).writer.index.matching lookup := by
  obtain ⟨entries, hholds, hjson⟩ := DocumentStore.Holds.storeOf hedits
  obtain ⟨lookup, hexact, hlookup⟩ := exact_time context path m precision
  have hclause : context.clause ⟨some path, .equals, .time m precision, []⟩ none
      = .ok (.includes lookup) := bind_eq_ok.mpr ⟨lookup, hexact, rfl⟩
  refine ⟨lookup, plan_clause hclause conventions, ?_⟩
  intro doc hdoc json hjsonAt hvalue
  obtain ⟨held, hheld, hlive⟩ := hholds.mem_live.mp hdoc
  have hmem := List.mem_of_getElem? hheld
  have hown : held.json = json := by
    rw [← hjson, List.getElem?_map, hheld] at hjsonAt
    exact Option.some.inj hjsonAt
  rw [← hown] at hvalue
  rw [hlookup (hcatalog ▸ resolve_date hholds hdates hs hmem hvalue)]
  exact hholds.mem_matching.mpr
    ⟨held, hheld, hlive, satisfies_ticks hholds hdates hs hmem hvalue hcovers⟩

/--
**A document is found by the text of a date in it, if the text is an instant.**  Take a text
that queries read as one date, and the name of a field at which dates are projected as such.  A
whole day is no instant to a document, and a literal that is written out is one.  If the text is
an instant, then in a new store of which any requests were made, a query for the text in that
field is parsed and planned, and finds every live document with the text there, at any depth and
whatever else was seen in the field.
-/
theorem matching_date (builder : DocumentBuilder) (name s : String)
    (hname : Lexer.isFieldName name = true) (hdates : builder.DatesAt name) (m : Moment)
    (precision : Precision) (place : Nat)
    (htokens : tokenize s = .ok [⟨.time m precision, place⟩]) :
    (precision = .day → Moment.ofDocumentText? s = none) ∧
    (Lexer.isWrittenOut s.toList = true → (Moment.ofDocumentText? s).isSome = true) ∧
    ((Moment.ofDocumentText? s).isSome = true →
      ∀ (next : IdentifierSupply) (requests : List WriteRequest) (edits : List Edit),
        builder.convert next requests = .ok edits →
      ∀ (context : PlanContext), context.catalog = (builder.storeOf edits).catalog →
      ∀ conventions : Conventions, ∃ tree lookup,
        Tree.parse (name ++ " = " ++ s) = .ok tree ∧
        context.plan (tree.simplify conventions) = .ok (lookup, none) ∧
        ∀ doc ∈ (builder.storeOf edits).writer.index.live, ∀ json,
          (builder.prepared next requests)[doc]? = some json → .text s ∈ json.valuesAt name →
            doc ∈ (builder.storeOf edits).writer.index.matching lookup) := by
  refine ⟨?_, Lexer.isSome_of_isWrittenOut htokens, ?_⟩
  · intro hday
    refine Option.eq_none_iff_forall_ne_some.mpr fun instant hinstant => ?_
    rw [(Lexer.eq_of_tokenize htokens hinstant).1] at hday
    cases hday
  · intro hsome next requests edits hedits context hcatalog conventions
    obtain ⟨instant, hs⟩ := Option.isSome_iff_exists.mp hsome
    obtain ⟨rfl, rfl⟩ := Lexer.eq_of_tokenize htokens hs
    have hcovers : (ticksOf m.utc .instant).contains Numeric.order? (.long m.utc.ticks) = true := by
      simp [ticksOf, contains_exactly]
    obtain ⟨lookup, hplan, hfound⟩ :=
      matching_time hdates hs hcovers hedits hcatalog conventions
    exact ⟨_, lookup, Tree.parse_equals_time hname htokens, hplan, hfound⟩

/-- A document whose field is a text. -/
def dated (s : String) : List WriteRequest :=
  [.create (.object [("$contentType", .text "document"), ("$id", .text "A"), ("d", .text s)])]

/-- The builder of default strategies. -/
def datedBuilder : DocumentBuilder := ⟨.default, .ofConfig .default, Analyzers.builtIn⟩

/-- The edits that such a request is converted to. -/
def datedEdits (s : String) : List Edit := ((datedBuilder.convert 0 (dated s)).toOption).getD []

/-- The store of such a document is searched. -/
def datedContext (s : String) : PlanContext :=
  ⟨(datedBuilder.storeOf (datedEdits s)).catalog, Analyzers.builtIn, ⟨0, 0, 0⟩, 0, 0⟩

theorem matching_date_eastward :
    tokenize "2014-09-10T11:00:00.5+02:00"
        = .ok [⟨.time ⟨1410339600, 500000000, 7200⟩ .instant, 0⟩] ∧
      (Moment.ofDocumentText? "2014-09-10T11:00:00.5+02:00").isSome = true ∧
      ∃ tree lookup, Tree.parse "d = 2014-09-10T11:00:00.5+02:00" = .ok tree ∧
        (datedContext "2014-09-10T11:00:00.5+02:00").plan
          (tree.simplify Config.default.conventions) = .ok (lookup, none) ∧
        0 ∈ (datedBuilder.storeOf (datedEdits "2014-09-10T11:00:00.5+02:00")).writer.index.matching
          lookup := by
  have htokens : tokenize "2014-09-10T11:00:00.5+02:00"
      = .ok [⟨.time ⟨1410339600, 500000000, 7200⟩ .instant, 0⟩] := by decide +kernel
  have hinstant : (Moment.ofDocumentText? "2014-09-10T11:00:00.5+02:00").isSome = true := by
    decide +kernel
  obtain ⟨tree, lookup, hparse, hplan, hfound⟩ :=
    (matching_date datedBuilder "d" "2014-09-10T11:00:00.5+02:00" (by decide +kernel)
      (DocumentBuilder.datesAt_default rfl (by decide)) _ _ _ htokens).2.2 hinstant 0
      (dated "2014-09-10T11:00:00.5+02:00") (datedEdits "2014-09-10T11:00:00.5+02:00") rfl
      (datedContext "2014-09-10T11:00:00.5+02:00") rfl Config.default.conventions
  exact ⟨htokens, hinstant, tree, lookup, hparse, hplan,
    hfound 0 (by decide +kernel) _ rfl (List.mem_singleton_self _)⟩

/-- A whole day is looked up as a term of a document that holds it as text, and is not found. -/
theorem day_not_found :
    tokenize "2014-09-10" = .ok [⟨.time ⟨1410307200, 0, 0⟩ .day, 0⟩] ∧
      datedBuilder.convert 0 (dated "2014-09-10") = .ok (datedEdits "2014-09-10") ∧
      (∀ json ∈ datedBuilder.prepared 0 (dated "2014-09-10"),
        .text "2014-09-10" ∈ json.valuesAt "d") ∧
      (datedBuilder.storeOf (datedEdits "2014-09-10")).writer.index.live = [0] ∧
      ∃ tree lookup, Tree.parse "d = 2014-09-10" = .ok tree ∧
        (datedContext "2014-09-10").plan (tree.simplify Config.default.conventions)
          = .ok (lookup, none) ∧
        0 ∉ (datedBuilder.storeOf (datedEdits "2014-09-10")).writer.index.matching lookup := by
  have htokens : tokenize "2014-09-10" = .ok [⟨.time ⟨1410307200, 0, 0⟩ .day, 0⟩] := by
    decide +kernel
  have hresolve : (datedContext "2014-09-10").catalog.resolve "d" none = .lexical := by
    decide +kernel
  have hexact : (datedContext "2014-09-10").clause
      ⟨some "d", .equals, .time ⟨1410307200, 0, 0⟩ .day, []⟩ none
      = .ok (.includes (.term "d" (writeSecond ⟨1410307200, 0, 0⟩))) := by
    simp only [clause, exact, Value.instant?, hresolve]
    rfl
  have hname : Lexer.isFieldName "d" = true := by decide +kernel
  have hparse := Tree.parse_equals_time hname htokens
  have hvalue : ∀ json ∈ datedBuilder.prepared 0 (dated "2014-09-10"),
      .text "2014-09-10" ∈ json.valuesAt "d" :=
    List.forall_mem_singleton.mpr (List.mem_singleton_self _)
  exact ⟨htokens, rfl, hvalue, by decide +kernel, _, _, hparse,
    plan_clause hexact Config.default.conventions, by decide +kernel⟩

end PlanContext

end Query

end DocIndex
