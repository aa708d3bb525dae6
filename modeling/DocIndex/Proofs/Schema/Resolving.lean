/-
On what the use of a field depends.

Observations are read one after another: content type by content type in the order in which
they are asked for, or in no particular order where none are.  So that the answer is one of the
observations alone, no two of them may be read differently when they change places.

A date decides whatever is read before it or after it, and terms give way to everything.  What
is left are numbers, where the last one read decides of which kind they are.  The order is
therefore of no importance except where numbers of both kinds were seen and no date, and there
it is.
-/
import Mathlib.Data.List.Induction
import DocIndex.Document.Strategy
import DocIndex.Proofs.Schema.Catalog

namespace DocIndex

/-! ### The observations of a field -/

theorem FieldKind.eq_of_isNumeric {kind : FieldKind} (h : kind.isNumeric = true) :
    kind = .long ∨ kind = .double := by
  cases kind <;> simp_all [FieldKind.isNumeric]

/-- The values were dates, and the field has them as terms. -/
def FieldInfo.IsDate (info : FieldInfo) : Prop :=
  info.jsonType = .date ∧ info.kind.isLexical = true

instance (info : FieldInfo) : Decidable info.IsDate :=
  inferInstanceAs (Decidable (_ ∧ _))

/-- There are numbers of both kinds among the observations, and no date. -/
def FieldInfos.Mixed (infos : List FieldInfo) : Prop :=
  (∀ info ∈ infos, ¬ info.IsDate) ∧
    (∃ info ∈ infos, info.kind = .long) ∧ ∃ info ∈ infos, info.kind = .double

instance (infos : List FieldInfo) : Decidable (FieldInfos.Mixed infos) :=
  inferInstanceAs (Decidable (_ ∧ _ ∧ _))

namespace FieldUse

variable {use other : FieldUse} {infos others : List FieldInfo} {info : FieldInfo}

/-- What a use tells of the observations that it was made from; their order is not told. -/
def Describes (infos : List FieldInfo) : FieldUse → Prop
  | .date => ∃ info ∈ infos, info.IsDate
  | .numeric kind =>
      (∀ info ∈ infos, ¬ info.IsDate) ∧ kind.isNumeric = true ∧ ∃ info ∈ infos, info.kind = kind
  | .lexical =>
      (∃ info, info ∈ infos) ∧ ∀ info ∈ infos, ¬ info.IsDate ∧ info.kind.isNumeric = false
  | .unknown => ∀ info, info ∉ infos

theorem Describes.congr (h : use.Describes infos) (hsame : ∀ info, info ∈ infos ↔ info ∈ others) :
    use.Describes others := by
  cases use <;> simpa only [Describes, hsame] using h

/-! ### One more observation -/

theorem observe_of_isDate (use : FieldUse) (h : info.IsDate) : use.observe info = .date := by
  simp [observe, h.1, h.2]

theorem observe_of_isNumeric (huse : use ≠ .date) (h : ¬ info.IsDate)
    (hkind : info.kind.isNumeric = true) : use.observe info = .numeric info.kind := by
  have hdate : ¬ (info.jsonType = .date && info.kind.isLexical) = true := by
    simpa [FieldInfo.IsDate] using h
  unfold observe
  rw [if_neg huse, if_neg hdate, if_pos hkind]

/-- Terms leave a number what it is, and make terms of everything else but a date. -/
theorem observe_of_not_isNumeric (huse : use ≠ .date) (h : ¬ info.IsDate)
    (hkind : info.kind.isNumeric = false) :
    use.observe info = use ∧ (∃ kind, use = .numeric kind) ∨
      use.observe info = .lexical ∧ (use = .lexical ∨ use = .unknown) := by
  have hdate : ¬ (info.jsonType = .date && info.kind.isLexical) = true := by
    simpa [FieldInfo.IsDate] using h
  have hnumeric : ¬ info.kind.isNumeric = true := by simp [hkind]
  unfold observe
  rw [if_neg huse, if_neg hdate, if_neg hnumeric]
  cases use with
  | numeric kind => exact .inl ⟨rfl, kind, rfl⟩
  | date => exact absurd rfl huse
  | lexical => exact .inr ⟨rfl, .inl rfl⟩
  | unknown => exact .inr ⟨rfl, .inr rfl⟩

/-- No use but that of dates is made from a date. -/
theorem Describes.not_isDate (h : use.Describes infos) (huse : use ≠ .date) :
    ∀ info ∈ infos, ¬ info.IsDate := by
  cases use with
  | numeric kind => exact h.1
  | date => exact absurd rfl huse
  | lexical => exact fun info hinfo => (h.2 info hinfo).1
  | unknown => exact fun info hinfo => absurd hinfo (h info)

/-- **One more observation** is described together with the ones before it. -/
theorem Describes.observe (h : use.Describes infos) (info : FieldInfo) :
    (use.observe info).Describes (infos ++ [info]) := by
  have hlast : info ∈ infos ++ [info] := List.mem_append_right _ (List.mem_singleton_self info)
  by_cases huse : use = .date
  · obtain rfl := huse
    obtain ⟨date, hdate, his⟩ := h
    exact ⟨date, List.mem_append_left _ hdate, his⟩
  by_cases hdate : info.IsDate
  · rw [observe_of_isDate use hdate]
    exact ⟨info, hlast, hdate⟩
  have hdates : ∀ other ∈ infos ++ [info], ¬ other.IsDate := by
    intro other hother
    rcases List.mem_append.mp hother with hbefore | hnew
    · exact h.not_isDate huse other hbefore
    · rwa [List.mem_singleton.mp hnew]
  cases hkind : info.kind.isNumeric with
  | true =>
      rw [observe_of_isNumeric huse hdate hkind]
      exact ⟨hdates, hkind, info, hlast, rfl⟩
  | false =>
      rcases observe_of_not_isNumeric huse hdate hkind with ⟨hsame, kind, rfl⟩ | ⟨hlexical, hbefore⟩
      · obtain ⟨-, hnumeric, number, hnumber, hof⟩ := h
        rw [hsame]
        exact ⟨hdates, hnumeric, number, List.mem_append_left _ hnumber, hof⟩
      · rw [hlexical]
        refine ⟨⟨info, hlast⟩, fun other hother => ⟨hdates other hother, ?_⟩⟩
        rcases List.mem_append.mp hother with hold | hnew
        · rcases hbefore with rfl | rfl
          · exact (h.2 other hold).2
          · exact absurd hold (h other)
        · rwa [List.mem_singleton.mp hnew]

/-- The use of a field describes what was observed of it. -/
theorem describes_foldl (infos : List FieldInfo) :
    (infos.foldl FieldUse.observe .unknown).Describes infos := by
  induction infos using List.reverseRecOn with
  | nil => exact fun info => List.not_mem_nil
  | append_singleton before info ih =>
      rw [List.foldl_append]
      exact ih.observe info

/-! ### Uses of the same observations -/

/-- Both are the same use, or numbers of kinds that may differ. -/
def SameButKind : FieldUse → FieldUse → Prop
  | .numeric _, .numeric _ => True
  | use, other => use = other

/-- Two uses with one description differ in the kind of numbers at most. -/
theorem Describes.sameButKind (h : use.Describes infos) (hother : other.Describes infos) :
    use.SameButKind other := by
  cases use <;> cases other <;> simp only [Describes, SameButKind] at h hother ⊢ <;> grind

/-- **Unless numbers are mixed**, there is no more than one use to describe them. -/
theorem Describes.eq (h : use.Describes infos) (hother : other.Describes infos)
    (hmixed : ¬ FieldInfos.Mixed infos) : use = other := by
  have hsame := h.sameButKind hother
  cases use with
  | numeric kind =>
      cases other with
      | numeric kind' =>
          obtain ⟨hdates, hnumeric, info, hinfo, hkind⟩ := h
          obtain ⟨-, hnumeric', info', hinfo', hkind'⟩ := hother
          rcases FieldKind.eq_of_isNumeric hnumeric with rfl | rfl <;>
            rcases FieldKind.eq_of_isNumeric hnumeric' with rfl | rfl
          · rfl
          · exact absurd ⟨hdates, ⟨info, hinfo, hkind⟩, info', hinfo', hkind'⟩ hmixed
          · exact absurd ⟨hdates, ⟨info', hinfo', hkind'⟩, info, hinfo, hkind⟩ hmixed
          · rfl
      | date => exact hsame
      | lexical => exact hsame
      | unknown => exact hsame
  | date => exact hsame
  | lexical => exact hsame
  | unknown => exact hsame

/-- A number that is read last decides, where there is no date. -/
theorem foldl_observe_last (hdates : ∀ info ∈ infos, ¬ info.IsDate) (hinfo : info ∈ infos)
    (hkind : info.kind.isNumeric = true) :
    (infos.erase info ++ [info]).foldl FieldUse.observe .unknown = .numeric info.kind := by
  rw [List.foldl_append]
  refine observe_of_isNumeric (fun hdate => ?_) (hdates info hinfo) hkind
  have hdescribes := describes_foldl (infos.erase info)
  rw [hdate] at hdescribes
  obtain ⟨date, hmem, his⟩ := hdescribes
  exact hdates date (List.mem_of_mem_erase hmem) his

/--
**The order of observations is of no importance exactly where numbers are not mixed.**

Where they are, a number of either kind can be moved behind all others.
-/
theorem foldl_observe_perm_iff :
    (∀ order : List FieldInfo, order.Perm infos →
      order.foldl FieldUse.observe .unknown = infos.foldl FieldUse.observe .unknown) ↔
    ¬ FieldInfos.Mixed infos := by
  constructor
  · rintro hall ⟨hdates, ⟨whole, hwhole, hlong⟩, ⟨broken, hbroken, hdouble⟩⟩
    have hmoved : ∀ info ∈ infos, (infos.erase info ++ [info]).Perm infos := fun info hinfo =>
      (List.perm_append_singleton info _).trans (List.perm_cons_erase hinfo).symm
    have hwholeLast := foldl_observe_last hdates hwhole (by rw [hlong]; rfl)
    have hbrokenLast := foldl_observe_last hdates hbroken (by rw [hdouble]; rfl)
    rw [hall _ (hmoved whole hwhole), hlong] at hwholeLast
    rw [hall _ (hmoved broken hbroken), hdouble, hwholeLast] at hbrokenLast
    cases hbrokenLast
  · intro hmixed order hperm
    have hdescribes := (describes_foldl order).congr fun info => hperm.mem_iff
    exact hdescribes.eq (describes_foldl infos) hmixed

end FieldUse

/-! ### Reading a catalog -/

namespace FieldCatalog

variable {catalog other : FieldCatalog} {scope scope' : Option (List String)} {info : FieldInfo}
  {field : String}

/-- What has been recorded for the content types of a scope. -/
def Recorded (catalog : FieldCatalog) (scope : Option (List String)) (info : FieldInfo) : Prop :=
  ∃ contentType, InScope scope contentType ∧ catalog.Knows contentType info

/-- How a field is searched describes what was observed of it. -/
theorem describes_resolve (catalog : FieldCatalog) (field : String)
    (scope : Option (List String)) :
    (catalog.resolve field scope).Describes (catalog.observations field scope) :=
  FieldUse.describes_foldl _

theorem mem_observations_iff (h : Table.Sorted catalog) :
    info ∈ catalog.observations field scope ↔
      info.fieldName = field ∧ catalog.Recorded scope info := by
  cases scope with
  | none =>
      rw [mem_observations h]
      simp [Recorded, InScope]
  | some names =>
      simp only [observations, within, FieldInfos.ofField, List.mem_flatMap, List.mem_filterMap,
        List.mem_filter, beq_iff_eq, Recorded, InScope, Knows, Option.mem_some_iff,
        forall_eq']
      constructor
      · rintro ⟨infos, ⟨name, hname, hfind⟩, hinfo, hfield⟩
        exact ⟨hfield, name, hname, infos, hfind, hinfo⟩
      · rintro ⟨hfield, name, hname, infos, hfind, hinfo⟩
        exact ⟨infos, ⟨name, hname, hfind⟩, hinfo, hfield⟩

/-- A scope of one catalog and a scope of another one have the same records of a field. -/
def SameRecords (field : String) (catalog : FieldCatalog) (scope : Option (List String))
    (other : FieldCatalog) (scope' : Option (List String)) : Prop :=
  ∀ info : FieldInfo, info.fieldName = field →
    (catalog.Recorded scope info ↔ other.Recorded scope' info)

/-- The use that is found describes what the other catalog is read for. -/
theorem SameRecords.describes (h : SameRecords field catalog scope other scope')
    (hcatalog : Table.Sorted catalog) (hother : Table.Sorted other) :
    (catalog.resolve field scope).Describes (other.observations field scope') := by
  refine (FieldUse.describes_foldl (catalog.observations field scope)).congr fun info => ?_
  rw [mem_observations_iff hcatalog, mem_observations_iff hother]
  exact and_congr_right (h info)

/-- **Where the same is recorded, all but the kind of numbers is found alike.** -/
theorem SameRecords.sameButKind (h : SameRecords field catalog scope other scope')
    (hcatalog : Table.Sorted catalog) (hother : Table.Sorted other) :
    (catalog.resolve field scope).SameButKind (other.resolve field scope') :=
  (h.describes hcatalog hother).sameButKind (FieldUse.describes_foldl _)

/-- Where the same is recorded and numbers are not mixed, the same use is found. -/
theorem SameRecords.resolve_eq (h : SameRecords field catalog scope other scope')
    (hcatalog : Table.Sorted catalog) (hother : Table.Sorted other)
    (hmixed : ¬ FieldInfos.Mixed (other.observations field scope')) :
    catalog.resolve field scope = other.resolve field scope' :=
  (h.describes hcatalog hother).eq (FieldUse.describes_foldl _) hmixed

/-! ### Merging in any order -/

/-- Merges collections into a catalog, one after another. -/
def mergeAll (catalog : FieldCatalog) (merges : List (String × FieldInfos)) : FieldCatalog :=
  merges.foldl (fun known merge => known.merge merge.1 merge.2) catalog

theorem sorted_mergeAll (h : Table.Sorted catalog) (merges : List (String × FieldInfos)) :
    Table.Sorted (catalog.mergeAll merges) := by
  induction merges generalizing catalog with
  | nil => exact h
  | cons first rest ih => exact ih (Table.sorted_alter h _ _)

theorem knows_mergeAll {merges : List (String × FieldInfos)} {contentType : String} :
    (catalog.mergeAll merges).Knows contentType info ↔
      catalog.Knows contentType info ∨
        ∃ infos, (contentType, infos) ∈ merges ∧ info ∈ infos := by
  unfold mergeAll
  induction merges generalizing catalog with
  | nil => simp
  | cons first rest ih =>
      rw [List.foldl_cons, ih, knows_merge, or_assoc]
      refine or_congr_right ?_
      simp only [List.mem_cons, Prod.ext_iff]
      grind

/-- Merged in another order, the same is known. -/
theorem knows_mergeAll_perm {merges merges' : List (String × FieldInfos)}
    (h : merges'.Perm merges) (contentType : String) :
    (catalog.mergeAll merges').Knows contentType info ↔
      (catalog.mergeAll merges).Knows contentType info := by
  simp only [knows_mergeAll, h.mem_iff]

/--
**A field's use depends on what is recorded of it and on no order**, unless numbers are mixed.

Any catalog and scope with the same records of the field give it the same use.  In particular
the content types may be asked for in any order, in any order where all of them are read, and
the collections may have been merged in any order.
-/
theorem resolve_depends_on_records (field : String) (catalog : FieldCatalog)
    (scope : Option (List String)) (hsorted : Table.Sorted catalog)
    (hmixed : ¬ FieldInfos.Mixed (catalog.observations field scope)) :
    (∀ (other : FieldCatalog) (scope' : Option (List String)), Table.Sorted other →
      SameRecords field other scope' catalog scope →
      other.resolve field scope' = catalog.resolve field scope) ∧
    (∀ names names' : List String, scope = some names → names'.Perm names →
      catalog.resolve field (some names') = catalog.resolve field scope) ∧
    (∀ order : List String, scope = none → order.Perm catalog.keys →
      catalog.resolve field (some order) = catalog.resolve field scope) ∧
    ∀ (base : FieldCatalog) (merges merges' : List (String × FieldInfos)),
      Table.Sorted base → catalog = base.mergeAll merges → merges'.Perm merges →
      (base.mergeAll merges').resolve field scope = catalog.resolve field scope := by
  refine ⟨fun other scope' hother hsame => hsame.resolve_eq hother hsorted hmixed, ?_, ?_, ?_⟩
  · rintro names names' rfl hperm
    have hsame : SameRecords field catalog (some names') catalog (some names) := by
      intro info _
      simp only [Recorded, InScope, Option.mem_some_iff, forall_eq', hperm.mem_iff]
    exact hsame.resolve_eq hsorted hsorted hmixed
  · rintro order rfl hperm
    have hsame : SameRecords field catalog (some order) catalog none := by
      intro info _
      refine exists_congr fun contentType => and_congr_left fun ⟨infos, hfind, _⟩ => ?_
      have hlisted : contentType ∈ order :=
        hperm.mem_iff.mpr (Table.mem_keys_of_mem (Table.mem_of_find? hfind))
      simp [InScope, hlisted]
    exact hsame.resolve_eq hsorted hsorted hmixed
  · rintro base merges merges' hbase rfl hperm
    have hsame : SameRecords field (base.mergeAll merges') scope (base.mergeAll merges) scope := by
      intro info _
      simp only [Recorded, knows_mergeAll_perm hperm]
    exact hsame.resolve_eq (sorted_mergeAll hbase merges') hsorted hmixed

/-- Sizes are whole numbers in notes and numbers with a fraction in tickets. -/
def sizesOfBothKinds : FieldCatalog :=
  mergeAll [] [
    ("note", [⟨"size", .integer, "size", .long, Strategy.int64.name, none⟩]),
    ("ticket", [⟨"size", .float, "size", .double, Strategy.double.name, none⟩])]

/-- Where numbers are mixed, content types asked for in another order make another use. -/
theorem resolve_sizesOfBothKinds :
    sizesOfBothKinds.resolve "size" (some ["note", "ticket"]) = .numeric .double ∧
      sizesOfBothKinds.resolve "size" (some ["ticket", "note"]) = .numeric .long := by
  decide +kernel

/-- Sizes are whole numbers in notes, words in labels, and whole numbers or words in tickets. -/
def sizesAndWords : List (String × FieldInfos) := [
  ("note", [⟨"size", .integer, "size", .long, Strategy.int64.name, none⟩]),
  ("label", [⟨"size", .text, "size", .term, Strategy.identity.name, none⟩]),
  ("ticket", [⟨"size", .text, "size", .term, Strategy.identity.name, none⟩]),
  ("ticket", [⟨"size", .integer, "size", .long, Strategy.int64.name, none⟩])]

theorem resolve_sizesAndWords :
    Table.Sorted (mergeAll [] sizesAndWords) ∧
      ¬ FieldInfos.Mixed
        ((mergeAll [] sizesAndWords).observations "size" (some ["label", "ticket"])) ∧
      (mergeAll [] sizesAndWords).resolve "size" (some ["ticket", "label"])
        = .numeric .long ∧
      (mergeAll [] sizesAndWords.reverse).resolve "size" (some ["label", "ticket"])
        = .numeric .long := by
  have hsorted : Table.Sorted (mergeAll [] sizesAndWords) := by decide +kernel
  have hmixed : ¬ FieldInfos.Mixed
      ((mergeAll [] sizesAndWords).observations "size" (some ["label", "ticket"])) := by
    decide +kernel
  have hfound : (mergeAll [] sizesAndWords).resolve "size" (some ["label", "ticket"])
      = .numeric .long := by
    decide +kernel
  obtain ⟨-, hscopes, -, hmerges⟩ := resolve_depends_on_records "size" (mergeAll [] sizesAndWords)
    (some ["label", "ticket"]) hsorted hmixed
  refine ⟨hsorted, hmixed, ?_, ?_⟩
  · rw [hscopes _ _ rfl (List.Perm.swap "label" "ticket" []), hfound]
  · rw [hmerges [] _ _ Table.sorted_nil rfl sizesAndWords.reverse_perm, hfound]

end FieldCatalog

end DocIndex
