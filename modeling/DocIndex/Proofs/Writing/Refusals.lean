/-
Commits after failures.

A chunk that fails is held against the next commit, and what was made of it before it failed
stays.  So a commit is refused exactly if a chunk failed since the last one, whether that one was
refused or not, while what it would have to write goes back to the last commit that was made.
The two are kept apart here: the failure that is held is known from the deliveries behind the
last commit, and what lies in the segments and what is pending are together all that was ever
made, however many commits were refused in between.
-/
import Mathlib.Data.List.DropRight
import DocIndex.Proofs.Writing.InOrder

namespace DocIndex

open Storage (Commit Filed Holds Reliable Segments)
open Traffic (newIndex plainSettings)

/-! ### What is made of a chunk -/

namespace Edit

/-- The error that an edit fails with. -/
def error? (analyzers : Analyzers) : Edit → Option Error
  | add doc | replace doc =>
    match InvertedIndex.analyze analyzers doc.document with
    | .ok _ => none
    | .error e => some e
  | delete _ => none

/-- The changes that edits make, up to the first that fails. -/
def changesBefore (analyzers : Analyzers) (identityField : String) : List Edit → List Change
  | [] => []
  | edit :: rest =>
    match edit.error? analyzers with
    | some _ => []
    | none => edit.changes identityField ++ changesBefore analyzers identityField rest

theorem analysable_of_error? {analyzers : Analyzers} {edit : Edit}
    (h : edit.error? analyzers = none) : edit.Analysable analyzers := by
  cases edit with
  | delete id => trivial
  | add doc =>
      simp only [error?] at h
      split at h
      · rename_i fields hfields
        exact ⟨fields, hfields⟩
      · cases h
  | replace doc =>
      simp only [error?] at h
      split at h
      · rename_i fields hfields
        exact ⟨fields, hfields⟩
      · cases h

end Edit

namespace DocumentStore

variable {analyzers : Analyzers}

/-- An edit that fails notes its document, which cannot be analysed, and does nothing else. -/
theorem makeEdit_error {edit : Edit} {e : Error} (h : edit.error? analyzers = some e)
    (store : DocumentStore) : ∃ built, edit.documents = [built] ∧
      InvertedIndex.analyze analyzers built.document = .error e ∧
      store.makeEdit analyzers edit = (.error e, store.record built) := by
  cases edit with
  | delete id => cases h
  | add doc =>
      simp only [Edit.error?] at h
      split at h
      · cases h
      · rename_i error herror
        obtain rfl := Option.some.inj h
        refine ⟨doc, rfl, herror, ?_⟩
        simp only [makeEdit, Storage.IndexWriter.add, InvertedIndex.add, herror]
        rfl
  | replace doc =>
      simp only [Edit.error?] at h
      split at h
      · cases h
      · rename_i error herror
        obtain rfl := Option.some.inj h
        refine ⟨doc, rfl, herror, ?_⟩
        simp only [makeEdit, Storage.IndexWriter.update, herror]
        rfl

/-- Noting a document changes nothing in the index. -/
theorem made_record (store : DocumentStore) (built : BuiltDocument) :
    Made analyzers store (store.record built) [] :=
  ⟨rfl, rfl, rfl, rfl, (List.append_nil _).symm, rfl⟩

/-- **Edits are made up to the first that fails.** -/
theorem makeEdits_made : ∀ (edits : List Edit) (store : DocumentStore), ∃ next,
    store.makeEdits analyzers edits
        = ((edits.findSome? (Edit.error? analyzers)).elim (.ok ()) .error, next) ∧
      Made analyzers store next (Edit.changesBefore analyzers store.identityField edits)
  | [], store => ⟨store, rfl, Made.refl store⟩
  | edit :: rest, store => by
      cases herror : edit.error? analyzers with
      | some e =>
          obtain ⟨built, -, -, hmake⟩ := makeEdit_error herror store
          refine ⟨store.record built, ?_, ?_⟩
          · simp [makeEdits, hmake, herror]
          · simpa [Edit.changesBefore, herror] using store.made_record built
      | none =>
          obtain ⟨middle, hmake, hmade⟩ :=
            makeEdit_ok (Edit.analysable_of_error? herror) store
          obtain ⟨next, hrest, hmade'⟩ := makeEdits_made rest middle
          rw [hmade.identityField] at hmade'
          refine ⟨next, ?_, ?_⟩
          · rw [makeEdits, hmake, List.findSome?_cons_of_isNone (by rw [herror]; rfl)]
            exact hrest
          · simpa [Edit.changesBefore, herror] using hmade.trans hmade'

/-- The changes of a chunk are pending, and its failure is held if none was held before. -/
theorem takeEdits_revised (edits : List Edit) (store : DocumentStore) :
    (store.takeEdits analyzers edits).failure
        = store.failure.or (edits.findSome? (Edit.error? analyzers)) ∧
      store.writer.Revised analyzers (Edit.changesBefore analyzers store.identityField edits)
        (store.takeEdits analyzers edits).writer ∧
      (store.takeEdits analyzers edits).identityField = store.identityField := by
  obtain ⟨next, hmake, hmade⟩ := @makeEdits_made analyzers edits store
  have hrevised : store.writer.Revised analyzers
      (Edit.changesBefore analyzers store.identityField edits) next.writer :=
    ⟨hmade.last, hmade.compression, hmade.pending, hmade.index⟩
  rw [takeEdits, hmake]
  cases edits.findSome? (Edit.error? analyzers) with
  | none => exact ⟨by rw [Option.or_none]; exact hmade.failure, hrevised, hmade.identityField⟩
  | some e =>
      refine ⟨?_, hrevised, hmade.identityField⟩
      show some (next.failure.getD e) = store.failure.or (some e)
      rw [hmade.failure]
      cases store.failure <;> rfl

end DocumentStore

/-! ### What arrives -/

namespace Delivery

/-- The failure that a delivery holds against the next commit. -/
def failure? (analyzers : Analyzers) : Delivery → Option Error
  | edits all => all.findSome? (Edit.error? analyzers)
  | failed e => some e
  | commit _ | nothing => none

/-- The changes that a delivery makes. -/
def changes (analyzers : Analyzers) (identityField : String) : Delivery → List Change
  | edits all => Edit.changesBefore analyzers identityField all
  | failed _ | commit _ | nothing => []

end Delivery

/-- The deliveries behind the last commit. -/
def sinceCommit (deliveries : List Delivery) : List Delivery :=
  deliveries.rtakeWhile fun delivery => !delivery.isCommit

/-- The failure that a commit behind the deliveries is refused for. -/
def refusal? (analyzers : Analyzers) (deliveries : List Delivery) : Option Error :=
  (sinceCommit deliveries).findSome? (Delivery.failure? analyzers)

/-- The changes that deliveries make, one after the other. -/
def changesMade (analyzers : Analyzers) (identityField : String) (deliveries : List Delivery) :
    List Change :=
  deliveries.flatMap (Delivery.changes analyzers identityField)

section

variable {analyzers : Analyzers} {identityField : String} {deliveries : List Delivery}

theorem isSome_refusal? : (refusal? analyzers deliveries).isSome = true ↔
    ∃ delivery ∈ sinceCommit deliveries, (delivery.failure? analyzers).isSome = true :=
  List.findSome?_isSome_iff

theorem refusal?_commit (ticket : Nat) :
    refusal? analyzers (deliveries ++ [.commit ticket]) = none := by
  rw [refusal?, sinceCommit, List.rtakeWhile_concat_neg _ _ _ (by simp [Delivery.isCommit])]
  rfl

/-- Another delivery is a reason to refuse a commit if nothing before it is. -/
theorem refusal?_snoc {delivery : Delivery} (h : delivery.isCommit = false) :
    refusal? analyzers (deliveries ++ [delivery])
      = (refusal? analyzers deliveries).or (delivery.failure? analyzers) := by
  have hsince : sinceCommit (deliveries ++ [delivery]) = sinceCommit deliveries ++ [delivery] :=
    List.rtakeWhile_concat_pos _ _ _ (by rw [h]; rfl)
  have hlast : [delivery].findSome? (Delivery.failure? analyzers)
      = delivery.failure? analyzers := by
    cases hfailure : delivery.failure? analyzers <;> simp [hfailure]
  rw [refusal?, hsince, List.findSome?_append, hlast, refusal?]

theorem changesMade_snoc (delivery : Delivery) :
    changesMade analyzers identityField (deliveries ++ [delivery])
      = changesMade analyzers identityField deliveries
        ++ delivery.changes analyzers identityField := by
  simp [changesMade]

end

/-! ### What is held and what is pending -/

namespace WritePipeline

variable {σ : Type} [Storage σ]

/--
A pipeline after deliveries.  Whatever else is done in between leaves the store and the directory
as they are, and may use identifiers up.
-/
inductive Delivered (settings : WriteSettings) (start : WritePipeline σ) :
    List Delivery → WritePipeline σ → Prop where
  | start : Delivered settings start [] start
  | deliver {deliveries : List Delivery} {p : WritePipeline σ} (delivery : Delivery) :
      Delivered settings start deliveries p →
      Delivered settings start (deliveries ++ [delivery]) (p.deliver settings delivery)
  | between {deliveries : List Delivery} {p next : WritePipeline σ} :
      Delivered settings start deliveries p → next.store = p.store →
      next.directory = p.directory → p.identifiers ≤ next.identifiers →
      Delivered settings start deliveries next

/-- What a store and its directory hold of the deliveries. -/
structure Accounts (usable : σ → Prop) (analyzers : Analyzers) (first : DocumentStore)
    (base : List Change) (deliveries : List Delivery) (p : WritePipeline σ) : Prop where
  identityField : p.store.identityField = first.identityField
  failure : p.store.failure = refusal? analyzers deliveries
  index : first.writer.index.replay analyzers
    (changesMade analyzers first.identityField deliveries) = .ok p.store.writer.index
  usable : usable p.directory
  segments : Segments p.store.writer.last.segments
  fresh : ∀ n, p.identifiers ≤ n →
    Storage.Segment.fileName (Identifier.ofNat n) ∉ p.store.writer.last.segments
  /-- What was made is in the segments or pending, also if a commit was refused. -/
  filed : ∃ parts, Filed p.directory p.store.writer.last.segments parts ∧
    parts.flatten ++ p.store.writer.pending
      = base ++ changesMade analyzers first.identityField deliveries

namespace Accounts

variable {usable : σ → Prop} {settings : WriteSettings} {first : DocumentStore}
  {base : List Change} {deliveries : List Delivery} {p next : WritePipeline σ}

theorem start {identifiers : IdentifierSupply} {directory : σ} {ceiling : Nat}
    (h : Clean usable first directory identifiers base) :
    Accounts usable settings.analyzers first base []
      (.ofStore ceiling first directory identifiers) where
  identityField := rfl
  failure := h.failure
  index := rfl
  usable := h.usable
  segments := h.segments
  fresh := h.fresh
  filed := by
    obtain ⟨parts, hfiled, hflat⟩ := h.filed
    refine ⟨parts, hfiled, ?_⟩
    show parts.flatten ++ first.writer.pending = base ++ []
    rw [hflat, h.pending]

theorem between (h : Accounts usable settings.analyzers first base deliveries p)
    (hstore : next.store = p.store) (hdirectory : next.directory = p.directory)
    (hidentifiers : p.identifiers ≤ next.identifiers) :
    Accounts usable settings.analyzers first base deliveries next where
  identityField := hstore ▸ h.identityField
  failure := hstore ▸ h.failure
  index := hstore ▸ h.index
  usable := hdirectory ▸ h.usable
  segments := hstore ▸ h.segments
  fresh := fun n hn => hstore ▸ h.fresh n (hidentifiers.trans hn)
  filed := by
    rw [hstore, hdirectory]
    exact h.filed

/-- A delivery that is not a commit leaves what it made pending, and holds what went wrong. -/
theorem made (h : Accounts usable settings.analyzers first base deliveries p)
    {delivery : Delivery} (hdelivery : delivery.isCommit = false)
    (hdirectory : next.directory = p.directory) (hidentifiers : next.identifiers = p.identifiers)
    (hfailure : next.store.failure = p.store.failure.or (delivery.failure? settings.analyzers))
    (hmade : Storage.IndexWriter.Revised settings.analyzers p.store.writer
      (delivery.changes settings.analyzers first.identityField) next.store.writer)
    (hidentityField : next.store.identityField = p.store.identityField) :
    Accounts usable settings.analyzers first base (deliveries ++ [delivery]) next where
  identityField := hidentityField.trans h.identityField
  failure := by rw [hfailure, h.failure, refusal?_snoc hdelivery]
  index := by
    rw [changesMade_snoc, InvertedIndex.replay_append h.index]
    exact hmade.index
  usable := hdirectory ▸ h.usable
  segments := by
    rw [hmade.last]
    exact h.segments
  fresh := by
    rw [hmade.last, hidentifiers]
    exact h.fresh
  filed := by
    obtain ⟨parts, hfiled, hflat⟩ := h.filed
    refine ⟨parts, ?_, ?_⟩
    · rw [hmade.last, hdirectory]
      exact hfiled
    · rw [hmade.pending, ← List.append_assoc, hflat, changesMade_snoc, List.append_assoc]

/-- Every delivery but a commit is made. -/
theorem deliver (h : Accounts usable settings.analyzers first base deliveries p)
    {delivery : Delivery} (hdelivery : delivery.isCommit = false) :
    Accounts usable settings.analyzers first base (deliveries ++ [delivery])
      (p.deliver settings delivery) := by
  cases delivery with
  | commit ticket => cases hdelivery
  | edits edits =>
      obtain ⟨hfailure, hrevised, hfield⟩ :=
        @DocumentStore.takeEdits_revised settings.analyzers edits p.store
      rw [h.identityField] at hrevised
      exact h.made hdelivery rfl rfl hfailure hrevised hfield
  | failed e =>
      refine h.made hdelivery rfl rfl ?_ ⟨rfl, rfl, (List.append_nil _).symm, rfl⟩ rfl
      show some (p.store.failure.getD e) = p.store.failure.or (some e)
      cases p.store.failure <;> rfl
  | nothing =>
      exact h.made hdelivery rfl rfl (Option.or_none).symm
        ⟨rfl, rfl, (List.append_nil _).symm, rfl⟩ rfl

/-- A commit that is refused leaves everything but the failure as it was. -/
theorem commit_refused (h : Accounts usable settings.analyzers first base deliveries p)
    {e : Error} (hrefusal : refusal? settings.analyzers deliveries = some e) (ticket : Nat) :
    p.deliver settings (.commit ticket)
      = ({ p with store := { p.store with failure := none }, identifiers := p.identifiers + 1 } :
          WritePipeline σ).answer ticket (.error (.commitRefused e.message)) := by
  have hfailure : p.store.failure = some e := h.failure.trans hrefusal
  simp only [WritePipeline.deliver, DocumentStore.answerCommit, hfailure]

/-- A commit that is not refused writes all that was made before it. -/
theorem commit_made (hr : Reliable σ usable)
    (h : Accounts usable settings.analyzers first base deliveries p)
    (hrefusal : refusal? settings.analyzers deliveries = none) (ticket : Nat) :
    ∃ (commit : Commit) (directory : σ),
      p.deliver settings (.commit ticket) = ({ p with
          store := { p.store with
            writer := { p.store.writer with pending := [], last := .ofCommit commit } }
          directory, identifiers := p.identifiers + 1 } : WritePipeline σ).answer ticket
            (.ok commit.generation) ∧
      usable directory ∧ commit.generation = p.store.writer.last.generation + 1 ∧
      commit.userData = p.store.userData ∧ Segments commit.segments ∧
      (∀ name ∈ commit.segments, name ∈ p.store.writer.last.segments ∨
        name = Storage.Segment.fileName (Identifier.ofNat p.identifiers)) ∧
      Holds directory commit (base ++ changesMade settings.analyzers first.identityField deliveries)
      := by
  have hfailure : p.store.failure = none := h.failure.trans hrefusal
  obtain ⟨parts, hfiled, hflat⟩ := h.filed
  obtain ⟨commit, directory, hcommit, husable, hgeneration, huserData, hsegments, hfrom, hholds⟩ :=
    Storage.commit_ok hr h.usable h.segments (h.fresh _ (Nat.le_refl _)) hfiled p.store.userData
      settings.now
  rw [hflat] at hholds
  refine ⟨commit, directory, ?_, husable, hgeneration, huserData, hsegments, hfrom, hholds⟩
  simp only [WritePipeline.deliver, DocumentStore.answerCommit, hfailure, hcommit]
  rfl

/-- Whether it is refused or not, a commit keeps the accounts. -/
theorem commit (hr : Reliable σ usable)
    (h : Accounts usable settings.analyzers first base deliveries p) (ticket : Nat) :
    Accounts usable settings.analyzers first base (deliveries ++ [.commit ticket])
      (p.deliver settings (.commit ticket)) := by
  have hmade : changesMade settings.analyzers first.identityField (deliveries ++ [.commit ticket])
      = changesMade settings.analyzers first.identityField deliveries := by
    rw [changesMade_snoc]
    exact List.append_nil _
  cases hrefusal : refusal? settings.analyzers deliveries with
  | some e =>
      rw [h.commit_refused hrefusal]
      exact ⟨h.identityField, (refusal?_commit ticket).symm, hmade ▸ h.index, h.usable, h.segments,
        fun n hn => h.fresh n (Nat.le_of_succ_le hn), hmade ▸ h.filed⟩
  | none =>
      obtain ⟨commit, directory, hdeliver, husable, -, -, hsegments, hfrom, -, -, parts, hfiled,
        hflat⟩ := h.commit_made hr hrefusal ticket
      rw [hdeliver]
      refine ⟨h.identityField, ?_, hmade ▸ h.index, husable, hsegments, fun n hn hmem => ?_,
        parts, hfiled, ?_⟩
      · exact (h.failure.trans hrefusal).trans (refusal?_commit ticket).symm
      · have hlater : p.identifiers < n := hn
        rcases hfrom _ hmem with hold | hnew
        · exact h.fresh n hlater.le hold
        · exact hlater.ne' (Identifier.ofNat_injective (Storage.segment_injective hnew))
      · rw [hmade, ← hflat]
        exact List.append_nil _

/-- **Whatever arrives, the accounts are kept.** -/
theorem delivered (hr : Reliable σ usable) {origin : WritePipeline σ}
    (horigin : Accounts usable settings.analyzers first base [] origin)
    (h : Delivered settings origin deliveries p) :
    Accounts usable settings.analyzers first base deliveries p := by
  induction h with
  | start => exact horigin
  | @deliver deliveries p delivery _ ih =>
      cases hdelivery : delivery.isCommit with
      | false => exact ih.deliver hdelivery
      | true =>
          cases delivery with
          | commit ticket => exact ih.commit hr ticket
          | _ => cases hdelivery
  | between _ hstore hdirectory hidentifiers ih => exact ih.between hstore hdirectory hidentifiers

end Accounts

/-! ### What commits are answered -/

/--
**A commit is refused exactly if a chunk failed since the last one, and otherwise writes all that
was made since the last one that was not refused.**  Take any deliveries at a clean store in a
directory whose operations succeed.  The index is what the deliveries made of it, one after the
other, of each chunk the edits up to the first that fails, and of a chunk that was not converted
nothing.  Only commits write.  A commit that is refused is answered with the first failure since
the last commit, and leaves the directory and the writer as they were.  Any other is answered with
the next generation, and from then on the directory holds what was made before it, also what was
pending while commits were refused.
-/
theorem commit_answered {usable : σ → Prop} (hr : Reliable σ usable) (settings : WriteSettings)
    (first : DocumentStore) (directory : σ) (identifiers : IdentifierSupply) (ceiling : Nat)
    (base : List Change) (hclean : Clean usable first directory identifiers base)
    (deliveries : List Delivery) (p : WritePipeline σ)
    (h : Delivered settings (.ofStore ceiling first directory identifiers) deliveries p) :
    let made := changesMade settings.analyzers first.identityField deliveries
    first.writer.index.replay settings.analyzers made = .ok p.store.writer.index ∧
    (∀ delivery : Delivery, delivery.isCommit = false →
      (p.deliver settings delivery).directory = p.directory ∧
        (p.deliver settings delivery).store.writer.last = p.store.writer.last) ∧
    (∀ requests turn next e, settings.builder.convert next requests = .error e →
      p.deliver settings ((WriteTask.convert requests turn).result settings.builder next)
        = { p with store := p.store.hold e }) ∧
    ∀ ticket,
      let after := p.deliver settings (.commit ticket)
      ((∃ e, Table.find? after.answers ticket = some (.error e) ∧ e.kind = .conversion) ↔
        ∃ delivery ∈ sinceCommit deliveries,
          (delivery.failure? settings.analyzers).isSome = true) ∧
      (∀ e, refusal? settings.analyzers deliveries = some e →
        Table.find? after.answers ticket = some (.error (.commitRefused e.message)) ∧
          after.directory = p.directory ∧ after.store = { p.store with failure := none }) ∧
      (refusal? settings.analyzers deliveries = none → ∃ commit : Commit,
        Table.find? after.answers ticket = some (.ok commit.generation) ∧
          commit.generation = p.store.writer.last.generation + 1 ∧
          after.store.writer = { p.store.writer with pending := [], last := .ofCommit commit } ∧
          Holds after.directory commit (base ++ made)) := by
  have haccounts : Accounts usable settings.analyzers first base deliveries p :=
    (Accounts.start hclean).delivered hr h
  refine ⟨haccounts.index, fun delivery hdelivery => ?_, fun requests turn next e hconvert => ?_,
    fun ticket => ?_⟩
  · cases delivery with
    | commit ticket => cases hdelivery
    | edits edits => exact ⟨rfl, (DocumentStore.takeEdits_revised edits p.store).2.1.last⟩
    | failed e => exact ⟨rfl, rfl⟩
    | nothing => exact ⟨rfl, rfl⟩
  · simp only [WriteTask.result, hconvert, deliver]
  · cases hrefusal : refusal? settings.analyzers deliveries with
    | some e =>
        have hanswer : Table.find? (p.deliver settings (.commit ticket)).answers ticket
            = some (.error (.commitRefused e.message)) := by
          rw [haccounts.commit_refused hrefusal]
          exact Table.find?_insert_self _ _ _
        refine ⟨⟨fun _ => ?_, fun _ => ⟨_, hanswer, rfl⟩⟩, fun other hother => ?_, fun h => ?_⟩
        · exact isSome_refusal?.mp (by rw [hrefusal]; rfl)
        · obtain rfl := Option.some.inj hother
          rw [haccounts.commit_refused hrefusal] at hanswer ⊢
          exact ⟨hanswer, rfl, rfl⟩
        · cases h
    | none =>
        obtain ⟨commit, last, hdeliver, -, hgeneration, -, -, -, hholds⟩ :=
          haccounts.commit_made hr hrefusal ticket
        have hanswer : Table.find? (p.deliver settings (.commit ticket)).answers ticket
            = some (.ok commit.generation) := by
          rw [hdeliver]
          exact Table.find?_insert_self _ _ _
        refine ⟨⟨fun hrefused => ?_, fun hfailed => ?_⟩, fun e h => (by cases h),
          fun _ => ⟨commit, hanswer, hgeneration, ?_, ?_⟩⟩
        · obtain ⟨e, herror, -⟩ := hrefused
          rw [hanswer] at herror
          cases herror
        · have hsome := isSome_refusal?.mpr hfailed
          rw [hrefusal] at hsome
          cases hsome
        · rw [hdeliver]
          rfl
        · rw [hdeliver]
          exact hholds

/-- Deliveries one right behind the other. -/
theorem Delivered.foldl (settings : WriteSettings) (start : WritePipeline σ)
    (deliveries : List Delivery) :
    Delivered settings start deliveries
      (deliveries.foldl (WritePipeline.deliver settings) start) := by
  induction deliveries using List.reverseRecOn with
  | nil => exact .start
  | append_singleton deliveries delivery ih =>
      rw [List.foldl_append]
      exact .deliver delivery ih

/-- A chunk of a document, and a chunk that cannot be converted. -/
def halfConverted : List Delivery :=
  [[WriteRequest.create (.object [("$id", .text "A")])], [.create (.int 42)]].map fun requests =>
    (WriteTask.convert requests ⟨[0]⟩).result plainSettings.builder 0

/-- A new index in memory when they have arrived. -/
def halfWritten : WritePipeline Storage.Directory :=
  halfConverted.foldl (deliver plainSettings) newIndex

/-- The first commit is refused and the second one writes the document. -/
theorem commit_answered_again :
    let refused := halfWritten.deliver plainSettings (.commit 0)
    let written := refused.deliver plainSettings (.commit 1)
    Table.find? refused.answers 0
        = some (.error (.commitRefused (Error.notAnObject "Integer").message)) ∧
      refused.directory = .inMemory ∧
      ∃ commit document, Table.find? written.answers 1 = some (.ok commit.generation) ∧
        commit.generation = 1 ∧ Holds written.directory commit [.add document] := by
  have hclean : Clean (fun d : Storage.Directory => d.medium = .memory ∧ Table.Sorted d.files)
      newIndex.store newIndex.directory 0 [] :=
    ⟨rfl, rfl, ⟨rfl, Table.sorted_nil⟩, List.forall_mem_nil _, ⟨[], .nil, rfl⟩,
      fun _ _ => List.not_mem_nil⟩
  have hdelivered := Delivered.foldl plainSettings newIndex halfConverted
  obtain ⟨-, -, -, hfirst⟩ := commit_answered Storage.reliable_inMemory plainSettings _ _ _ _ _
    hclean halfConverted halfWritten hdelivered
  obtain ⟨-, -, -, hsecond⟩ := commit_answered Storage.reliable_inMemory plainSettings _ _ _ _ _
    hclean _ _ (hdelivered.deliver (.commit 0))
  obtain ⟨hanswer, hkept, -⟩ := (hfirst 0).2.1 (.notAnObject "Integer") rfl
  obtain ⟨commit, hcommit, hgeneration, -, hholds⟩ := (hsecond 1).2.2 rfl
  exact ⟨hanswer, hkept, commit, _, hcommit, hgeneration, hholds⟩

end WritePipeline

end DocIndex
