/-
What a store holds after calls, whatever the order of the jobs.

`Kept` compares a pipeline with the deliveries that arrived: the store holds what the edits
among them make of the first store, and the segments of the last commit together with the
pending changes are the changes of these edits.  It does not say how the edits were cut into
chunks, and so neither does anything that follows from it.  Each delivery keeps it, and a
commit among them writes what is pending, which makes the directory hold exactly the changes
of what arrived before it.

The deliveries that arrive are known from `InFlight`: they are those of the calls, in order.
-/
import DocIndex.Proofs.Storage.Durable
import DocIndex.Proofs.Writing.Traffic

namespace DocIndex

open Storage (Commit Filed Holds Reliable Segments)
open Work

/-! ### The edits in deliveries -/

namespace Delivery

/-- The edits that a delivery makes. -/
def made : Delivery → List Edit
  | edits all => all
  | _ => []

/-- Whether a delivery is a commit. -/
def isCommit : Delivery → Bool
  | commit _ => true
  | _ => false

/-- A delivery that does not fail. -/
def Sound (analyzers : Analyzers) : Delivery → Prop
  | edits all => ∀ edit ∈ all, edit.Analysable analyzers
  | failed _ => False
  | _ => True

end Delivery

/-- The edits that deliveries make, in order. -/
def editsIn (deliveries : List Delivery) : List Edit := deliveries.flatMap Delivery.made

@[simp] theorem editsIn_append (first second : List Delivery) :
    editsIn (first ++ second) = editsIn first ++ editsIn second := List.flatMap_append

theorem analysable_editsIn {analyzers : Analyzers} {deliveries : List Delivery}
    (h : ∀ delivery ∈ deliveries, delivery.Sound analyzers) :
    ∀ edit ∈ editsIn deliveries, edit.Analysable analyzers := by
  intro edit hedit
  obtain ⟨delivery, hdelivery, hin⟩ := List.mem_flatMap.mp hedit
  have hsound := h delivery hdelivery
  cases delivery with
  | edits all => exact hsound edit hin
  | failed e => simp [Delivery.made] at hin
  | commit ticket => simp [Delivery.made] at hin
  | nothing => simp [Delivery.made] at hin

namespace Call

/-- The requests of a call. -/
def requests : Call → List WriteRequest
  | write requests _ => requests
  | commit => []

/-- Whether a call asks for a commit. -/
def isCommit : Call → Bool
  | commit => true
  | write _ _ => false

end Call

/-- The requests of calls, in order. -/
def requestsOf (calls : List Call) : List WriteRequest := calls.flatMap Call.requests

/-- How many commits are asked for. -/
def commitCount (calls : List Call) : Nat := calls.countP Call.isCommit

@[simp] theorem commitCount_commit (rest : List Call) :
    commitCount (.commit :: rest) = commitCount rest + 1 :=
  List.countP_cons_of_pos rfl

@[simp] theorem commitCount_write (requests : List WriteRequest) (priority : Priority)
    (rest : List Call) : commitCount (.write requests priority :: rest) = commitCount rest :=
  List.countP_cons_of_neg (by simp [Call.isCommit])

section Asked

variable {builder : DocumentBuilder}

theorem editsIn_chunks (chunks : List (List WriteRequest)) :
    editsIn (writtenDeliveries builder chunks) = builder.editsOf chunks.flatten := by
  induction chunks with
  | nil => rfl
  | cons chunk rest ih =>
      have hrest : editsIn (writtenDeliveries builder (chunk :: rest))
          = builder.editsOf chunk ++ editsIn (writtenDeliveries builder rest) := rfl
      rw [hrest, ih, List.flatten_cons]
      exact List.filterMap_append.symm

/-- What is delivered are the edits of the requests, in order. -/
theorem editsIn_asked (calls : List Call) : ∀ ticket,
    editsIn (askedDeliveries builder ticket calls) = builder.editsOf (requestsOf calls) := by
  induction calls with
  | nil => intro ticket; rfl
  | cons call rest ih =>
      intro ticket
      have happend : builder.editsOf (requestsOf (call :: rest))
          = builder.editsOf call.requests ++ builder.editsOf (requestsOf rest) :=
        List.filterMap_append
      rw [happend]
      cases call with
      | commit => exact ih (ticket + 1)
      | write requests priority =>
          simp only [askedDeliveries, editsIn_append, ih, Call.requests]
          congr 1
          split
          · rename_i hempty
            rw [List.isEmpty_iff.mp hempty]
            rfl
          · rw [editsIn_chunks, chunksOf_flatten]

theorem countP_isCommit_chunks (chunks : List (List WriteRequest)) :
    (writtenDeliveries builder chunks).countP Delivery.isCommit = 0 := by
  refine List.countP_eq_zero.mpr fun delivery hdelivery => ?_
  rcases List.mem_append.mp hdelivery with hchunk | hlast
  · obtain ⟨chunk, -, rfl⟩ := List.mem_map.mp hchunk
    simp [Delivery.isCommit]
  · rw [List.mem_singleton.mp hlast]
    simp [Delivery.isCommit]

/-- Every commit that is asked for is delivered. -/
theorem countP_isCommit_asked (calls : List Call) : ∀ ticket,
    (askedDeliveries builder ticket calls).countP Delivery.isCommit = commitCount calls := by
  induction calls with
  | nil => intro ticket; rfl
  | cons call rest ih =>
      intro ticket
      cases call with
      | commit =>
          rw [askedDeliveries, List.countP_cons_of_pos rfl, ih, commitCount_commit]
      | write requests priority =>
          rw [askedDeliveries, List.countP_append, ih, commitCount_write]
          split <;> simp [countP_isCommit_chunks]

/-- What is asked for first is delivered first, and later commits have later numbers. -/
theorem askedDeliveries_append (first second : List Call) : ∀ ticket,
    askedDeliveries builder ticket (first ++ second) = askedDeliveries builder ticket first ++
      askedDeliveries builder (ticket + commitCount first) second := by
  induction first with
  | nil => intro ticket; rfl
  | cons call rest ih =>
      intro ticket
      cases call with
      | commit =>
          rw [List.cons_append, askedDeliveries, ih, commitCount_commit, Nat.add_right_comm,
            ← Nat.add_assoc]
          rfl
      | write requests priority =>
          rw [List.cons_append, askedDeliveries, ih, commitCount_write, ← List.append_assoc]
          rfl

/-- Commits have the numbers from the first one on, one after the other. -/
theorem mem_commits_asked {ticket : Nat} (calls : List Call) : ∀ first,
    .commit ticket ∈ askedDeliveries builder first calls ↔
      first ≤ ticket ∧ ticket < first + commitCount calls := by
  induction calls with
  | nil => intro first; simp [askedDeliveries, commitCount]
  | cons call rest ih =>
      intro first
      cases call with
      | commit =>
          simp only [askedDeliveries, List.mem_cons, Delivery.commit.injEq, ih, commitCount_commit]
          omega
      | write requests priority =>
          have hnone : .commit ticket ∉ (if requests.isEmpty then []
              else writtenDeliveries builder (chunksOf builder.config.batchSize requests)) := by
            intro hmem
            split at hmem
            · simp at hmem
            · exact List.countP_eq_zero.mp (countP_isCommit_chunks _) _ hmem rfl
          simp only [askedDeliveries, List.mem_append, hnone, false_or, ih, commitCount_write]

theorem sound_asked (calls : List Call) : ∀ ticket,
    ∀ delivery ∈ askedDeliveries builder ticket calls, delivery.Sound builder.analyzers := by
  have hwritten : ∀ chunks, ∀ delivery ∈ writtenDeliveries builder chunks,
      delivery.Sound builder.analyzers := by
    intro chunks delivery hdelivery
    rcases List.mem_append.mp hdelivery with hchunk | hlast
    · obtain ⟨chunk, -, rfl⟩ := List.mem_map.mp hchunk
      exact DocumentBuilder.analysable_editsOf chunk
    · rw [List.mem_singleton.mp hlast]
      trivial
  induction calls with
  | nil => simp [askedDeliveries]
  | cons call rest ih =>
      intro ticket delivery hdelivery
      cases call with
      | commit =>
          rcases List.mem_cons.mp hdelivery with rfl | hrest
          · trivial
          · exact ih _ delivery hrest
      | write requests priority =>
          rcases List.mem_append.mp hdelivery with hfirst | hrest
          · split at hfirst
            · simp at hfirst
            · exact hwritten _ delivery hfirst
          · exact ih _ delivery hrest

end Asked

/-! ### What the store holds -/

/-- The changes to the index that edits make. -/
def changesOf (identityField : String) (edits : List Edit) : List Change :=
  edits.flatMap (Edit.changes identityField)

variable {σ : Type} [Storage σ]

/-- A store without changes since its last commit, whose directory holds given changes. -/
structure Clean (usable : σ → Prop) (store : DocumentStore) (directory : σ)
    (identifiers : IdentifierSupply) (base : List Change) : Prop where
  failure : store.failure = none
  pending : store.writer.pending = []
  usable : usable directory
  segments : Segments store.writer.last.segments
  filed : ∃ parts, Filed directory store.writer.last.segments parts ∧ parts.flatten = base
  /-- No identifier that is still to be handed out names a segment. -/
  fresh : ∀ n, identifiers ≤ n →
    Storage.Segment.fileName (Identifier.ofNat n) ∉ store.writer.last.segments

/-- What a pipeline holds after deliveries. -/
structure Kept (analyzers : Analyzers) (usable : σ → Prop) (first : DocumentStore)
    (base : List Change) (deliveries : List Delivery) (p : WritePipeline σ) : Prop where
  /-- The store is what the edits made of it. -/
  agrees : p.store.Agrees (first.takeEdits analyzers (editsIn deliveries))
  usable : usable p.directory
  segments : Segments p.store.writer.last.segments
  fresh : ∀ n, p.identifiers ≤ n →
    Storage.Segment.fileName (Identifier.ofNat n) ∉ p.store.writer.last.segments
  /-- What is in the segments or pending are the changes of the edits. -/
  filed : ∃ parts, Filed p.directory p.store.writer.last.segments parts ∧
    parts.flatten ++ p.store.writer.pending
      = base ++ changesOf first.identityField (editsIn deliveries)
  generation : p.store.writer.last.generation
    = first.writer.last.generation + deliveries.countP Delivery.isCommit

/-- A commit was answered with its generation, and the directory holds what came before it. -/
def Answered (analyzers : Analyzers) (first : DocumentStore) (base : List Change)
    (deliveries : List Delivery) (ticket : Nat) (p : WritePipeline σ) : Prop :=
  ∃ commit : Commit, Table.find? p.answers ticket = some (.ok commit.generation) ∧
    commit.generation
      = first.writer.last.generation + deliveries.countP Delivery.isCommit + 1 ∧
    commit.userData = (first.takeEdits analyzers (editsIn deliveries)).userData ∧
    Holds p.directory commit (base ++ changesOf first.identityField (editsIn deliveries))

namespace Kept

variable {settings : WriteSettings} {usable : σ → Prop} {first : DocumentStore}
  {base : List Change} {deliveries : List Delivery} {p : WritePipeline σ}

theorem start {identifiers : IdentifierSupply} {directory : σ} {ceiling : Nat}
    (h : Clean usable first directory identifiers base) :
    Kept settings.analyzers usable first base []
      (.ofStore ceiling first directory identifiers) where
  agrees := ⟨rfl, rfl, rfl, rfl, rfl⟩
  usable := h.usable
  segments := h.segments
  fresh := h.fresh
  filed := by
    obtain ⟨parts, hfiled, hflat⟩ := h.filed
    refine ⟨parts, hfiled, ?_⟩
    show parts.flatten ++ first.writer.pending = base ++ []
    rw [hflat, h.pending]
  generation := rfl

/-- Whatever leaves the store and the directory alone keeps this. -/
theorem congr {next : WritePipeline σ} (h : Kept settings.analyzers usable first base deliveries p)
    (hstore : next.store = p.store) (hdirectory : next.directory = p.directory)
    (hidentifiers : p.identifiers ≤ next.identifiers) :
    Kept settings.analyzers usable first base deliveries next where
  agrees := hstore ▸ h.agrees
  usable := hdirectory ▸ h.usable
  segments := hstore ▸ h.segments
  fresh := fun n hn => hstore ▸ h.fresh n (hidentifiers.trans hn)
  filed := by
    rw [hstore, hdirectory]
    exact h.filed
  generation := by rw [hstore, h.generation]

/-- Edits that arrive are made. -/
theorem edits (h : Kept settings.analyzers usable first base deliveries p)
    (hsound : ∀ delivery ∈ deliveries, delivery.Sound settings.analyzers) {edits : List Edit}
    (hedits : ∀ edit ∈ edits, edit.Analysable settings.analyzers) :
    Kept settings.analyzers usable first base (deliveries ++ [.edits edits])
      (p.deliver settings (.edits edits)) := by
  have hmade := DocumentStore.takeEdits_made hedits p.store
  have hin : editsIn (deliveries ++ [.edits edits]) = editsIn deliveries ++ edits := by
    rw [editsIn_append]
    exact congrArg (editsIn deliveries ++ ·) (List.append_nil edits)
  have hidentity : p.store.identityField = first.identityField :=
    h.agrees.identityField.trans
      (DocumentStore.takeEdits_made (analysable_editsIn hsound) first).identityField
  refine ⟨?_, h.usable, ?_, ?_, ?_, ?_⟩
  · rw [hin, DocumentStore.takeEdits_append (analysable_editsIn hsound)]
    exact h.agrees.takeEdits hedits
  · show Segments (p.store.takeEdits settings.analyzers edits).writer.last.segments
    rw [hmade.last]
    exact h.segments
  · show ∀ n, p.identifiers ≤ n →
      _ ∉ (p.store.takeEdits settings.analyzers edits).writer.last.segments
    rw [hmade.last]
    exact h.fresh
  · obtain ⟨parts, hfiled, hflat⟩ := h.filed
    refine ⟨parts, ?_, ?_⟩
    · show Filed p.directory (p.store.takeEdits settings.analyzers edits).writer.last.segments parts
      rw [hmade.last]
      exact hfiled
    · show parts.flatten ++ (p.store.takeEdits settings.analyzers edits).writer.pending = _
      rw [hmade.pending, ← List.append_assoc, hflat, hin, hidentity, List.append_assoc]
      exact congrArg (base ++ ·) List.flatMap_append.symm
  · show (p.store.takeEdits settings.analyzers edits).writer.last.generation = _
    rw [hmade.last, h.generation]
    simp [List.countP_append, Delivery.isCommit]

theorem nothing (h : Kept settings.analyzers usable first base deliveries p) :
    Kept settings.analyzers usable first base (deliveries ++ [.nothing]) p := by
  have hin : editsIn (deliveries ++ [.nothing]) = editsIn deliveries := by
    rw [editsIn_append]
    exact List.append_nil _
  refine ⟨hin ▸ h.agrees, h.usable, h.segments, h.fresh, hin ▸ h.filed, ?_⟩
  rw [h.generation]
  simp [List.countP_append, Delivery.isCommit]

/-- A commit makes the directory hold what arrived before it. -/
theorem commit (hr : Reliable σ usable) (hfirst : first.failure = none)
    (h : Kept settings.analyzers usable first base deliveries p)
    (hsound : ∀ delivery ∈ deliveries, delivery.Sound settings.analyzers) (ticket : Nat) :
    Kept settings.analyzers usable first base (deliveries ++ [.commit ticket])
        (p.deliver settings (.commit ticket)) ∧
      Answered settings.analyzers first base deliveries ticket
        (p.deliver settings (.commit ticket)) ∧
      ∀ other, other ≠ ticket → Table.find? (p.deliver settings (.commit ticket)).answers other
        = Table.find? p.answers other := by
  obtain ⟨parts, hfiled, hflat⟩ := h.filed
  have hmade := DocumentStore.takeEdits_made (analysable_editsIn hsound) first
  have hfailure : p.store.failure = none := by
    rw [h.agrees.failure, hmade.failure, hfirst]
  obtain ⟨commit, directory, hcommit, husable, hgeneration, huserData, hsegments, hfrom,
    hholds⟩ :=
    Storage.commit_ok hr h.usable h.segments (h.fresh _ (Nat.le_refl _)) hfiled p.store.userData
      settings.now
  let writer := { p.store.writer with pending := [], last := .ofCommit commit }
  have hdeliver : p.deliver settings (.commit ticket) =
      ({ p with
        store := { p.store with writer }, directory, identifiers := p.identifiers + 1 } :
        WritePipeline σ).answer ticket (.ok commit.generation) := by
    simp only [WritePipeline.deliver, DocumentStore.answerCommit, hfailure, hcommit]
    rfl
  have hin : editsIn (deliveries ++ [.commit ticket]) = editsIn deliveries := by
    rw [editsIn_append]
    exact List.append_nil _
  have huserData' :
      p.store.userData = (first.takeEdits settings.analyzers (editsIn deliveries)).userData := by
    simp only [DocumentStore.userData, h.agrees.catalog, h.agrees.schemas]
  rw [hflat] at hholds
  rw [hdeliver]
  refine ⟨⟨?_, husable, hsegments, fun n hn hmem => ?_, ?_, ?_⟩,
    ⟨commit, Table.find?_insert_self _ _ _, ?_, ?_, hholds⟩,
    fun other hother => Table.find?_insert_ne _ hother _⟩
  · rw [hin]
    exact ⟨h.agrees.index, h.agrees.catalog, h.agrees.schemas, h.agrees.identityField,
      h.agrees.failure⟩
  · have hlater : p.identifiers < n := hn
    rcases hfrom _ hmem with hold | hnew
    · exact h.fresh n hlater.le hold
    · exact hlater.ne' (Identifier.ofNat_injective (Storage.segment_injective hnew))
  · obtain ⟨-, -, parts', hfiled', hflat'⟩ := hholds
    rw [hin]
    exact ⟨parts', hfiled', by rw [← hflat']; exact List.append_nil _⟩
  · show commit.generation = _
    rw [hgeneration, h.generation]
    simp [List.countP_append, List.countP_cons, Delivery.isCommit, Nat.add_assoc]
  · rw [hgeneration, h.generation]
  · rw [huserData, huserData']

end Kept

/-! ### What is on record -/

/-- A place in a list that is one longer is the last one or a place in the list. -/
theorem snoc_eq_append_cons {α : Type} {xs before after : List α} {x y : α}
    (h : xs ++ [x] = before ++ y :: after) :
    xs = before ∧ x = y ∨ ∃ rest, xs = before ++ y :: rest := by
  rcases List.eq_nil_or_concat after with rfl | ⟨rest, last, rfl⟩
  · obtain ⟨hxs, hlast⟩ := List.append_inj' h rfl
    exact Or.inl ⟨hxs, by simpa using hlast⟩
  · have hsplit : xs ++ [x] = (before ++ y :: rest) ++ [last] := by simpa using h
    exact Or.inr ⟨rest, (List.append_inj' hsplit rfl).1⟩

/-- Deliveries that arrived, each with the pipeline after it, and the pipeline that they led to. -/
structure Recorded (analyzers : Analyzers) (usable : σ → Prop) (first : DocumentStore)
    (base : List Change) (arrived : List (Delivery × WritePipeline σ)) (p : WritePipeline σ) :
    Prop where
  kept : Kept analyzers usable first base (arrived.map Prod.fst) p
  sound : ∀ delivery ∈ arrived.map Prod.fst, delivery.Sound analyzers
  /-- Every commit was answered when it arrived. -/
  answered : ∀ before ticket q after, arrived = before ++ (.commit ticket, q) :: after →
    Answered analyzers first base (before.map Prod.fst) ticket q
  /-- Answers are those of commits that arrived, and are not withdrawn. -/
  answers : ∀ ticket result, Table.find? p.answers ticket = some result →
    ∃ q, (Delivery.commit ticket, q) ∈ arrived ∧ Table.find? q.answers ticket = some result
  kept_answers : ∀ ticket q, (Delivery.commit ticket, q) ∈ arrived →
    ∃ generation, Table.find? p.answers ticket = some (.ok generation)

namespace Recorded

variable {settings : WriteSettings} {usable : σ → Prop} {first : DocumentStore}
  {base : List Change} {arrived : List (Delivery × WritePipeline σ)} {p : WritePipeline σ}

theorem congr {next : WritePipeline σ}
    (h : Recorded settings.analyzers usable first base arrived p) (hstore : next.store = p.store)
    (hdirectory : next.directory = p.directory) (hanswers : next.answers = p.answers)
    (hidentifiers : p.identifiers ≤ next.identifiers) :
    Recorded settings.analyzers usable first base arrived next where
  kept := h.kept.congr hstore hdirectory hidentifiers
  sound := h.sound
  answered := h.answered
  answers := fun ticket result hresult => h.answers ticket result (hanswers ▸ hresult)
  kept_answers := fun ticket q hq => hanswers ▸ h.kept_answers ticket q hq

/-- A delivery that leaves the answers alone and is no commit. -/
theorem quiet (h : Recorded settings.analyzers usable first base arrived p) {delivery : Delivery}
    {q : WritePipeline σ} (hcommit : delivery.isCommit = false)
    (hsound : delivery.Sound settings.analyzers) (hanswers : q.answers = p.answers)
    (hkept : Kept settings.analyzers usable first base (arrived.map Prod.fst ++ [delivery]) q) :
    Recorded settings.analyzers usable first base (arrived ++ [(delivery, q)]) q := by
  have hother : ∀ ticket r, (Delivery.commit ticket, r) ≠ (delivery, q) := by
    intro ticket r heq
    rw [← (Prod.mk.inj heq).1] at hcommit
    simp [Delivery.isCommit] at hcommit
  refine ⟨by simpa using hkept, ?_, ?_, ?_, ?_⟩
  · intro other hmem
    rw [List.map_append] at hmem
    rcases List.mem_append.mp hmem with hold | hnew
    · exact h.sound other hold
    · rw [List.mem_singleton.mp hnew]
      exact hsound
  · intro before ticket r after heq
    rcases snoc_eq_append_cons heq with ⟨-, hlast⟩ | ⟨rest, hold⟩
    · exact absurd hlast.symm (hother ticket r)
    · exact h.answered before ticket r rest hold
  · intro ticket result hresult
    obtain ⟨r, hr, hfound⟩ := h.answers ticket result (hanswers ▸ hresult)
    exact ⟨r, List.mem_append_left _ hr, hfound⟩
  · intro ticket r hr
    rcases List.mem_append.mp hr with hold | hnew
    · exact hanswers ▸ h.kept_answers ticket r hold
    · exact absurd (List.mem_singleton.mp hnew) (hother ticket r)

/-- Every delivery is on record. -/
theorem deliver (hr : Reliable σ usable) (hfirst : first.failure = none)
    (h : Recorded settings.analyzers usable first base arrived p) {delivery : Delivery}
    (hsound : delivery.Sound settings.analyzers) :
    Recorded settings.analyzers usable first base
      (arrived ++ [(delivery, p.deliver settings delivery)]) (p.deliver settings delivery) := by
  cases delivery with
  | edits edits => exact h.quiet rfl hsound rfl (h.kept.edits h.sound hsound)
  | failed e => exact absurd hsound id
  | nothing =>
      exact h.quiet rfl trivial rfl h.kept.nothing
  | commit ticket =>
      obtain ⟨hkept, hanswered, hothers⟩ := h.kept.commit hr hfirst h.sound ticket
      have hfound : ∃ generation, Table.find? (p.deliver settings (.commit ticket)).answers ticket
          = some (.ok generation) := by
        obtain ⟨commit, hcommit, -⟩ := hanswered
        exact ⟨_, hcommit⟩
      refine ⟨by simpa using hkept, ?_, ?_, ?_, ?_⟩
      · intro other hmem
        rw [List.map_append] at hmem
        rcases List.mem_append.mp hmem with hold | hnew
        · exact h.sound other hold
        · rw [List.mem_singleton.mp hnew]
          exact hsound
      · intro before number r after heq
        rcases snoc_eq_append_cons heq with ⟨rfl, hlast⟩ | ⟨rest, hold⟩
        · simp only [Prod.mk.injEq, Delivery.commit.injEq] at hlast
          obtain ⟨rfl, rfl⟩ := hlast
          exact hanswered
        · exact h.answered before number r rest hold
      · intro number result hresult
        by_cases hsame : number = ticket
        · subst hsame
          exact ⟨_, List.mem_append_right _ List.mem_cons_self, hresult⟩
        · rw [hothers number hsame] at hresult
          obtain ⟨r, hr, hfound⟩ := h.answers number result hresult
          exact ⟨r, List.mem_append_left _ hr, hfound⟩
      · intro number r hmem
        by_cases hsame : number = ticket
        · subst hsame
          exact hfound
        · rw [hothers number hsame]
          rcases List.mem_append.mp hmem with hold | hnew
          · exact h.kept_answers number r hold
          · have := List.mem_singleton.mp hnew
            simp only [Prod.mk.injEq, Delivery.commit.injEq] at this
            exact absurd this.1 hsame

/-- Being on record lasts. -/
theorem lasting (hr : Reliable σ usable) (hfirst : first.failure = none) :
    Traffic.Lasting settings (fun delivery => delivery.Sound settings.analyzers)
      (Recorded (σ := σ) settings.analyzers usable first base) where
  congr h hstore hdirectory hanswers hidentifiers :=
    h.congr hstore hdirectory hanswers hidentifiers
  deliver hsound h := h.deliver hr hfirst hsound

end Recorded

/-! ### What every run shows -/

/-- What becomes of calls, however far they and the jobs for them are. -/
structure FollowsCalls (settings : WriteSettings) (first : DocumentStore) (base : List Change)
    (calls : List Call) (w : Traffic σ) : Prop where
  /-- The edits that were made are the first of those that were asked for, each made once. -/
  in_order : ∃ rest,
    editsIn (w.arrived.map Prod.fst) ++ rest = settings.builder.editsOf (requestsOf calls)
  /-- The store is what they made of it. -/
  made : w.pipeline.store.Agrees
    (first.takeEdits settings.analyzers (editsIn (w.arrived.map Prod.fst)))
  /-- A commit that is answered made the directory hold what was asked for before it, no less
  and no more. -/
  persisted : ∀ before after, calls = before ++ .commit :: after → ∀ result,
    Table.find? w.pipeline.answers (commitCount before) = some result →
      ∃ q commit, (Delivery.commit (commitCount before), q) ∈ w.arrived ∧
        Table.find? q.answers (commitCount before) = some result ∧
        result = .ok commit.generation ∧
        commit.generation = first.writer.last.generation + commitCount before + 1 ∧
        commit.userData = (first.takeEdits settings.analyzers
          (settings.builder.editsOf (requestsOf before))).userData ∧
        Holds q.directory commit (base ++ changesOf first.identityField
          (settings.builder.editsOf (requestsOf before)))
  /-- In the end every edit was made, and every commit was made and answered. -/
  completed : w.Done →
    editsIn (w.arrived.map Prod.fst) = settings.builder.editsOf (requestsOf calls) ∧
      w.pipeline.store.writer.last.generation
        = first.writer.last.generation + commitCount calls ∧
      ∀ ticket, ticket < commitCount calls →
        ∃ generation, Table.find? w.pipeline.answers ticket = some (.ok generation)
  /-- Until then there is something to do. -/
  goes_on : w.Done ∨ ∃ move, (w.step settings move).isSome

namespace Traffic

variable {settings : WriteSettings}

theorem done_or_step (w : Traffic σ) : w.Done ∨ ∃ move, (w.step settings move).isSome := by
  by_cases htasks : w.pipeline.tasks = []
  · by_cases hcall : (w.callNext settings).isSome
    · exact Or.inr ⟨.call, hcall⟩
    · refine Or.inl ?_
      unfold callNext at hcall
      split at hcall
      · simp at hcall
      · simp at hcall
      · split at hcall <;> simp at hcall
      · simp at hcall
      · rename_i hwriting hcalls
        exact ⟨hcalls, hwriting, htasks⟩
  · obtain ⟨task, rest, hcons⟩ := List.exists_cons_of_ne_nil htasks
    obtain ⟨entry, entries, hentries, -⟩ := List.map_eq_cons_iff.mp hcons
    refine Or.inr ⟨.work 0, ?_⟩
    simp [step, work, hentries]

theorem followsCalls (settings : WriteSettings) {usable : σ → Prop} (hr : Reliable σ usable)
    (hshared : settings.analyzers = settings.builder.analyzers) {first : DocumentStore}
    {directory : σ} {identifiers : IdentifierSupply} {base : List Change}
    (hclean : Clean usable first directory identifiers base) {calls : List Call}
    (hcalls : ∀ call ∈ calls, call.Convertible settings.builder) {ceiling : Nat}
    {moves : List Move} {w : Traffic σ}
    (hrun : (start (.ofStore ceiling first directory identifiers) calls).run settings moves
      = some w) : FollowsCalls settings first base calls w := by
  have hasked : ∀ delivery ∈ askedDeliveries settings.builder 0 calls,
      delivery.Sound settings.analyzers := by
    rw [hshared]
    exact sound_asked calls 0
  have hstart : (start (.ofStore ceiling first directory identifiers) calls).InFlight
      settings.builder (askedDeliveries settings.builder 0 calls) [] :=
    InFlight.start (p := .ofStore ceiling first directory identifiers)
      (WritePipeline.idle_ofStore ceiling first directory identifiers) hcalls
  have hempty : Recorded settings.analyzers usable first base []
      (.ofStore ceiling first directory identifiers) :=
    ⟨Kept.start hclean, by simp, by simp, by simp [WritePipeline.ofStore], by simp⟩
  obtain ⟨plan, hflight⟩ := hstart.run hrun
  have hrecord := (Recorded.lasting hr hclean.failure).run hasked hstart hempty hrun
  have haccounts := hflight.accounts
  rw [List.append_assoc] at haccounts
  refine ⟨⟨editsIn (plan.map Prod.snd ++ w.upcoming settings.builder), ?_⟩, hrecord.kept.agrees,
    ?_, fun hdone => ?_, w.done_or_step⟩
  · rw [← editsIn_append, haccounts]
    exact editsIn_asked calls 0
  · intro before after hsplit result hresult
    obtain ⟨q, hq, hfound⟩ := hrecord.answers _ result hresult
    obtain ⟨earlier, later, hplace⟩ := List.append_of_mem hq
    obtain ⟨commit, hanswer, hgeneration, huserData, hholds⟩ :=
      hrecord.answered earlier _ q later hplace
    -- Only one commit has this number, so that what arrived before it is what was asked before.
    have hbefore : earlier.map Prod.fst = askedDeliveries settings.builder 0 before := by
      rw [hplace, hsplit, askedDeliveries_append, Nat.zero_add, askedDeliveries, List.map_append,
        List.map_cons, List.append_assoc, List.cons_append] at haccounts
      refine ((List.append_cons_inj_of_notMem ?_ ?_).mp haccounts.symm).1.symm
      · rw [mem_commits_asked]
        omega
      · rw [mem_commits_asked]
        omega
    rw [hbefore, countP_isCommit_asked] at hgeneration
    rw [hbefore, editsIn_asked] at huserData hholds
    rw [hfound] at hanswer
    exact ⟨q, commit, hq, hfound, Option.some.inj hanswer, hgeneration, huserData, hholds⟩
  · have harrived := hflight.arrived_eq hdone
    refine ⟨?_, ?_, fun ticket hticket => ?_⟩
    · rw [harrived]
      exact editsIn_asked calls 0
    · rw [hrecord.kept.generation, harrived]
      exact congrArg _ (countP_isCommit_asked calls 0)
    · have hmem : Delivery.commit ticket ∈ w.arrived.map Prod.fst := by
        rw [harrived]
        exact (mem_commits_asked calls 0).mpr ⟨Nat.zero_le _, by omega⟩
      obtain ⟨⟨delivery, q⟩, hentry, rfl⟩ := List.mem_map.mp hmem
      exact hrecord.kept_answers ticket q hentry

end Traffic

/-- The settings with another size of batches. -/
def WriteSettings.withBatchSize (settings : WriteSettings) (size : Nat) : WriteSettings :=
  { settings with builder := settings.builder.withBatchSize size }

/-- Stores with the same content and the same number of commits. -/
structure SameResults (a b : DocumentStore) : Prop where
  index : a.writer.index = b.writer.index
  catalog : a.catalog = b.catalog
  schemas : a.schemas = b.schemas
  generation : a.writer.last.generation = b.writer.last.generation

/--
**Requests are made in the order in which they were asked for**, each once, in whatever order
the jobs for them are done and whatever the size of the batches; a commit persists exactly what
was asked for before it; and in the end all runs have the same results.
-/
theorem Traffic.calls_in_order {usable : σ → Prop} (hr : Reliable σ usable)
    (settings : WriteSettings) (hshared : settings.analyzers = settings.builder.analyzers)
    (first : DocumentStore) (directory : σ) (identifiers : IdentifierSupply) (base : List Change)
    (hclean : Clean usable first directory identifiers base) (calls : List Call)
    (hcalls : ∀ call ∈ calls, call.Convertible settings.builder) (ceiling size : Nat)
    (moves : List Move) (w : Traffic σ)
    (hrun : (start (.ofStore ceiling first directory identifiers) calls).run
      (settings.withBatchSize size) moves = some w) :
    FollowsCalls (settings.withBatchSize size) first base calls w ∧
      ∀ otherSize otherMoves other,
        (start (.ofStore ceiling first directory identifiers) calls).run
          (settings.withBatchSize otherSize) otherMoves = some other →
        w.Done → other.Done → SameResults w.pipeline.store other.pipeline.store := by
  have hconvertible : ∀ size, ∀ call ∈ calls,
      call.Convertible (settings.withBatchSize size).builder := by
    intro size call hcall
    have hold := hcalls call hcall
    cases call with
    | commit => trivial
    | write requests priority =>
        exact fun request hrequest => (hold request hrequest).withBatchSize size
  have hw := followsCalls (settings.withBatchSize size) hr hshared hclean (hconvertible size) hrun
  refine ⟨hw, fun otherSize otherMoves other hother hdone hdone' => ?_⟩
  have ho := followsCalls (settings.withBatchSize otherSize) hr hshared hclean
    (hconvertible otherSize) hother
  obtain ⟨hedits, hgeneration, -⟩ := hw.completed hdone
  obtain ⟨hedits', hgeneration', -⟩ := ho.completed hdone'
  have hsame : editsIn (w.arrived.map Prod.fst) = editsIn (other.arrived.map Prod.fst) := by
    rw [hedits, hedits']
    exact (DocumentBuilder.editsOf_withBatchSize size _).trans
      (DocumentBuilder.editsOf_withBatchSize otherSize _).symm
  have hmade := hw.made
  rw [hsame] at hmade
  exact ⟨hmade.index.trans ho.made.index.symm, hmade.catalog.trans ho.made.catalog.symm,
    hmade.schemas.trans ho.made.schemas.symm, hgeneration.trans hgeneration'.symm⟩

namespace Traffic

/-- Default settings with the analyzers that are built in. -/
def plainSettings : WriteSettings :=
  ⟨⟨.default, .ofConfig .default, Analyzers.builtIn⟩, Analyzers.builtIn, ⟨0, 0, 0⟩⟩

/-- A pipeline of a new index in memory. -/
def newIndex : WritePipeline Storage.Directory :=
  .ofStore 20 ⟨.empty .lz4, [], [], "$id", none⟩ .inMemory 0

/-- The requests of a write, one of which adds a document. -/
def twoRequests : List WriteRequest := [.create (.object [("$id", .text "a")]), .delete "b"]

/-- The job of the commit is done before the chunks, of which the second is done first. -/
def commitFirst : List Move := [.call, .call, .call, .call, .work 0, .work 1, .work 0]

theorem calls_in_order_commitFirst : ∃ w : Traffic Storage.Directory,
    (start newIndex [.write twoRequests .high, .commit]).run (plainSettings.withBatchSize 1)
      (.call :: commitFirst) = some w ∧
    w.Done ∧ Table.find? w.pipeline.answers 0 = some (.ok 1) ∧
    FollowsCalls (plainSettings.withBatchSize 1) ⟨.empty .lz4, [], [], "$id", none⟩ []
      [.write twoRequests .high, .commit] w := by
  have hcalls : ∀ call ∈ [Call.write twoRequests .high, .commit],
      call.Convertible plainSettings.builder := by
    intro call hcall
    rcases List.mem_pair.mp hcall with rfl | rfl
    · intro request hrequest
      rcases List.mem_pair.mp hrequest with rfl | rfl
      · exact ⟨rfl, "", _, rfl⟩
      · exact ⟨trivial, "", _, rfl⟩
    · trivial
  have hclean : Clean (fun d : Storage.Directory => d.medium = .memory ∧ Table.Sorted d.files)
      ⟨.empty .lz4, [], [], "$id", none⟩ .inMemory 0 [] :=
    ⟨rfl, rfl, ⟨rfl, Table.sorted_nil⟩, by simp [Segments, Storage.IndexWriter.empty,
      Storage.CommitPoint.initial], ⟨[], .nil, rfl⟩, by simp [Storage.IndexWriter.empty,
      Storage.CommitPoint.initial]⟩
  -- The recursion that cuts chunks is unfolded by its equations, and the rest is computed.
  let reserved : Traffic Storage.Directory :=
    ⟨{ newIndex with sequencer := newIndex.sequencer.reserve.1 }, [.commit],
      some ⟨newIndex.sequencer.reserve.2, .high, twoRequests.map fun request => [request]⟩, []⟩
  have hfirst : (start newIndex [.write twoRequests .high, .commit]).run
      (plainSettings.withBatchSize 1) [.call] = some reserved := by
    have hchunks : chunksOf 1 twoRequests = twoRequests.map fun request => [request] := by
      simp [chunksOf, twoRequests]
    simp only [reserved, ← hchunks]
    rfl
  have hrest : ((reserved.run (plainSettings.withBatchSize 1) commitFirst).map fun w =>
      (w.calls.isEmpty && w.writing.isNone && w.pipeline.tasks.isEmpty,
        (Table.find? w.pipeline.answers 0).bind Except.toOption)) = some (true, some 1) := by
    decide +kernel
  obtain ⟨w, hrun, hend⟩ := Option.map_eq_some_iff.mp hrest
  obtain ⟨hdone, hanswer⟩ := Prod.mk.inj hend
  simp only [Bool.and_eq_true, List.isEmpty_iff, Option.isNone_iff_eq_none] at hdone
  have hall := (run_append hfirst).trans hrun
  refine ⟨w, hall, ⟨hdone.1.1, hdone.1.2, hdone.2⟩, ?_,
    (calls_in_order Storage.reliable_inMemory plainSettings rfl _ _ _ _ hclean _ hcalls 20 1 _ w
      hall).1⟩
  obtain ⟨result, hfound, hvalue⟩ := Option.bind_eq_some_iff.mp hanswer
  cases result with
  | ok generation => rw [hfound, Option.some.inj hvalue]
  | error e => simp [Except.toOption] at hvalue

end Traffic

end DocIndex
