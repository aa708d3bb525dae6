/-
What a commit that is answered says of the writes before it.

`Attended` says how the store came to be what it is, and who was answered what.  So when a commit
arrives, the turns of earlier writes have ended, since they come before it, and what they were
ended with arrived before it.  What the order of turns cannot say is that they ended with a value:
a chunk that is dropped ends its turn too, and then the commit waits for it no longer.
-/
import DocIndex.Proofs.Writing.InOrder
import DocIndex.Proofs.Writing.Tasks

namespace DocIndex

open Work
open TurnKey (Before)

/-! ### Failures that are held -/

namespace DocumentStore

theorem makeEdit_failure (analyzers : Analyzers) (store : DocumentStore) (edit : Edit) :
    (store.makeEdit analyzers edit).2.failure = store.failure := by
  cases edit with
  | add doc =>
      unfold makeEdit withWriter
      dsimp only
      split <;> rfl
  | replace doc =>
      unfold makeEdit withWriter
      dsimp only
      split <;> rfl
  | delete id => rfl

/-- Making edits holds no failure and forgets none. -/
theorem makeEdits_failure (analyzers : Analyzers) (edits : List Edit) : ∀ store : DocumentStore,
    (store.makeEdits analyzers edits).2.failure = store.failure := by
  induction edits with
  | nil => intro store; rfl
  | cons edit rest ih =>
      intro store
      have hfirst := makeEdit_failure analyzers store edit
      unfold makeEdits
      split
      · rename_i next hmake
        rw [hmake] at hfirst
        exact (ih next).trans hfirst
      · rename_i e next hmake
        rw [hmake] at hfirst
        exact hfirst

theorem hold_failure (store : DocumentStore) (e : Error) : (store.hold e).failure ≠ none := by
  simp [hold]

/-- A chunk is made, or its failure is held; a failure that is held stays so. -/
theorem takeEdits_cases (analyzers : Analyzers) (store : DocumentStore) (edits : List Edit) :
    store.makeEdits analyzers edits = (.ok (), store.takeEdits analyzers edits) ∧
        (store.takeEdits analyzers edits).failure = store.failure ∨
      (store.takeEdits analyzers edits).failure ≠ none := by
  have hfailure := makeEdits_failure analyzers edits store
  unfold takeEdits
  split
  · rename_i next hmake
    rw [hmake] at hfailure
    exact .inl ⟨hmake, hfailure⟩
  · rename_i e next hmake
    exact .inr (hold_failure next e)

variable {σ : Type} [Storage σ] (store : DocumentStore) (segment : String) (now : Moment)
  (directory : σ)

/-- A commit leaves no failure behind, and is refused if there was one. -/
theorem answerCommit_failure :
    (store.answerCommit segment now directory).2.1.failure = none ∧
      ∀ e, store.failure = some e →
        (store.answerCommit segment now directory).1 = .error (.commitRefused e.message) := by
  unfold answerCommit
  split
  · rename_i e hfailure
    refine ⟨rfl, fun other hother => ?_⟩
    rw [hfailure] at hother
    cases hother
    rfl
  · rename_i hfailure
    refine ⟨?_, fun e he => by rw [hfailure] at he; cases he⟩
    split <;> exact hfailure

end DocumentStore

/-! ### What arrived -/

/-- The value that arrived, with its turn. -/
def Arrival.entry (a : Arrival) : TurnKey × Delivery := (a.turn, a.delivery)

/-- What is delivered is what is made of the store. -/
def Arrival.Faithful (analyzers : Analyzers) (a : Arrival) : Prop :=
  match a.delivery with
  | .edits edits => a.after = a.before.takeEdits analyzers edits
  | .failed e => a.after = a.before.hold e
  | .commit _ => a.after.failure = none
  | .nothing => a.after = a.before

/-- Each delivery finds the store as the one before it left it. -/
def Chained (first : DocumentStore) : List Arrival → DocumentStore → Prop
  | [], last => last = first
  | arrival :: rest, last => arrival.before = first ∧ Chained arrival.after rest last

theorem chained_append {second : List Arrival} {last : DocumentStore} :
    ∀ {arrivals : List Arrival} {first : DocumentStore},
      Chained first (arrivals ++ second) last ↔
        ∃ middle, Chained first arrivals middle ∧ Chained middle second last
  | [], first => ⟨fun h => ⟨first, rfl, h⟩, fun ⟨_, hmiddle, h⟩ => hmiddle ▸ h⟩
  | arrival :: rest, first => by
      rw [List.cons_append, Chained, chained_append]
      exact ⟨fun ⟨hbefore, middle, hrest, h⟩ => ⟨middle, ⟨hbefore, hrest⟩, h⟩,
        fun ⟨middle, ⟨hbefore, hrest⟩, h⟩ => ⟨hbefore, middle, hrest, h⟩⟩

/-- A failure that is not held any more was held against a commit. -/
theorem exists_refusal {analyzers : Analyzers} :
    ∀ {arrivals : List Arrival} {first last : DocumentStore},
      (∀ arrival ∈ arrivals, arrival.Faithful analyzers) → Chained first arrivals last →
      first.failure ≠ none → last.failure = none →
      ∃ middle refusal rest ticket e, arrivals = middle ++ refusal :: rest ∧
        refusal.delivery = .commit ticket ∧ refusal.before.failure = some e
  | [], first, last, _, hchained, hfirst, hlast => absurd (hchained ▸ hlast) hfirst
  | arrival :: rest, first, last, hfaithful, hchained, hfirst, hlast => by
      obtain ⟨rfl, hrest⟩ := hchained
      have hone := hfaithful arrival List.mem_cons_self
      have hothers := fun a ha => hfaithful a (List.mem_cons_of_mem arrival ha)
      have hlater : arrival.after.failure ≠ none →
          ∃ middle refusal later ticket e, arrival :: rest = middle ++ refusal :: later ∧
            refusal.delivery = .commit ticket ∧ refusal.before.failure = some e := by
        intro hafter
        obtain ⟨middle, refusal, later, ticket, e, rfl, hdelivery, hfailure⟩ :=
          exists_refusal hothers hrest hafter hlast
        exact ⟨arrival :: middle, refusal, later, ticket, e, rfl, hdelivery, hfailure⟩
      unfold Arrival.Faithful at hone
      split at hone
      · rename_i edits hdelivery
        refine hlater ?_
        rcases DocumentStore.takeEdits_cases analyzers arrival.before edits with
          ⟨-, hfailure⟩ | hfailure
        · rwa [hone, hfailure]
        · rwa [hone]
      · rename_i e hdelivery
        refine hlater ?_
        rw [hone]
        exact DocumentStore.hold_failure _ e
      · rename_i ticket hdelivery
        obtain ⟨e, hfailure⟩ := Option.ne_none_iff_exists'.mp hfirst
        exact ⟨[], arrival, rest, ticket, e, rfl, hdelivery, hfailure⟩
      · refine hlater ?_
        rwa [hone]

namespace WritePipeline

variable {σ : Type} [Storage σ]

/-- A commit is answered when it arrives, and nobody else is. -/
theorem find?_deliver (settings : WriteSettings) (p : WritePipeline σ) (delivery : Delivery)
    (ticket : Nat) :
    delivery = .commit ticket ∧ Table.find? (p.deliver settings delivery).answers ticket =
        some (p.store.answerCommit (Identifier.ofNat p.identifiers) settings.now p.directory).1 ∨
      delivery ≠ .commit ticket ∧ Table.find? (p.deliver settings delivery).answers ticket =
        Table.find? p.answers ticket := by
  cases delivery with
  | commit other =>
      by_cases hsame : other = ticket
      · subst hsame
        exact .inl ⟨rfl, Table.find?_insert_self _ _ _⟩
      · exact .inr ⟨fun heq => hsame (Delivery.commit.inj heq),
          Table.find?_insert_ne _ (Ne.symm hsame) _⟩
  | edits edits => exact .inr ⟨nofun, rfl⟩
  | failed e => exact .inr ⟨nofun, rfl⟩
  | nothing => exact .inr ⟨nofun, rfl⟩

/-- Whoever waits for a commit that is dropped is answered, and nobody else is. -/
theorem find?_notice (p : WritePipeline σ) (task : WriteTask) (ticket : Nat) :
    (∃ turn, task = .commit turn ticket) ∧
        Table.find? (p.notice task).answers ticket = some (.error .commitAbandoned) ∨
      (∀ turn, task ≠ .commit turn ticket) ∧
        Table.find? (p.notice task).answers ticket = Table.find? p.answers ticket := by
  cases task with
  | commit turn other =>
      by_cases hsame : other = ticket
      · subst hsame
        exact .inl ⟨⟨turn, rfl⟩, Table.find?_insert_self _ _ _⟩
      · exact .inr ⟨fun _ heq => hsame (WriteTask.commit.inj heq).2,
          Table.find?_insert_ne _ (Ne.symm hsame) _⟩
  | convert requests turn => exact .inr ⟨nofun, rfl⟩

/-- What arrives is faithful to what is delivered. -/
theorem faithful_deliver (settings : WriteSettings) (p : WritePipeline σ) (turn : TurnKey)
    (delivery : Delivery) :
    Arrival.Faithful settings.analyzers
      ⟨turn, delivery, p.store, (p.deliver settings delivery).store⟩ := by
  cases delivery with
  | commit ticket =>
      exact (p.store.answerCommit_failure (Identifier.ofNat p.identifiers) settings.now
        p.directory).1
  | edits edits => rfl
  | failed e => rfl
  | nothing => rfl

end WritePipeline

namespace Service

variable {ι σ : Type} {settings : WriteSettings} {first : DocumentStore} {w next : Service ι σ}

/-- How the store came to be what it is, and what commits were answered. -/
structure Attended (settings : WriteSettings) (first : DocumentStore) (w : Service ι σ) :
    Prop where
  sunk : w.arrived.map Arrival.entry = w.sunk
  faithful : ∀ arrival ∈ w.arrived, arrival.Faithful settings.analyzers
  chained : Chained first w.arrived w.pipeline.store
  succeeded : ∀ ticket generation,
    Table.find? w.pipeline.answers ticket = some (.ok generation) →
    ∃ arrival ∈ w.arrived, arrival.delivery = .commit ticket ∧ arrival.before.failure = none
  refused : ∀ arrival ∈ w.arrived, ∀ ticket e, arrival.delivery = .commit ticket →
    arrival.before.failure = some e →
    Table.find? w.pipeline.answers ticket = some (.error (.commitRefused e.message))
  dropped : ∀ turn ticket, .commit turn ticket ∈ w.lost →
    Table.find? w.pipeline.answers ticket = some (.error .commitAbandoned)

namespace Attended

theorem congr (h : Attended settings first w) (harrived : next.arrived = w.arrived)
    (hsunk : next.sunk = w.sunk) (hstore : next.pipeline.store = w.pipeline.store)
    (hanswers : next.pipeline.answers = w.pipeline.answers) (hlost : next.lost = w.lost) :
    Attended settings first next where
  sunk := by rw [harrived, hsunk, h.sunk]
  faithful := by rw [harrived]; exact h.faithful
  chained := by rw [harrived, hstore]; exact h.chained
  succeeded := by rw [harrived, hanswers]; exact h.succeeded
  refused := by rw [harrived, hanswers]; exact h.refused
  dropped := by rw [hlost, hanswers]; exact h.dropped

/-- What arrived was given to its turn. -/
theorem given (h : Attended settings first w) (hmanned : w.Manned) {arrival : Arrival}
    (harrival : arrival ∈ w.arrived) : (arrival.turn, arrival.delivery) ∈ w.given :=
  hmanned.sunk_given (h.sunk ▸ List.mem_map_of_mem harrival)

/-- No turn reaches the store twice. -/
theorem turn_ne (h : Attended settings first w) (hnext : next.Manned) {turn : TurnKey}
    {delivery : Delivery} (hsunk : next.sunk = w.sunk ++ [(turn, delivery)]) {arrival : Arrival}
    (harrival : arrival ∈ w.arrived) : arrival.turn ≠ turn := by
  obtain ⟨hand, hsound⟩ := hnext.sound
  have hordered : (next.sunk.map Prod.fst).Pairwise Before := by
    have hall := hsound.orderly.ordered
    rw [List.map_append] at hall
    exact (List.pairwise_append.mp hall).1
  rw [hsunk, ← h.sunk, List.map_append] at hordered
  have hearlier : arrival.turn ∈ (w.arrived.map Arrival.entry).map Prod.fst :=
    List.mem_map_of_mem (List.mem_map_of_mem harrival)
  exact ((List.pairwise_append.mp hordered).2.2 _ hearlier turn List.mem_cons_self).ne

variable [Storage σ]

/-- A task is dropped; if a commit waits for it, it is answered so. -/
theorem discard (h : Attended settings first w) (hmanned : w.Manned)
    (hrecorded : Recorded settings w) (htraced : Traced settings w) {task : WriteTask}
    (htask : task ∈ w.alive) (harrived : next.arrived = w.arrived) (hsunk : next.sunk = w.sunk)
    (hlost : next.lost = task :: w.lost) (p : WritePipeline σ)
    (hstore : p.store = w.pipeline.store) (hanswers : p.answers = w.pipeline.answers)
    (hpipeline : next.pipeline = p.notice task) : Attended settings first next := by
  have hframe := p.notice_frame task
  refine {
    sunk := ?sunk, faithful := ?faithful, chained := ?chained
    succeeded := ?succeeded, refused := ?refused, dropped := ?dropped }
  case sunk =>
    rw [harrived, hsunk, h.sunk]
  case faithful =>
    rw [harrived]
    exact h.faithful
  case chained =>
    rw [harrived, hpipeline, hframe.2.2.2, hstore]
    exact h.chained
  case succeeded =>
    intro ticket generation hanswer
    rw [hpipeline] at hanswer
    rcases p.find?_notice task ticket with ⟨-, hfind⟩ | ⟨-, hfind⟩
    · rw [hfind] at hanswer
      cases hanswer
    · rw [hfind, hanswers] at hanswer
      rw [harrived]
      exact h.succeeded ticket generation hanswer
  case refused =>
    intro arrival harrival ticket e hdelivery hfailure
    rw [harrived] at harrival
    rw [hpipeline]
    rcases p.find?_notice task ticket with ⟨⟨turn, rfl⟩, -⟩ | ⟨-, hfind⟩
    · -- A commit that arrived was given to its turn, and the one that is dropped was not.
      have hgave : (arrival.turn, Delivery.commit ticket) ∈ w.given :=
        hdelivery ▸ h.given hmanned harrival
      have hturn := htraced.turn_eq hrecorded (.inl htask) (.inr (.inl hgave))
      exact absurd (hturn ▸ List.mem_map_of_mem hgave) (hmanned.not_given (hmanned.turn_mem htask))
    · rw [hfind, hanswers]
      exact h.refused arrival harrival ticket e hdelivery hfailure
  case dropped =>
    intro turn ticket hgone
    rw [hpipeline]
    rcases p.find?_notice task ticket with ⟨-, hfind⟩ | ⟨hother, hfind⟩
    · exact hfind
    · rw [hfind, hanswers]
      rw [hlost] at hgone
      exact h.dropped turn ticket ((List.mem_cons.mp hgone).resolve_left fun heq =>
        hother turn heq.symm)

/-- A value arrives; if it is a commit, it is answered. -/
theorem sink (h : Attended settings first w) (hmanned : w.Manned) (hnext : next.Manned)
    (hrecorded : Recorded settings w) (htraced : Traced settings w) {turn : TurnKey}
    {delivery : Delivery} (hsunk : next.sunk = w.sunk ++ [(turn, delivery)])
    (hgiven : next.given = w.given) (hlost : next.lost = w.lost) (p : WritePipeline σ)
    (hstore : p.store = w.pipeline.store) (hanswers : p.answers = w.pipeline.answers)
    (hpipeline : next.pipeline = p.deliver settings delivery)
    (harrived : next.arrived = w.arrived ++
      [⟨turn, delivery, p.store, (p.deliver settings delivery).store⟩]) :
    Attended settings first next := by
  have hgave : (turn, delivery) ∈ w.given :=
    hgiven ▸ hnext.sunk_given (hsunk ▸ List.mem_append_right _ List.mem_cons_self)
  obtain ⟨hcleared, hrefused⟩ := p.store.answerCommit_failure (Identifier.ofNat p.identifiers)
    settings.now p.directory
  refine {
    sunk := ?sunk, faithful := ?faithful, chained := ?chained
    succeeded := ?succeeded, refused := ?refused, dropped := ?dropped }
  case sunk =>
    rw [harrived, hsunk, ← h.sunk, List.map_append]
    rfl
  case faithful =>
    intro arrival harrival
    rw [harrived] at harrival
    rcases List.mem_append.mp harrival with hold | hnew
    · exact h.faithful arrival hold
    · rw [List.mem_singleton.mp hnew]
      exact p.faithful_deliver settings turn delivery
  case chained =>
    rw [harrived, hpipeline, chained_append]
    exact ⟨w.pipeline.store, h.chained, hstore, rfl⟩
  case succeeded =>
    intro ticket generation hanswer
    rw [hpipeline] at hanswer
    rcases p.find?_deliver settings delivery ticket with ⟨rfl, hfind⟩ | ⟨-, hfind⟩
    · refine ⟨_, harrived ▸ List.mem_append_right _ List.mem_cons_self, rfl, ?_⟩
      cases hfailure : p.store.failure with
      | none => rfl
      | some e =>
          rw [hfind, hrefused e hfailure] at hanswer
          cases hanswer
    · rw [hfind, hanswers] at hanswer
      obtain ⟨arrival, hin, hcommit⟩ := h.succeeded ticket generation hanswer
      exact ⟨arrival, harrived ▸ List.mem_append_left _ hin, hcommit⟩
  case refused =>
    intro arrival harrival ticket e hdelivery hfailure
    rw [hpipeline]
    rw [harrived] at harrival
    rcases List.mem_append.mp harrival with hold | hnew
    · rcases p.find?_deliver settings delivery ticket with ⟨rfl, -⟩ | ⟨-, hfind⟩
      · -- The commit that was refused had the same turn, as it had the same ticket.
        have hturn : arrival.turn = turn := htraced.turn_eq hrecorded (.inr (.inl hgave))
          (.inr (.inl (hdelivery ▸ h.given hmanned hold)))
        exact absurd hturn (h.turn_ne hnext hsunk hold)
      · rw [hfind, hanswers]
        exact h.refused arrival hold ticket e hdelivery hfailure
    · obtain rfl := List.mem_singleton.mp hnew
      cases hdelivery
      rcases p.find?_deliver settings (.commit ticket) ticket with ⟨-, hfind⟩ | ⟨hne, -⟩
      · rw [hfind, hrefused e hfailure]
      · exact absurd rfl hne
  case dropped =>
    intro other ticket hgone
    rw [hlost] at hgone
    rw [hpipeline]
    rcases p.find?_deliver settings delivery ticket with ⟨rfl, -⟩ | ⟨-, hfind⟩
    · have hturn : other = turn :=
        htraced.turn_eq hrecorded (.inr (.inl hgave)) (.inr (.inr hgone))
      exact absurd (hturn ▸ List.mem_map_of_mem hgave) (htraced.gone other ticket hgone).2
    · rw [hfind, hanswers]
      exact h.dropped other ticket hgone

variable [DecidableEq ι]

theorem moved (h : Attended settings first w) (hmanned : w.Manned) (hnext : next.Manned)
    (hrecorded : Recorded settings w) (htraced : Traced settings w)
    (hmoved : Moved settings w next) : Attended settings first next := by
  cases hmoved with
  | skip | take | shut | drain => exact h.congr rfl rfl rfl rfl rfl
  | begin _ hshop | commit _ hshop =>
      exact h.congr rfl (Workshop.of_reserve hshop).2.2.2 rfl rfl rfl
  | split _ _ hshop => exact h.congr rfl (Workshop.of_split hshop).2.2.2.2 rfl rfl rfl
  | accept _ _ hshop | finish _ hshop =>
      exact h.congr rfl (Workshop.of_ready hshop).2.2.2.2 rfl rfl rfl
  | giveUp _ hshop => exact h.congr rfl (Workshop.of_drop hshop).2.2.2.2 rfl rfl rfl
  | collect hshop => exact h.congr rfl (Workshop.of_collect hshop).2.2.2 rfl rfl rfl
  | @queue task priority write hstage =>
      obtain ⟨_, _, _, heq⟩ := w.queue_frame task priority write
      rw [heq]
      exact h.congr rfl rfl rfl rfl rfl
  | @discard _ _ task shop hplace hshop =>
      have htask : task ∈ w.alive := List.mem_append_right _ (List.mem_append_right _
        (List.mem_append_right _ (List.mem_of_getElem? hplace)))
      exact h.discard hmanned hrecorded htraced htask rfl (Workshop.of_drop hshop).2.2.2.2 rfl
        { w.pipeline with sequencer := shop.sequencer } rfl rfl rfl
  | @sink _ _ _ shop hshop hsunk =>
      exact h.sink hmanned hnext hrecorded htraced hsunk (Workshop.of_sink hshop).2.2.1 rfl
        { w.pipeline with sequencer := shop.sequencer } rfl rfl rfl rfl

end Attended

/-! ### What is promised -/

/-- What holds after every move. -/
structure Steady (settings : WriteSettings) (first : DocumentStore) (w : Service ι σ) : Prop where
  manned : w.Manned
  recorded : Recorded settings w
  traced : Traced settings w
  attended : Attended settings first w
  closing : w.Closing

/-- The edits of a chunk were made at its turn. -/
def Applied (settings : WriteSettings) (arrived : List Arrival) (turn : TurnKey)
    (requests : List WriteRequest) : Prop :=
  ∃ arrival ∈ arrived, arrival.turn = turn ∧ ∃ supply edits,
    settings.builder.convert supply requests = .ok edits ∧ arrival.delivery = .edits edits ∧
    arrival.before.makeEdits settings.analyzers edits = (.ok (), arrival.after)

/-- A chunk failed at its turn, and a commit after it was refused. -/
def Reported (w : Service ι σ) (arrived : List Arrival) (turn : TurnKey) : Prop :=
  ∃ earlier failed middle refusal rest, arrived = earlier ++ failed :: (middle ++ refusal :: rest) ∧
    failed.turn = turn ∧ failed.after.failure ≠ none ∧ ∃ ticket e,
      refusal.delivery = .commit ticket ∧ refusal.before.failure = some e ∧
      Table.find? w.pipeline.answers ticket = some (.error (.commitRefused e.message))

/-- What an answer to a commit promises, and what it does not. -/
structure Promised (settings : WriteSettings) (first : DocumentStore) (w : Service ι σ) : Prop where
  /-- Everything that arrived did so in turn, each at the store that was left to it. -/
  chained : Chained first w.arrived w.pipeline.store
  /--
  When a commit succeeds, every chunk of every write that was accepted before the commit was
  called was applied before it, or was reported by a commit before it, or was dropped.
  -/
  committed : ∀ before number ticket after generation,
    w.made = before ++ .commit number ticket :: after →
    Table.find? w.pipeline.answers ticket = some (.ok generation) →
    ∃ earlier commit later, w.arrived = earlier ++ commit :: later ∧
      commit.delivery = .commit ticket ∧ commit.before.failure = none ∧
      ∀ number requests chunks, .write number requests chunks ∈ before →
        (chunks.map Prod.snd).flatten = requests ∧
        ∀ entry ∈ chunks, Applied settings earlier entry.1 entry.2 ∨
          w.Reported earlier entry.1 ∨ .convert entry.2 entry.1 ∈ w.lost
  /-- Whoever waits for a commit whose task is dropped is told so. -/
  abandoned : ∀ turn ticket, .commit turn ticket ∈ w.lost →
    Table.find? w.pipeline.answers ticket = some (.error .commitAbandoned)
  /-- Only a shutdown drops tasks. -/
  closed : w.lost ≠ [] → w.pipeline.scheduler.closed = true

/-- A turn of a smaller number comes first. -/
theorem before_rootTurn {turn : TurnKey} {number other : Nat}
    (hturn : turn.path.head? = some number) (hlt : number < other) :
    Before turn (rootTurn other) := by
  obtain ⟨rest, hpath⟩ := List.head?_eq_some_iff.mp hturn
  show TurnKey.orderPaths turn.path [other] = .lt
  rw [hpath, TurnKey.orderPaths, Nat.compare_eq_lt.mpr hlt]
  rfl

namespace Steady

/-- A task whose turn comes before that of an arrival arrived before it, or was dropped. -/
theorem arrived_before (h : Steady settings first w) {earlier later : List Arrival}
    {arrival : Arrival} (hsplit : w.arrived = earlier ++ arrival :: later) {task : WriteTask}
    (htask : Followed settings w task) (hbefore : Before task.turn arrival.turn) :
    (∃ other ∈ earlier, other.turn = task.turn ∧
      ∃ supply, other.delivery = task.result settings.builder supply) ∨ task ∈ w.lost := by
  obtain ⟨hand, hsound⟩ := h.manned.sound
  have houts : w.sunk ++ hand =
      earlier.map Arrival.entry ++ arrival.entry :: (later.map Arrival.entry ++ hand) := by
    rw [← h.attended.sunk, hsplit, List.map_append, List.map_cons, List.append_assoc]
    rfl
  have hnotBefore : ¬Before arrival.turn task.turn := Std.OrientedCmp.not_lt_of_lt hbefore
  -- What was passed on later, or is still in the sequencer, has a later turn.
  have hlater : ∀ entry ∈ later.map Arrival.entry ++ hand, Before arrival.turn entry.1 := by
    have hordered := List.pairwise_map.mp hsound.orderly.ordered
    change (w.sunk ++ hand).Pairwise _ at hordered
    rw [houts] at hordered
    exact (List.pairwise_cons.mp (List.pairwise_append.mp hordered).2.1).1
  have hthere : task.turn ∉ Table.keys w.pipeline.sequencer.turns := by
    have hout : arrival.turn ∈ (w.sunk ++ hand).map Prod.fst := by
      rw [houts]
      exact List.mem_map_of_mem (List.mem_append_right _ List.mem_cons_self)
    exact fun hkey => hnotBefore (hsound.orderly.ahead arrival.turn hout task.turn hkey)
  rcases htask with halive | ⟨supply, hgave⟩ | hgone
  · obtain ⟨parts, hfound⟩ := (hsound.held task.turn).mp (h.manned.turn_mem halive)
    exact absurd (Table.mem_keys_of_mem (Table.mem_of_find? hfound)) hthere
  · left
    rcases (hsound.accounted task.turn (task.result settings.builder supply)).mp hgave with
      hout | hready
    · change (task.turn, task.result settings.builder supply) ∈ w.sunk ++ hand at hout
      rw [houts] at hout
      rcases List.mem_append.mp hout with hearlier | hrest
      · obtain ⟨other, hother, heq⟩ := List.mem_map.mp hearlier
        obtain ⟨hturn, hdelivery⟩ := Prod.mk.inj heq
        exact ⟨other, hother, hturn, supply, hdelivery⟩
      · rcases List.mem_cons.mp hrest with heq | hafter
        · exact absurd (congrArg Prod.fst heq) hbefore.ne
        · exact absurd (hlater _ hafter) hnotBefore
    · exact absurd (Table.mem_keys_of_mem (Table.mem_of_find? hready)) hthere
  · exact .inr hgone

/-- A chunk that arrived before a commit without a failure was applied or reported. -/
theorem applied_or_reported (h : Steady settings first w) {earlier later : List Arrival}
    {commit other : Arrival} (hsplit : w.arrived = earlier ++ commit :: later)
    (hfailure : commit.before.failure = none) {requests : List WriteRequest} {turn : TurnKey}
    (hother : other ∈ earlier) (hturn : other.turn = turn) {supply : IdentifierSupply}
    (hdelivery : other.delivery =
      (WriteTask.convert requests turn).result settings.builder supply) :
    Applied settings earlier turn requests ∨ w.Reported earlier turn := by
  have hfaithful : ∀ arrival ∈ earlier, arrival.Faithful settings.analyzers := fun arrival hin =>
    h.attended.faithful arrival (hsplit ▸ List.mem_append_left _ hin)
  -- If it failed, the failure was held until a commit was refused.
  have hreported : other.after.failure ≠ none → w.Reported earlier turn := by
    intro hafter
    obtain ⟨front, back, rfl⟩ := List.append_of_mem hother
    have hchained := h.attended.chained
    rw [hsplit, List.append_assoc, chained_append] at hchained
    obtain ⟨_, -, rfl, hrest⟩ := hchained
    obtain ⟨_, hback, rfl, -⟩ := chained_append.mp hrest
    obtain ⟨middle, refusal, rest, ticket, e, rfl, hcommit, hheld⟩ := exists_refusal
      (fun arrival hin => hfaithful arrival (List.mem_append_right _ (List.mem_cons_of_mem _ hin)))
      hback hafter hfailure
    refine ⟨front, other, middle, refusal, rest, rfl, hturn, hafter, ticket, e, hcommit, hheld, ?_⟩
    refine h.attended.refused refusal ?_ ticket e hcommit hheld
    simp [hsplit]
  have hone := hfaithful other hother
  unfold Arrival.Faithful at hone
  rw [hdelivery] at hone
  cases hconvert : settings.builder.convert supply requests with
  | ok edits =>
      have hresult : (WriteTask.convert requests turn).result settings.builder supply
          = .edits edits := by simp only [WriteTask.result, hconvert]
      rw [hresult] at hone hdelivery
      rcases DocumentStore.takeEdits_cases settings.analyzers other.before edits with
        ⟨hmake, -⟩ | hafter
      · exact .inl ⟨other, hother, hturn, supply, edits, hconvert, hdelivery, hone ▸ hmake⟩
      · exact .inr (hreported (hone ▸ hafter))
  | error e =>
      have hresult : (WriteTask.convert requests turn).result settings.builder supply
          = .failed e := by simp only [WriteTask.result, hconvert]
      rw [hresult] at hone
      exact .inr (hreported (hone ▸ DocumentStore.hold_failure _ e))

theorem promised (h : Steady settings first w) : Promised settings first w where
  chained := h.attended.chained
  committed := by
    intro before number ticket after generation hmade hanswer
    obtain ⟨commit, hcommit, hdelivery, hfailure⟩ :=
      h.attended.succeeded ticket generation hanswer
    obtain ⟨earlier, later, hsplit⟩ := List.append_of_mem hcommit
    refine ⟨earlier, commit, later, hsplit, hdelivery, hfailure, ?_⟩
    -- The commit arrived at the turn of its call.
    have hturn : commit.turn = rootTurn number := by
      obtain ⟨other, hturn, hcall⟩ := h.traced.asked commit.turn ticket
        (.inr (.inl (hdelivery ▸ h.attended.given h.manned hcommit)))
      rw [hturn, h.recorded.number_eq (hmade ▸ List.mem_append_right _ List.mem_cons_self) hcall]
    intro writing requests chunks hwrite
    have hcall : .write writing requests chunks ∈ w.made := hmade ▸ List.mem_append_left _ hwrite
    obtain ⟨hpieces, hturns⟩ := h.recorded.cut _ hcall
    refine ⟨by rw [hpieces, chunksOf_flatten], fun entry hentry => ?_⟩
    have hbefore : Before entry.1 commit.turn :=
      hturn ▸ before_rootTurn (hturns entry hentry) (h.recorded.number_lt hmade hwrite)
    have hpiece : entry ∈ w.pieces :=
      List.mem_append_left _ (List.mem_flatMap.mpr ⟨_, hcall, hentry⟩)
    rcases h.arrived_before hsplit (h.traced.pieces entry hpiece) hbefore with
      ⟨other, hother, hsame, supply, hresult⟩ | hgone
    · rcases h.applied_or_reported hsplit hfailure hother hsame hresult with happlied | hreported
      · exact .inl happlied
      · exact .inr (.inl hreported)
    · exact .inr (.inr hgone)
  abandoned := h.attended.dropped
  closed := fun hlost => h.closing.closed (.inr hlost)

theorem start (ceiling : Nat) (first : DocumentStore) (directory : σ)
    (identifiers : IdentifierSupply) (calls : List Call) :
    Steady settings first
      (Service.start (.ofStore ceiling first directory identifiers) calls : Service ι σ) where
  manned := ⟨⟨[], Workshop.Sound.start⟩, List.Perm.refl _⟩
  recorded := by
    refine ⟨⟨List.Pairwise.nil, ?_⟩, ⟨List.Pairwise.nil, ?_⟩, ?_, ?_⟩ <;>
      simp [Service.start, Stage.number?, Stage.write?]
  traced := by
    refine ⟨?_, ?_, ?_⟩ <;>
      simp [Service.start, pieces, Stage.write?, Commits, alive, Stage.tasks, WritePipeline.tasks,
        WritePipeline.ofStore, Scheduler.idle, PriorityQueue.empty]
  attended := by
    refine ⟨rfl, ?_, rfl, ?_, ?_, ?_⟩ <;> simp [Service.start, WritePipeline.ofStore]
  closing := ⟨rfl, by simp [Service.start]⟩

variable [DecidableEq ι] [Storage σ]

theorem moved (h : Steady settings first w) (hmoved : Moved settings w next) :
    Steady settings first next := by
  have hmanned := h.manned.moved hmoved
  exact ⟨hmanned, h.recorded.moved hmoved, h.traced.moved h.manned h.recorded hmoved,
    h.attended.moved h.manned hmanned h.recorded h.traced hmoved, h.closing.moved hmoved⟩

end Steady

/--
**A commit that succeeds comes after the writes before it**, however the caller, the workers and a
shutdown interleave: each of their chunks was applied before it, or was reported by a commit that
was refused, or was dropped by the shutdown.
-/
theorem run_promised [DecidableEq ι] [Storage σ] (settings : WriteSettings)
    (first : DocumentStore) (directory : σ) (identifiers : IdentifierSupply) (ceiling : Nat)
    (calls : List Call) (moves : List (ι × Move)) (w : Service ι σ)
    (hrun : (start (.ofStore ceiling first directory identifiers) calls).run settings moves
      = some w) : Promised settings first w := by
  have hmoved : ∀ {v next : Service ι σ}, Steady settings first v → Moved settings v next →
      Steady settings first next := fun h hmoved => h.moved hmoved
  have hstart : Steady settings first
      (start (.ofStore ceiling first directory identifiers) calls : Service ι σ) :=
    Steady.start ceiling first directory identifiers calls
  exact (run_keeps hmoved hstart hrun).promised

/-- The service when the turn of the first write is reserved. -/
def reserved (requests : List WriteRequest) (chunks : List (List WriteRequest))
    (calls : List Call) : Service Nat Storage.Directory :=
  { start { Traffic.newIndex with sequencer := Traffic.newIndex.sequencer.reserve.1 } calls with
    held := [rootTurn 0]
    stage := .sending ⟨0, .high, requests, [], chunks⟩ }

/-- Two workers: one does the commit and the first chunk, the other one the second chunk. -/
def converted : List (Nat × Move) :=
  [(0, .call), (0, .call), (0, .call), (0, .call), (0, .call), (0, .collect), (0, .call),
    (0, .call), (1, .take 0), (1, .finish 0), (1, .collect), (2, .take 1), (1, .take 0),
    (2, .finish 1), (2, .collect), (1, .finish 0), (1, .collect), (1, .sink), (1, .sink),
    (1, .sink), (1, .sink), (1, .collect)]

theorem run_promised_converted : ∃ w : Service Nat Storage.Directory,
    (start Traffic.newIndex [.write Traffic.twoRequests .high, .commit]).run
      (Traffic.plainSettings.withBatchSize 1) ((0, .call) :: converted) = some w ∧
    (Table.find? w.pipeline.answers 0).bind Except.toOption = some 1 ∧ w.lost.isEmpty = true ∧
    Promised (Traffic.plainSettings.withBatchSize 1) ⟨.empty .lz4, [], [], "$id", none⟩ w := by
  -- The recursion that cuts chunks is unfolded by its equations, and the rest is computed.
  have hfirst : (start Traffic.newIndex [.write Traffic.twoRequests .high, .commit]).step
      (Traffic.plainSettings.withBatchSize 1) 0 .call = some (reserved Traffic.twoRequests
        (Traffic.twoRequests.map fun request => [request]) [.commit]) := by
    have hchunks : chunksOf 1 Traffic.twoRequests
        = Traffic.twoRequests.map fun request => [request] := by
      simp [chunksOf, Traffic.twoRequests]
    rw [← hchunks]
    rfl
  have hrest : ((reserved Traffic.twoRequests
      (Traffic.twoRequests.map fun request => [request]) [.commit]).run
      (Traffic.plainSettings.withBatchSize 1) converted).map (fun w =>
        ((Table.find? w.pipeline.answers 0).bind Except.toOption, w.lost.isEmpty))
      = some (some 1, true) := by
    decide +kernel
  obtain ⟨w, hrun, hend⟩ := Option.map_eq_some_iff.mp hrest
  obtain ⟨hanswer, hlost⟩ := Prod.mk.inj hend
  have hall : (start Traffic.newIndex [.write Traffic.twoRequests .high, .commit]).run
      (Traffic.plainSettings.withBatchSize 1) ((0, .call) :: converted) = some w := by
    rw [run, hfirst]
    exact hrun
  exact ⟨w, hall, hanswer, hlost, run_promised _ _ _ _ 20 _ _ w hall⟩

/-- A document that is created. -/
def oneRequest : List WriteRequest := [.create (.object [("$id", .text "A")])]

/-- The commit waits for the chunk when the service is shut, and the chunk is dropped. -/
def overtaken : List (Nat × Move) :=
  [(0, .call), (0, .call), (0, .call), (0, .collect), (0, .call), (0, .call), (1, .take 0),
    (1, .finish 0), (1, .collect), (2, .shut), (2, .drain), (2, .discard 0), (2, .collect),
    (2, .sink), (2, .sink), (2, .collect)]

/-- Whether a write and then a commit were asked for, and the chunk of the write was dropped. -/
def chunkDropped (w : Service Nat Storage.Directory) : Bool :=
  match w.made, w.lost with
  | [.write _ _ [(turn, _)], .commit _ 0], [.convert _ dropped] =>
    dropped = turn && w.arrived.all fun arrival => arrival.turn ≠ turn
  | _, _ => false

/-- A commit can succeed although a write that was accepted before it is never made. -/
theorem answered_without_write : ∃ w : Service Nat Storage.Directory,
    (start Traffic.newIndex [.write oneRequest .high, .commit]).run Traffic.plainSettings
      ((0, .call) :: overtaken) = some w ∧
    ∃ number requests turn chunk commit, w.made =
        [.write number requests [(turn, chunk)], .commit commit 0] ∧
      (Table.find? w.pipeline.answers 0).bind Except.toOption = some 1 ∧
      ¬Applied Traffic.plainSettings w.arrived turn chunk := by
  have hfirst : (start Traffic.newIndex [.write oneRequest .high, .commit]).step
      Traffic.plainSettings 0 .call = some (reserved oneRequest [oneRequest] [.commit]) := by
    have hchunks : chunksOf 250 oneRequest = [oneRequest] := by simp [chunksOf, oneRequest]
    rw [← hchunks]
    rfl
  have hrest : ((reserved oneRequest [oneRequest] [.commit]).run Traffic.plainSettings
      overtaken).map (fun w =>
        ((Table.find? w.pipeline.answers 0).bind Except.toOption, w.chunkDropped))
      = some (some 1, true) := by
    decide +kernel
  obtain ⟨w, hrun, hend⟩ := Option.map_eq_some_iff.mp hrest
  obtain ⟨hanswer, hdropped⟩ := Prod.mk.inj hend
  refine ⟨w, by rw [run, hfirst]; exact hrun, ?_⟩
  unfold chunkDropped at hdropped
  split at hdropped
  · rename_i number requests turn chunk commit _ dropped hmade hlost
    refine ⟨number, requests, turn, chunk, commit, hmade, hanswer, ?_⟩
    rintro ⟨arrival, harrival, hturn, -⟩
    simp only [Bool.and_eq_true, List.all_eq_true, decide_eq_true_eq] at hdropped
    exact hdropped.2 arrival harrival hturn
  · cases hdropped

end Service

end DocIndex
