/-
What a batch source hands out, and what the one who waits for it is told.

A source is pulled any number of times, and what it hands its batches to may judge them as it likes
and change as it likes.  `Feed` is such a source with all that is seen of it from outside: the
batches with the verdicts on them, what each pull answered, and the results that were sent.  The
batches are noted by the receiver (`noting`), so that they are what the source really handed out.

A pull goes one of five ways (`Pulled`), and after four of them the source has ended.  Only a full
batch that is accepted leaves it active.  So as long as it is active every pull has taken a full
batch, which bounds the number of pulls for which it can be active.
-/
import Mathlib.Logic.Function.Iterate
import DocIndex.Work.Source

namespace DocIndex.Work

variable {α ω : Type}

/-- A receiver that notes what it is handed and how it judges it. -/
def noting (submit : List α → ω → Except Error Unit × ω) (batch : List α)
    (state : ω × List (List α × Except Error Unit)) :
    Except Error Unit × ω × List (List α × Except Error Unit) :=
  let (verdict, next) := submit batch state.1
  (verdict, next, state.2 ++ [(batch, verdict)])

/-- A source that is pulled, with all that is seen of it. -/
structure Feed (α ω : Type) where
  source : BatchSource α
  /-- What the batches are handed to. -/
  state : ω
  /-- The batches that were handed out, with the verdicts on them. -/
  handed : List (List α × Except Error Unit)
  /-- Whether there may be more to come, as each pull answered. -/
  answers : List Bool
  /-- What was sent to the one who waits. -/
  results : List (Except Error Nat)

namespace Feed

/-- A new source. -/
def start (items : List α) (size : Nat) (state : ω) : Feed α ω :=
  ⟨.ofItems items size, state, [], [], []⟩

/-- One pull; a result is sent by the pull that the source ends with. -/
def pull (submit : List α → ω → Except Error Unit × ω) (feed : Feed α ω) : Feed α ω :=
  let (source, state, handed) := feed.source.pull (noting submit) (feed.state, feed.handed)
  ⟨source, state, handed, feed.answers ++ [source.isActive],
    feed.results ++ if feed.source.isActive then source.result.toList else []⟩

/-- So many pulls. -/
def pulls (submit : List α → ω → Except Error Unit × ω) (feed : Feed α ω) : Nat → Feed α ω
  | 0 => feed
  | n + 1 => (feed.pulls submit n).pull submit

variable {submit : List α → ω → Except Error Unit × ω} {feed : Feed α ω} {items : List α}
  {size n : Nat}

/-! ### One pull -/

/-- How a pull goes. -/
inductive Pulled (submit : List α → ω → Except Error Unit × ω) (feed : Feed α ω) : Feed α ω → Prop
  | ended (hended : feed.source.isActive = false) :
      Pulled submit feed { feed with answers := feed.answers ++ [false] }
  | exhausted (hactive : feed.source.result = none) (hitems : feed.source.items = []) :
      Pulled submit feed
        { feed with
          source := { feed.source with result := some (.ok feed.source.submitted) }
          answers := feed.answers ++ [false]
          results := feed.results ++ [.ok feed.source.submitted] }
  | rejected (hactive : feed.source.result = none) (hitems : feed.source.items ≠ []) {e : Error}
      {state : ω}
      (hverdict : submit (feed.source.items.take feed.source.batchSize) feed.state =
        (.error e, state)) :
      Pulled submit feed
        ⟨{ feed.source with
            items := feed.source.items.drop feed.source.batchSize, result := some (.error e) },
          state, feed.handed ++ [(feed.source.items.take feed.source.batchSize, .error e)],
          feed.answers ++ [false], feed.results ++ [.error e]⟩
  | full (hactive : feed.source.result = none)
      (hfull : feed.source.batchSize ≤ feed.source.items.length) {state : ω}
      (hverdict : submit (feed.source.items.take feed.source.batchSize) feed.state =
        (.ok (), state)) :
      Pulled submit feed
        ⟨{ feed.source with
            items := feed.source.items.drop feed.source.batchSize
            submitted := feed.source.submitted + feed.source.batchSize },
          state, feed.handed ++ [(feed.source.items.take feed.source.batchSize, .ok ())],
          feed.answers ++ [true], feed.results⟩
  | short (hactive : feed.source.result = none) (hitems : feed.source.items ≠ [])
      (hshort : feed.source.items.length < feed.source.batchSize) {state : ω}
      (hverdict : submit feed.source.items feed.state = (.ok (), state)) :
      Pulled submit feed
        ⟨{ feed.source with
            items := []
            submitted := feed.source.submitted + feed.source.items.length
            result := some (.ok (feed.source.submitted + feed.source.items.length)) },
          state, feed.handed ++ [(feed.source.items, .ok ())], feed.answers ++ [false],
          feed.results ++ [.ok (feed.source.submitted + feed.source.items.length)]⟩

theorem pull_ended (submit : List α → ω → Except Error Unit × ω)
    (h : feed.source.isActive = false) :
    feed.pull submit = { feed with answers := feed.answers ++ [false] } := by
  simp [pull, BatchSource.pull, h]

theorem take_ne_nil {size : Nat} {items : List α} (hsize : 0 < size) (hitems : items ≠ []) :
    items.take size ≠ [] := by
  rw [Ne, List.take_eq_nil_iff, not_or]
  exact ⟨Nat.ne_of_gt hsize, hitems⟩

theorem pulled (submit : List α → ω → Except Error Unit × ω) (feed : Feed α ω)
    (hsize : 0 < feed.source.batchSize) : Pulled submit feed (feed.pull submit) := by
  by_cases hactive : feed.source.isActive = true
  case neg =>
    have hended : feed.source.isActive = false := by simpa using hactive
    rw [pull_ended submit hended]
    exact .ended hended
  obtain ⟨⟨items, batchSize, submitted, result⟩, state, handed, answers, results⟩ := feed
  obtain rfl : result = none := Option.isNone_iff_eq_none.mp hactive
  have hpos : 0 < batchSize := hsize
  by_cases hitems : items = []
  · subst hitems
    have hpull : pull submit ⟨⟨[], batchSize, submitted, none⟩, state, handed, answers, results⟩ =
        ⟨⟨[], batchSize, submitted, some (.ok submitted)⟩, state, handed, answers ++ [false],
          results ++ [.ok submitted]⟩ := by
      simp [pull, BatchSource.pull, BatchSource.isActive, hpos]
    rw [hpull]
    exact .exhausted rfl rfl
  have htake : (items.take batchSize).isEmpty = false :=
    List.isEmpty_eq_false_iff.mpr (take_ne_nil hpos hitems)
  cases hsubmit : submit (items.take batchSize) state with
  | mk verdict next =>
    cases verdict with
    | error e =>
      have hpull : pull submit ⟨⟨items, batchSize, submitted, none⟩, state, handed, answers,
            results⟩ =
          ⟨⟨items.drop batchSize, batchSize, submitted, some (.error e)⟩, next,
            handed ++ [(items.take batchSize, .error e)], answers ++ [false],
            results ++ [.error e]⟩ := by
        simp [pull, BatchSource.pull, BatchSource.isActive, noting, htake, hsubmit]
      rw [hpull]
      exact .rejected rfl hitems hsubmit
    | ok _ =>
      by_cases hfull : batchSize ≤ items.length
      · have hpull : pull submit ⟨⟨items, batchSize, submitted, none⟩, state, handed, answers,
              results⟩ =
            ⟨⟨items.drop batchSize, batchSize, submitted + batchSize, none⟩, next,
              handed ++ [(items.take batchSize, .ok ())], answers ++ [true], results⟩ := by
          simp [pull, BatchSource.pull, BatchSource.isActive, noting, htake, hsubmit, hfull]
        rw [hpull]
        exact .full rfl hfull hsubmit
      · have hshort : items.length < batchSize := by omega
        have hall : items.take batchSize = items := List.take_of_length_le (Nat.le_of_lt hshort)
        have hrest : items.drop batchSize = [] := List.drop_eq_nil_of_le (Nat.le_of_lt hshort)
        rw [hall] at hsubmit htake
        have hpull : pull submit ⟨⟨items, batchSize, submitted, none⟩, state, handed, answers,
              results⟩ =
            ⟨⟨[], batchSize, submitted + items.length, some (.ok (submitted + items.length))⟩, next,
              handed ++ [(items, .ok ())], answers ++ [false],
              results ++ [.ok (submitted + items.length)]⟩ := by
          simp [pull, BatchSource.pull, BatchSource.isActive, noting, htake, hsubmit, hshort, hall,
            hrest]
        rw [hpull]
        exact .short rfl hitems hshort hsubmit

/-! ### Any number of pulls -/

/-- The answers of so many pulls: first that there may be more, and then that there is no more. -/
def Answered (n : Nat) (answers : List Bool) (active : Bool) : Prop :=
  ∃ working ≤ n, answers = List.replicate working true ++ List.replicate (n - working) false ∧
    (active = true ↔ working = n)

theorem Answered.more {answers : List Bool} (h : Answered n answers true) :
    Answered (n + 1) (answers ++ [true]) true := by
  obtain ⟨working, -, hanswers, hactive⟩ := h
  obtain rfl := hactive.mp rfl
  refine ⟨working + 1, Nat.le_refl _, ?_, iff_of_true rfl rfl⟩
  rw [hanswers, Nat.sub_self, Nat.sub_self, List.replicate_succ']
  simp

theorem Answered.done {answers : List Bool} {active : Bool} (h : Answered n answers active) :
    Answered (n + 1) (answers ++ [false]) false := by
  obtain ⟨working, hle, hanswers, -⟩ := h
  refine ⟨working, by omega, ?_, iff_of_false Bool.false_ne_true (by omega)⟩
  rw [hanswers, List.append_assoc, ← List.replicate_succ', Nat.succ_sub hle]

/-- What holds of a source of some items after so many pulls. -/
structure Sound (items : List α) (size n : Nat) (feed : Feed α ω) : Prop where
  positive : 0 < size
  batchSize : feed.source.batchSize = size
  /-- The batches and what is left are the items, in order. -/
  pieces : (feed.handed.map Prod.fst).flatten ++ feed.source.items = items
  sized : ∀ entry ∈ feed.handed, entry.1 ≠ [] ∧ entry.1.length ≤ size
  answered : Answered n feed.answers feed.source.isActive
  received : feed.results = feed.source.result.toList
  /-- While a source is active, every pull has taken a full batch, which was accepted. -/
  active : feed.source.result = none →
    (∀ entry ∈ feed.handed, entry.2 = .ok () ∧ entry.1.length = size) ∧
      feed.handed.length = n ∧ feed.source.submitted = n * size
  succeeded : ∀ total, feed.source.result = some (.ok total) →
    (∀ entry ∈ feed.handed, entry.2 = .ok ()) ∧ feed.source.items = [] ∧ total = items.length ∧
      items.length < n * size
  failed : ∀ e, feed.source.result = some (.error e) →
    ∃ before batch, feed.handed = before ++ [(batch, .error e)] ∧
      ∀ entry ∈ before, entry.2 = .ok ()

namespace Sound

theorem start (items : List α) (size : Nat) (state : ω) :
    (Feed.start items size state).Sound items (max size 1) 0 where
  positive := by omega
  batchSize := rfl
  pieces := rfl
  sized := by
    intro entry hentry
    cases hentry
  answered := ⟨0, Nat.le_refl 0, rfl, iff_of_true rfl rfl⟩
  received := rfl
  active := by
    intro _
    refine ⟨?_, rfl, (Nat.zero_mul _).symm⟩
    intro entry hentry
    cases hentry
  succeeded := nofun
  failed := nofun

/-- A batch that is taken from the front leaves the items as they are, in order. -/
theorem pieces_take (ok : feed.Sound items size n) (verdict : Except Error Unit) :
    ((feed.handed ++ [(feed.source.items.take size, verdict)]).map Prod.fst).flatten ++
      feed.source.items.drop size = items := by
  rw [List.map_append, List.flatten_append, List.append_assoc]
  simpa using ok.pieces

theorem sized_snoc (ok : feed.Sound items size n) {batch : List α} (hne : batch ≠ [])
    (hle : batch.length ≤ size) (verdict : Except Error Unit) :
    ∀ entry ∈ feed.handed ++ [(batch, verdict)], entry.1 ≠ [] ∧ entry.1.length ≤ size :=
  List.forall_mem_append.mpr ⟨ok.sized, List.forall_mem_singleton.mpr ⟨hne, hle⟩⟩

theorem accepted (ok : feed.Sound items size n) (hactive : feed.source.result = none) :
    ∀ entry ∈ feed.handed, entry.2 = .ok () := by
  intro entry hentry
  exact ((ok.active hactive).1 entry hentry).1

/-- What was submitted and what is left are all the items. -/
theorem submitted_add (ok : feed.Sound items size n) (hactive : feed.source.result = none) :
    feed.source.submitted + feed.source.items.length = items.length := by
  obtain ⟨hfull, hcount, hsubmitted⟩ := ok.active hactive
  have hlengths : (feed.handed.map Prod.fst).flatten.length = feed.handed.length * size := by
    rw [List.length_flatten, List.map_map]
    have hall : feed.handed.map (List.length ∘ Prod.fst) =
        List.replicate feed.handed.length size := by
      rw [List.eq_replicate_iff]
      refine ⟨List.length_map _, ?_⟩
      intro length hlength
      obtain ⟨entry, hentry, rfl⟩ := List.mem_map.mp hlength
      exact (hfull entry hentry).2
    rw [hall, List.sum_replicate_nat]
  have hpieces := congrArg List.length ok.pieces
  rw [List.length_append, hlengths, hcount] at hpieces
  omega

/-- What one pull keeps. -/
theorem pull (ok : feed.Sound items size n) : (feed.pull submit).Sound items size (n + 1) := by
  have hsize : 0 < feed.source.batchSize := ok.batchSize ▸ ok.positive
  have hpulled := pulled submit feed hsize
  generalize feed.pull submit = next at hpulled ⊢
  have hreceived := ok.received
  cases hpulled with
  | ended hended =>
    refine
      { ok with
        answered := hended ▸ ok.answered.done
        active := ?_
        succeeded := ?_ }
    · intro hnone
      rw [BatchSource.isActive, hnone] at hended
      cases hended
    · intro total htotal
      obtain ⟨haccepted, hitems, hlength, hlt⟩ := ok.succeeded total htotal
      refine ⟨haccepted, hitems, hlength, ?_⟩
      rw [Nat.succ_mul]
      omega
  | exhausted hactive hitems =>
    rw [hactive] at hreceived
    obtain ⟨-, -, hsubmitted⟩ := ok.active hactive
    have htotal := ok.submitted_add hactive
    rw [hitems, List.length_nil, Nat.add_zero] at htotal
    refine
      { ok with
        answered := ok.answered.done
        received := congrArg (· ++ _) hreceived
        active := nofun
        succeeded := ?_
        failed := nofun }
    rintro total ⟨⟩
    refine ⟨ok.accepted hactive, hitems, htotal, ?_⟩
    have hpos := ok.positive
    rw [Nat.succ_mul]
    omega
  | rejected hactive hitems hverdict =>
    rw [hactive] at hreceived
    rw [ok.batchSize]
    refine
      { positive := ok.positive
        batchSize := ok.batchSize
        pieces := ok.pieces_take _
        sized := ok.sized_snoc (take_ne_nil ok.positive hitems) (List.length_take_le _ _) _
        answered := ok.answered.done
        received := congrArg (· ++ _) hreceived
        active := nofun
        succeeded := nofun
        failed := ?_ }
    rintro e ⟨⟩
    exact ⟨_, _, rfl, ok.accepted hactive⟩
  | full hactive hfull hverdict =>
    rw [ok.batchSize] at hfull ⊢
    obtain ⟨hbatches, hcount, hsubmitted⟩ := ok.active hactive
    have hlength : (feed.source.items.take size).length = size := List.length_take_of_le hfull
    have hne : feed.source.items.take size ≠ [] :=
      List.ne_nil_of_length_pos (hlength.symm ▸ ok.positive)
    have hopen : feed.source.isActive = true := by
      rw [BatchSource.isActive, hactive]
      rfl
    have hanswered := ok.answered
    rw [hopen] at hanswered
    refine
      { positive := ok.positive
        batchSize := ok.batchSize
        pieces := ok.pieces_take _
        sized := ok.sized_snoc hne (List.length_take_le _ _) _
        answered := ?_
        received := hreceived
        active := ?_
        succeeded := fun total htotal => nomatch hactive.symm.trans htotal
        failed := fun e he => nomatch hactive.symm.trans he }
    · exact (congrArg (Answered (n + 1) (feed.answers ++ [true])) hopen).mpr hanswered.more
    · intro _
      refine ⟨?_, ?_, ?_⟩
      · exact List.forall_mem_append.mpr
          ⟨hbatches, List.forall_mem_singleton.mpr ⟨rfl, hlength⟩⟩
      · rw [List.length_append, hcount]
        rfl
      · rw [Nat.succ_mul]
        exact congrArg (· + size) hsubmitted
  | short hactive hitems hshort hverdict =>
    rw [hactive] at hreceived
    obtain ⟨-, -, hsubmitted⟩ := ok.active hactive
    have htotal := ok.submitted_add hactive
    rw [ok.batchSize] at hshort
    refine
      { positive := ok.positive
        batchSize := ok.batchSize
        pieces := ?_
        sized := ok.sized_snoc hitems (Nat.le_of_lt hshort) _
        answered := ok.answered.done
        received := congrArg (· ++ _) hreceived
        active := nofun
        succeeded := ?_
        failed := nofun }
    · rw [List.map_append, List.flatten_append, List.append_assoc]
      simpa using ok.pieces
    · rintro total ⟨⟩
      have haccepted : ∀ entry ∈ feed.handed ++ [(feed.source.items, .ok ())],
          entry.2 = .ok () :=
        List.forall_mem_append.mpr ⟨ok.accepted hactive, List.forall_mem_singleton.mpr rfl⟩
      refine ⟨haccepted, rfl, htotal, ?_⟩
      rw [Nat.succ_mul]
      omega

/-- What any number of pulls keeps. -/
theorem pulls (submit : List α → ω → Except Error Unit × ω) (items : List α) (size : Nat)
    (state : ω) (n : Nat) :
    ((Feed.start items size state).pulls submit n).Sound items (max size 1) n := by
  induction n with
  | zero => exact .start items size state
  | succ n ih => exact ih.pull

/-- A source is active for as many pulls as there are full batches, unless a batch is rejected. -/
theorem active_iff (ok : feed.Sound items size n) :
    feed.source.isActive = true ↔
      n ≤ items.length / size ∧ ∀ entry ∈ feed.handed, entry.2 = .ok () := by
  rw [BatchSource.isActive, Option.isNone_iff_eq_none, Nat.le_div_iff_mul_le ok.positive]
  constructor
  · intro hactive
    obtain ⟨-, -, hsubmitted⟩ := ok.active hactive
    have htotal := ok.submitted_add hactive
    exact ⟨by omega, ok.accepted hactive⟩
  · intro ⟨hle, haccepted⟩
    cases hresult : feed.source.result with
    | none => rfl
    | some result =>
      exfalso
      cases result with
      | ok total =>
        obtain ⟨-, -, -, hlt⟩ := ok.succeeded total hresult
        omega
      | error e =>
        obtain ⟨before, batch, hhanded, -⟩ := ok.failed e hresult
        have hlast : (batch, Except.error e) ∈ feed.handed := by
          rw [hhanded]
          exact List.mem_append_right _ (List.mem_singleton_self _)
        exact nomatch haccepted _ hlast

end Sound

/-- A source that has ended does nothing more. -/
theorem pulls_ended (h : feed.source.isActive = false) (m : Nat) :
    feed.pulls submit m = { feed with answers := feed.answers ++ List.replicate m false } := by
  induction m with
  | zero => simp [pulls]
  | succ m ih =>
    have hended : ({ feed with answers := feed.answers ++ List.replicate m false } :
        Feed α ω).source.isActive = false := h
    rw [pulls, ih, pull_ended submit hended, List.replicate_succ', List.append_assoc]

/-! ### The notes change nothing -/

theorem pull_noting (submit : List α → ω → Except Error Unit × ω) (source : BatchSource α)
    (state : ω) (handed : List (List α × Except Error Unit)) :
    (source.pull (noting submit) (state, handed)).1 = (source.pull submit state).1 ∧
      (source.pull (noting submit) (state, handed)).2.1 = (source.pull submit state).2 := by
  by_cases hactive : source.isActive
  · by_cases hempty : (source.items.take source.batchSize).isEmpty
    · simp [BatchSource.pull, hactive, hempty]
    · cases hverdict : (submit (source.items.take source.batchSize) state).1 <;>
        simp [BatchSource.pull, noting, hactive, hempty, hverdict]
  · simp [BatchSource.pull, hactive]

/-- A feed is the source that is pulled, with notes. -/
theorem pulls_bare (submit : List α → ω → Except Error Unit × ω) (feed : Feed α ω) (n : Nat) :
    ((feed.pulls submit n).source, (feed.pulls submit n).state) =
      (fun pulled => pulled.1.pull submit pulled.2)^[n] (feed.source, feed.state) := by
  induction n with
  | zero => rfl
  | succ n ih =>
    rw [Function.iterate_succ_apply', ← ih]
    obtain ⟨hsource, hstate⟩ := pull_noting submit (feed.pulls submit n).source
      (feed.pulls submit n).state (feed.pulls submit n).handed
    exact Prod.ext hsource hstate

end Feed

/-- What is seen of a source that was pulled so many times. -/
structure DeliversBatches (submit : List α → ω → Except Error Unit × ω) (items : List α)
    (size : Nat) (state : ω) (n : Nat) (feed : Feed α ω) : Prop where
  /-- It is the source that was pulled. -/
  bare : (feed.source, feed.state) =
    (fun pulled => pulled.1.pull submit pulled.2)^[n] (BatchSource.ofItems items size, state)
  /-- The batches are pieces of the items, one after the other, and the rest is still there. -/
  pieces : (feed.handed.map Prod.fst).flatten ++ feed.source.items = items
  sized : ∀ entry ∈ feed.handed, entry.1 ≠ [] ∧ entry.1.length ≤ max size 1
  /-- The source is active until a batch is rejected or is not full. -/
  active : feed.source.isActive = true ↔
    n ≤ items.length / max size 1 ∧ ∀ entry ∈ feed.handed, entry.2 = .ok ()
  answered : Feed.Answered n feed.answers feed.source.isActive
  /-- Once it has ended it takes nothing, hands out nothing and sends nothing. -/
  ended : feed.source.isActive = false → ∀ m,
    feed.pulls submit m = { feed with answers := feed.answers ++ List.replicate m false }
  /-- One result is sent, at the end: how many items there were, or why a batch was rejected. -/
  result :
    match feed.results with
    | [] => feed.source.isActive = true
    | [.ok total] => feed.source.isActive = false ∧ total = items.length ∧
        (feed.handed.map Prod.fst).flatten = items ∧ ∀ entry ∈ feed.handed, entry.2 = .ok ()
    | [.error e] => feed.source.isActive = false ∧
        ∃ before batch, feed.handed = before ++ [(batch, .error e)] ∧
          ∀ entry ∈ before, entry.2 = .ok ()
    | _ => False

/-- A source hands its items out in batches, and tells in the end how it went. -/
theorem pulls_deliver_batches (submit : List α → ω → Except Error Unit × ω) (items : List α)
    (size : Nat) (state : ω) (n : Nat) :
    DeliversBatches submit items size state n ((Feed.start items size state).pulls submit n) := by
  have ok := Feed.Sound.pulls submit items size state n
  have hbare := Feed.pulls_bare submit (Feed.start items size state) n
  generalize (Feed.start items size state).pulls submit n = feed at ok hbare
  refine
    { bare := hbare
      pieces := ok.pieces
      sized := ok.sized
      active := ok.active_iff
      answered := ok.answered
      ended := Feed.pulls_ended
      result := ?_ }
  rw [ok.received]
  cases hresult : feed.source.result with
  | none =>
    rw [BatchSource.isActive, hresult]
    rfl
  | some result =>
    have hended : feed.source.isActive = false := by
      rw [BatchSource.isActive, hresult]
      rfl
    cases result with
    | ok total =>
      obtain ⟨haccepted, hitems, htotal, -⟩ := ok.succeeded total hresult
      have hpieces := ok.pieces
      rw [hitems, List.append_nil] at hpieces
      exact ⟨hended, htotal, hpieces, haccepted⟩
    | error e => exact ⟨hended, ok.failed e hresult⟩

end DocIndex.Work
