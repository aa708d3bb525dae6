/-
Turns with planned values.

Where it is known from the start what each turn will end with, the values stand in a plan, in
the order of the turns.  A sequencer then is at any time a plan with the marks of what was
done: each turn is pending or has its planned value.  New turns put their values into the plan
at their place, and whatever is delivered is taken from the front of the plan.  So in the end
the whole plan was delivered, in whatever order the turns were ended.
-/
import Mathlib.Data.List.Forall2
import DocIndex.Proofs.Work.Sequencer

namespace DocIndex.Work.Sequencer

open TurnKey (Before)

variable {α : Type}

/-- Whether a turn is reserved or split off and was not ended. -/
def Pending (s : Sequencer α) (turn : TurnKey) : Prop :=
  ∃ parts, Table.find? s.turns turn = some (.pending parts)

/-- A turn that is pending or has the value that was planned for it. -/
def Fulfils (entry : TurnKey × Turn α) (planned : TurnKey × α) : Prop :=
  entry.1 = planned.1 ∧ (entry.2.isPending = true ∨ entry.2 = .ready planned.2)

/-- A sequencer whose turns follow a plan, with nothing at the front that could be delivered. -/
structure Planned (s : Sequencer α) (plan : List (TurnKey × α)) : Prop where
  orderly : ∃ passed, Orderly s passed
  waiting : s.Waiting
  fulfils : List.Forall₂ Fulfils s.turns plan

/-! ### What a plan says of the turns -/

theorem isPending_iff {turn : Turn α} : turn.isPending = true ↔ ∃ parts, turn = .pending parts := by
  cases turn <;> simp [Turn.isPending]

theorem keys_eq_of_fulfils {turns : Table TurnKey (Turn α)} {plan : List (TurnKey × α)}
    (h : List.Forall₂ Fulfils turns plan) : Table.keys turns = plan.map Prod.fst := by
  induction h with
  | nil => rfl
  | cons hfirst _ ih => exact congrArg₂ List.cons hfirst.1 ih

/-- The leading turns that are ended give the values at the front of the plan. -/
theorem front_of_fulfils {turns : Table TurnKey (Turn α)} {plan : List (TurnKey × α)}
    (h : List.Forall₂ Fulfils turns plan) :
    ∃ n, readyEntries (turns.takeWhile fun entry => !entry.2.isPending) = plan.take n ∧
      List.Forall₂ Fulfils (turns.dropWhile fun entry => !entry.2.isPending) (plan.drop n) := by
  induction h with
  | nil => exact ⟨0, rfl, .nil⟩
  | @cons entry planned turns plan hfirst hrest ih =>
      obtain ⟨key, turn⟩ := entry
      obtain ⟨rfl, hturn⟩ := hfirst
      cases hpending : turn.isPending with
      | true =>
          refine ⟨0, by simp [hpending, readyEntries], ?_⟩
          simpa [hpending] using List.Forall₂.cons ⟨rfl, hturn⟩ hrest
      | false =>
          obtain ⟨n, htake, hdrop⟩ := ih
          obtain rfl := hturn.resolve_left (by simp [hpending])
          refine ⟨n + 1, ?_, ?_⟩
          · have hcons : ∀ rest : Table TurnKey (Turn α),
                readyEntries ((planned.1, Turn.ready planned.2) :: rest)
                  = planned :: readyEntries rest := fun _ => rfl
            simpa [Turn.isPending, hcons] using htake
          · simpa [Turn.isPending] using hdrop

/-- Ending a turn as planned keeps to the plan. -/
theorem fulfils_insert {turns : Table TurnKey (Turn α)} {plan : List (TurnKey × α)}
    (hs : Table.Sorted turns) (h : List.Forall₂ Fulfils turns plan) {turn : TurnKey} {value : α}
    (hturn : (turn, value) ∈ plan) :
    List.Forall₂ Fulfils (Table.insert turns turn (.ready value)) plan := by
  induction h with
  | nil => simp at hturn
  | @cons entry planned turns plan hfirst hrest ih =>
      obtain ⟨hbefore, hs'⟩ := Table.sorted_cons.mp hs
      rcases List.mem_cons.mp hturn with rfl | hlater
      · have heq : compare turn entry.1 = .eq := by
          rw [hfirst.1]
          exact Std.ReflCmp.compare_self
        simp only [Table.insert, Table.alter, heq]
        exact .cons ⟨rfl, Or.inr rfl⟩ hrest
      · have hkey : turn ∈ Table.keys turns := by
          rw [keys_eq_of_fulfils hrest]
          exact List.mem_map.mpr ⟨_, hlater, rfl⟩
        obtain ⟨other, hother, rfl⟩ := List.mem_map.mp hkey
        have hgt : compare other.1 entry.1 = .gt := Std.OrientedCmp.gt_of_lt (hbefore other hother)
        simp only [Table.insert, Table.alter, hgt]
        exact .cons hfirst (ih hs' hlater)

namespace Planned

variable {s : Sequencer α} {plan : List (TurnKey × α)}

theorem empty : (Sequencer.empty : Sequencer α).Planned [] where
  orderly := ⟨[], Orderly.empty⟩
  waiting := fun key outcome h => by simp [Sequencer.empty] at h
  fulfils := .nil

/-- If nothing is pending any more, nothing of the plan is left. -/
theorem eq_nil (h : s.Planned plan) (hnone : ∀ turn, ¬s.Pending turn) : plan = [] := by
  obtain ⟨passed, horderly⟩ := h.orderly
  have hfulfils := h.fulfils
  cases hturns : s.turns with
  | nil =>
      rw [hturns] at hfulfils
      exact List.forall₂_nil_left_iff.mp hfulfils
  | cons entry rest =>
      have hfront : s.turns.head? = some entry := by rw [hturns]; rfl
      have hhead := h.waiting.head_pending horderly.sorted hfront
      obtain ⟨parts, hparts⟩ := isPending_iff.mp hhead
      refine absurd ⟨parts, Table.find?_of_mem horderly.sorted ?_⟩ (hnone entry.1)
      rw [hturns, ← hparts]
      exact List.mem_cons_self

theorem pending_mem_keys (h : s.Planned plan) {turn : TurnKey} (hturn : s.Pending turn) :
    turn ∈ plan.map Prod.fst := by
  obtain ⟨parts, hfound⟩ := hturn
  rw [← keys_eq_of_fulfils h.fulfils]
  exact Table.mem_keys_of_mem (Table.mem_of_find? hfound)

theorem keys_nodup (h : s.Planned plan) : (plan.map Prod.fst).Nodup := by
  obtain ⟨passed, horderly⟩ := h.orderly
  rw [← keys_eq_of_fulfils h.fulfils]
  exact (Table.sorted_keys horderly.sorted).imp TurnKey.Before.ne

/-! ### New turns -/

/-- A reserved turn stands at the end of the plan. -/
theorem reserve (h : s.Planned plan) (value : α) :
    s.reserve.1.Planned (plan ++ [(s.reserve.2, value)]) ∧
      s.reserve.2 ∉ plan.map Prod.fst ∧
      ∀ turn, s.reserve.1.Pending turn ↔ turn = s.reserve.2 ∨ s.Pending turn := by
  obtain ⟨passed, horderly⟩ := h.orderly
  have hadds := horderly.reserve_adds
  have hlast : s.reserve.1.turns = s.turns ++ [(s.reserve.2, .pending 0)] := by
    have hbefore : ∀ entry ∈ s.turns, Before entry.1 s.reserve.2 := fun entry hentry =>
      horderly.before_reserve entry.1
        (List.mem_append_right _ (List.mem_map_of_mem hentry))
    have happend : Table.insert (s.turns ++ []) s.reserve.2 (Turn.pending 0)
        = s.turns ++ Table.insert [] s.reserve.2 (Turn.pending 0) := Table.alter_append hbefore
    rwa [List.append_nil] at happend
  refine ⟨⟨⟨passed, horderly.reserve⟩, hadds.waiting h.waiting, ?_⟩, fun hmem => ?_,
    hadds.pending⟩
  · rw [hlast]
    exact List.rel_append h.fulfils (.cons ⟨rfl, Or.inl rfl⟩ .nil)
  · rw [← keys_eq_of_fulfils h.fulfils] at hmem
    exact horderly.reserve_fresh (List.mem_append_right _ hmem)

/-- A part of the last turn stands right before it in the plan. -/
theorem split {root : TurnKey} {last : α} (h : s.Planned (plan ++ [(root, last)]))
    (hroot : s.Pending root) (value : α) :
    (s.split root).1.Planned (plan ++ [((s.split root).2, value), (root, last)]) ∧
      (s.split root).2 ∉ (plan ++ [(root, last)]).map Prod.fst ∧
      ∀ turn, (s.split root).1.Pending turn ↔ turn = (s.split root).2 ∨ s.Pending turn := by
  obtain ⟨passed, horderly⟩ := h.orderly
  obtain ⟨parts, hfound⟩ := hroot
  have hadds := horderly.split_adds hfound
  have hfresh := horderly.split_fresh hfound
  obtain ⟨hchild, hbetween⟩ := horderly.before_split hfound
  rw [← keys_eq_of_fulfils h.fulfils]
  refine ⟨⟨⟨passed, horderly.split hfound⟩, hadds.waiting h.waiting, ?_⟩,
    fun hmem => hfresh (List.mem_append_right _ hmem), hadds.pending⟩
  -- The last entry is that of the root, which the part is put before.
  have hfront := List.forall₂_take_append _ _ _ h.fulfils
  have hback := List.forall₂_drop_append _ _ _ h.fulfils
  have hturns := (List.take_append_drop plan.length s.turns).symm
  generalize List.take plan.length s.turns = front at hfront hturns
  generalize List.drop plan.length s.turns = back at hback hturns
  obtain ⟨entry, none, hentry, hnone, rfl⟩ := List.forall₂_cons_right_iff.mp hback
  obtain rfl := List.forall₂_nil_right_iff.mp hnone
  obtain ⟨key, turn⟩ := entry
  obtain rfl : key = root := hentry.1
  have hsorted := horderly.sorted
  rw [hturns] at hsorted
  have hahead : ∀ other ∈ front, Before other.1 key := fun other hother =>
    (List.pairwise_append.mp hsorted).2.2 other hother (key, turn) List.mem_cons_self
  have hcounted : Table.insert s.turns key (.pending (parts + 1))
      = front ++ [(key, .pending (parts + 1))] := by
    rw [hturns, Table.insert, Table.alter_append hahead]
    simp [Table.alter]
  have hplace : (s.split key).1.turns
      = front ++ [((s.split key).2, .pending 0), (key, .pending (parts + 1))] := by
    have hother : ∀ other ∈ front, Before other.1 (s.split key).2 := by
      intro other hother
      refine hbetween other.1 (List.mem_append_right _ ?_) (hahead other hother)
      rw [hturns]
      exact List.mem_map_of_mem (List.mem_append_left _ hother)
    simp only [Sequencer.split, hfound] at hchild hother ⊢
    have hlt : compare (key.part parts) key = .lt := hchild
    rw [hcounted, Table.insert, Table.alter_append hother]
    simp [Table.alter, hlt]
  rw [hplace]
  exact List.rel_append hfront (.cons ⟨rfl, Or.inl rfl⟩ (.cons ⟨rfl, Or.inl rfl⟩ .nil))

/-! ### Ending a turn -/

theorem pending_complete {turn other : TurnKey} {value : α} :
    (s.complete turn (.ready value)).Pending other ↔ other ≠ turn ∧ s.Pending other := by
  unfold Pending Sequencer.complete
  by_cases hsame : other = turn
  · subst hsame
    simp
  · simp [Table.find?_insert_ne _ hsame, hsame]

/-- Ending a turn as planned delivers the front of the plan; what is pending stays in the rest. -/
theorem finish (h : s.Planned plan) {turn : TurnKey} {value : α} (hturn : (turn, value) ∈ plan) :
    ∃ n, (s.finish turn (.ready value)).1 = (plan.take n).map Prod.snd ∧
      (s.finish turn (.ready value)).2.Planned (plan.drop n) ∧
      (∀ other, (s.finish turn (.ready value)).2.Pending other ↔
        other ≠ turn ∧ s.Pending other) ∧
      ∀ entry ∈ plan, (s.finish turn (.ready value)).2.Pending entry.1 → entry ∈ plan.drop n := by
  obtain ⟨passed, horderly⟩ := h.orderly
  have hkey : turn ∈ Table.keys s.turns := by
    rw [keys_eq_of_fulfils h.fulfils]
    exact List.mem_map.mpr ⟨_, hturn, rfl⟩
  have hcomplete : Orderly (s.complete turn (.ready value)) passed :=
    horderly.complete hkey rfl
  obtain ⟨n, htake, hdrop⟩ := front_of_fulfils (fulfils_insert horderly.sorted h.fulfils hturn)
  have hcollect := hcomplete.collect
  have hrest : (s.finish turn (.ready value)).2.Planned (plan.drop n) :=
    ⟨⟨_, ⟨hcollect.sorted, hcollect.rooted, hcollect.fresh, hcollect.ordered, hcollect.ahead⟩⟩,
      collect_waiting hcomplete.sorted, hdrop⟩
  refine ⟨n, ?_, hrest, fun other => ?_, fun entry hentry hpending => ?_⟩
  · rw [← htake]
    exact collect_collected _
  · rw [← pending_complete]
    exact exists_congr fun parts => collect_find?_pending hcomplete.sorted
  · -- No turn stands in the plan twice.
    have hnodup := h.keys_nodup
    rw [← List.take_append_drop n plan, List.map_append] at hnodup
    rw [← List.take_append_drop n plan] at hentry
    refine (List.mem_append.mp hentry).resolve_left fun hfront => ?_
    exact (List.nodup_append.mp hnodup).2.2 _ (List.mem_map_of_mem hfront) _
      (hrest.pending_mem_keys hpending) rfl

/-- Turns at the end of the plan that stay pending stay at its end. -/
theorem finish_front {last : List (TurnKey × α)} (h : s.Planned (plan ++ last))
    (hlast : ∀ entry ∈ last, s.Pending entry.1) {turn : TurnKey} {value : α}
    (hturn : (turn, value) ∈ plan) :
    ∃ n, (s.finish turn (.ready value)).1 = (plan.take n).map Prod.snd ∧
      (s.finish turn (.ready value)).2.Planned (plan.drop n ++ last) ∧
      (∀ other, (s.finish turn (.ready value)).2.Pending other ↔
        other ≠ turn ∧ s.Pending other) ∧
      ∀ entry ∈ plan, (s.finish turn (.ready value)).2.Pending entry.1 → entry ∈ plan.drop n := by
  obtain ⟨n, harrived, hrest, hpending, hstays⟩ := h.finish (List.mem_append_left last hturn)
  have hnodup := h.keys_nodup
  rw [List.map_append] at hnodup
  have hapart := (List.nodup_append.mp hnodup).2.2
  have hshort : last = [] ∨ n ≤ plan.length := by
    cases last with
    | nil => exact Or.inl rfl
    | cons first rest =>
        refine Or.inr (Nat.le_of_not_lt fun hlong => ?_)
        have hfirst : (s.finish turn (.ready value)).2.Pending first.1 :=
          (hpending first.1).mpr ⟨fun heq => hapart turn (List.mem_map_of_mem hturn) first.1
            (List.mem_map_of_mem List.mem_cons_self) heq.symm, hlast first List.mem_cons_self⟩
        have hmem := hrest.pending_mem_keys hfirst
        rw [List.drop_append, List.drop_eq_nil_of_le (by omega), List.nil_append,
          show n - plan.length = (n - plan.length - 1) + 1 by omega, List.drop_succ_cons] at hmem
        have hrestNodup := (List.nodup_append.mp hnodup).2.1
        rw [List.map_cons] at hrestNodup
        refine (List.nodup_cons.mp hrestNodup).1 ?_
        exact ((List.drop_sublist _ rest).map Prod.fst).subset hmem
  refine ⟨n, ?_, ?_, hpending, fun entry hentry hp => ?_⟩
  · rw [harrived]
    rcases hshort with rfl | hle
    · rw [List.append_nil]
    · rw [List.take_append_of_le_length hle]
  · rcases hshort with rfl | hle
    · simpa using hrest
    · rwa [List.drop_append_of_le_length hle] at hrest
  · have hmem := hstays entry (List.mem_append_left last hentry) hp
    rcases hshort with rfl | hle
    · simpa using hmem
    · rw [List.drop_append_of_le_length hle] at hmem
      refine (List.mem_append.mp hmem).resolve_right fun hin => ?_
      exact hapart entry.1 (List.mem_map_of_mem hentry) entry.1 (List.mem_map_of_mem hin) rfl

end Planned

end DocIndex.Work.Sequencer
