import TokenRing.JoinCounter
import TokenRing.Lib.SlotDrain

/-!
`drop_oldest_pending_joins` over all states that calls lead to: the requests
that leave are the oldest ones, in the order of `last_seen` and then of the
slots.
-/

namespace TokenRing.JoinState

section Drop

variable {state : JoinState}

/-- A pop takes the slot that the scan for the least `last_seen` finds. -/
theorem popOldestPendingJoin_eq (state : JoinState) :
    (state.popOldestPendingJoin = none ∧
        SlotTable.leastSlot PendingJoin.lastSeen state.joins = none) ∨
      ∃ i pending k, SlotTable.leastSlot PendingJoin.lastSeen state.joins = some (i, k) ∧
        state.popOldestPendingJoin = some (pending,
          { state with joins := state.joins.set i none, count := state.count - 1 }) := by
  unfold popOldestPendingJoin
  cases hleast : SlotTable.leastSlot PendingJoin.lastSeen state.joins with
  | none => exact .inl ⟨rfl, rfl⟩
  | some found =>
      obtain ⟨i, k⟩ := found
      obtain ⟨⟨pending, hslot, _⟩, _⟩ := SlotTable.leastSlot_eq_some hleast
      exact .inr ⟨i, pending, k, rfl, by simp [hslot]⟩

/-- The loop of pops drains the table. -/
theorem dropLoop_joins (left : Nat) (state : JoinState) :
    (dropLoop left state).2.joins = SlotTable.dropLeast PendingJoin.lastSeen left state.joins ∧
      (dropLoop left state).1 = min left state.joins.used.card := by
  induction left generalizing state with
  | zero => exact ⟨rfl, (Nat.zero_min _).symm⟩
  | succ left ih =>
      rcases popOldestPendingJoin_eq state with ⟨hpop, hnone⟩ | ⟨i, pending, k, hleast, hpop⟩
      · have hempty := (SlotTable.used_card_eq_zero state.joins).mpr
          (SlotTable.leastSlot_eq_none hnone)
        simp [dropLoop, hpop, SlotTable.dropLeast_none hnone, hempty]
      · obtain ⟨⟨entry, hslot, _⟩, _⟩ := SlotTable.leastSlot_eq_some hleast
        have hfree := SlotTable.card_used_free state.joins i (by simp [hslot])
        obtain ⟨hjoins, hremoved⟩ := ih
          { state with joins := state.joins.set i none, count := state.count - 1 }
        simp only [dropLoop, hpop, SlotTable.dropLeast_some hleast]
        constructor
        · exact hjoins
        · rw [hremoved]
          simp only
          omega

/-- What `drop_oldest_pending_joins` does, with the number it returns. -/
structure DropsOldest (state : JoinState) (maxRemove : UInt64) (removed : Nat)
    (after : JoinState) : Prop where
  returned : removed = min maxRemove.toNat state.count.toNat
  gone : (state.joins.used \ after.joins.used).card = removed
  oldest : ∀ i j a b, state.joins i = some a → after.joins i = none →
    after.joins j = some b → a.lastSeen < b.lastSeen ∨ a.lastSeen = b.lastSeen ∧ i < j
  count : after.count.toNat + removed = state.count.toNat
  remaining : SlotTable.Within after.joins state.joins
  completed : SameCompleted state after

theorem CountExact.dropsOldest (h : CountExact state) (maxRemove : UInt64) :
    DropsOldest state maxRemove (state.dropOldestPendingJoins maxRemove).1
      (state.dropOldestPendingJoins maxRemove).2 := by
  obtain ⟨hjoins, hremoved⟩ := dropLoop_joins maxRemove.toNat state
  have hshrinks := dropOldestPendingJoins_shrinks state maxRemove
  have hafter := countExact_toNat (hshrinks.countExact h)
  have hbefore := countExact_toNat h
  have hcard : (SlotTable.dropLeast PendingJoin.lastSeen maxRemove.toNat
      state.joins).used.card + min maxRemove.toNat state.joins.used.card =
        state.joins.used.card :=
    SlotTable.card_used_dropLeast maxRemove.toNat state.joins
  have hused : (state.dropOldestPendingJoins maxRemove).2.joins.used ⊆ state.joins.used := by
    intro i hi
    obtain ⟨pending, hslot⟩ := Option.isSome_iff_exists.mp ((SlotTable.mem_used _ i).mp hi)
    rw [SlotTable.mem_used, hshrinks.within i pending hslot]
    rfl
  unfold dropOldestPendingJoins at hused hshrinks hafter ⊢
  constructor
  · rw [hremoved, hbefore]
  · rw [Finset.card_sdiff_of_subset hused, hjoins, hremoved]
    omega
  · intro i j a b ha hgone hb
    rw [hjoins] at hgone hb
    exact SlotTable.dropLeast_first maxRemove.toNat state.joins ha hgone hb
  · rw [hafter, hjoins, hremoved, hbefore]
    exact hcard
  · exact hshrinks.within
  · exact dropLoop_completed maxRemove.toNat state

end Drop

/-- After any sequence of calls, dropping removes the oldest requests and
nothing else. -/
theorem oldest_requests_are_dropped (ops : List JoinOp) (maxRemove : UInt64) :
    DropsOldest (afterJoinOps ops) maxRemove
      ((afterJoinOps ops).dropOldestPendingJoins maxRemove).1
      ((afterJoinOps ops).dropOldestPendingJoins maxRemove).2 :=
  (afterJoinOps_inv ops).1.dropsOldest maxRemove

end TokenRing.JoinState
