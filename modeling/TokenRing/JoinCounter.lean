import TokenRing.JoinQueue

/-!
The `size_t` counters of a `join_state_t` over any sequence of calls: they
agree with the arrays, and no decrement is executed at 0.
-/

namespace TokenRing.JoinState

/-- A call of a function of `join.c` that changes the state. -/
inductive JoinOp where
  | queue (op : QueueOp)
  | recordCompleted (name : NodeName) (requestId : UInt32)

def applyJoinOp (state : JoinState) : JoinOp → JoinState
  | .queue op => applyOp state op
  | .recordCompleted name requestId => state.recordCompleted name requestId

/-- The state after a sequence of calls from all zeros. -/
def afterJoinOps (ops : List JoinOp) : JoinState := ops.foldl applyJoinOp zero

/-- The states in which `remove_pending_join` executes `count--`. -/
def removeDecrements (state : JoinState) (name : NodeName) : List JoinState :=
  match state.joins.firstSlot (waitsIn name) with
  | none => []
  | some _ => [state]

/-- The states in which `pop_oldest_pending_join` does. -/
def popDecrements (state : JoinState) : List JoinState :=
  match state.popOldestPendingJoin with
  | none => []
  | some _ => [state]

/-- The states in which the loop of `drop_oldest_pending_joins` does. -/
def dropDecrements : Nat → JoinState → List JoinState
  | 0, _ => []
  | left + 1, state =>
      match state.popOldestPendingJoin with
      | none => []
      | some (_, state') => state :: dropDecrements left state'

/-- The states in which the loop of `prune_joins` does. -/
def pruneDecrements (now ttl : Int) : List (Fin 32) → JoinState → List JoinState
  | [], _ => []
  | i :: rest, state =>
      (match state.joins i with
        | none => []
        | some pending => if now - pending.lastSeen > ttl then [state] else []) ++
        pruneDecrements now ttl rest (pruneStep now ttl state i)

/-- The states in which a call executes `count--`. -/
def JoinOp.decrements (state : JoinState) : JoinOp → List JoinState
  | .queue (.addPendingJoin _ _ _) => []
  | .queue (.removePendingJoin name) => removeDecrements state name
  | .queue .popOldestPendingJoin => popDecrements state
  | .queue (.dropOldestPendingJoins maxRemove) => dropDecrements maxRemove.toNat state
  | .queue (.pruneJoins now ttl) => pruneDecrements now ttl (List.finRange 32) state
  | .queue (.markCompletedAndPrunePending name requestId) =>
      removeDecrements (state.recordCompleted name requestId) name
  | .recordCompleted _ _ => []

section Counter

variable {state : JoinState}

theorem count_pos {i : Fin 32} {pending : PendingJoin} (h : CountExact state)
    (hslot : state.joins i = some pending) : 0 < state.count := by
  have hmem : i ∈ state.joins.used := by simp [hslot]
  have hcard : 0 < state.joins.used.card := Finset.card_pos.mpr ⟨i, hmem⟩
  rw [UInt64.lt_iff_toNat_lt, countExact_toNat h]
  simpa using hcard

theorem removeDecrements_pos (h : CountExact state) (name : NodeName) :
    ∀ mid ∈ removeDecrements state name, 0 < mid.count := by
  intro mid hmid
  unfold removeDecrements at hmid
  split at hmid
  · cases hmid
  · rename_i i hfirst
    obtain ⟨pending, hslot, _⟩ := waitsIn_eq_true.mp (SlotTable.firstSlot_spec hfirst)
    rw [List.mem_singleton.mp hmid]
    exact count_pos h hslot

theorem count_pos_of_pop {popped : PendingJoin × JoinState} (h : CountExact state)
    (hpop : state.popOldestPendingJoin = some popped) : 0 < state.count := by
  obtain ⟨i, hslot, _⟩ := popOldestPendingJoin_some hpop
  exact count_pos h hslot

theorem popDecrements_pos (h : CountExact state) :
    ∀ mid ∈ popDecrements state, 0 < mid.count := by
  intro mid hmid
  unfold popDecrements at hmid
  split at hmid
  · cases hmid
  · rename_i popped hpop
    rw [List.mem_singleton.mp hmid]
    exact count_pos_of_pop h hpop

theorem dropDecrements_pos (left : Nat) (h : CountExact state) :
    ∀ mid ∈ dropDecrements left state, 0 < mid.count := by
  induction left generalizing state with
  | zero =>
      intro mid hmid
      cases hmid
  | succ left ih =>
      intro mid hmid
      unfold dropDecrements at hmid
      split at hmid
      · cases hmid
      · rename_i pending state' hpop
        rcases List.mem_cons.mp hmid with rfl | hrest
        · exact count_pos_of_pop h hpop
        · exact ih ((popOldestPendingJoin_shrinks hpop).countExact h) mid hrest

theorem pruneDecrements_pos (now ttl : Int) (slots : List (Fin 32)) (h : CountExact state) :
    ∀ mid ∈ pruneDecrements now ttl slots state, 0 < mid.count := by
  induction slots generalizing state with
  | nil =>
      intro mid hmid
      cases hmid
  | cons i rest ih =>
      intro mid hmid
      rcases List.mem_append.mp hmid with hhere | hrest
      · split at hhere
        · cases hhere
        · rename_i pending hslot
          split at hhere
          · rw [List.mem_singleton.mp hhere]
            exact count_pos h hslot
          · cases hhere
      · exact ih ((pruneStep_shrinks now ttl state i).countExact h) mid hrest

theorem decrements_pos (h : CountExact state) (op : JoinOp) :
    ∀ mid ∈ op.decrements state, 0 < mid.count := by
  cases op with
  | queue op =>
      cases op with
      | addPendingJoin request ip now =>
          intro mid hmid
          cases hmid
      | removePendingJoin name => exact removeDecrements_pos h name
      | popOldestPendingJoin => exact popDecrements_pos h
      | dropOldestPendingJoins maxRemove => exact dropDecrements_pos _ h
      | pruneJoins now ttl => exact pruneDecrements_pos now ttl _ h
      | markCompletedAndPrunePending name requestId =>
          exact removeDecrements_pos ((recordCompleted_shrinks _ _ _).countExact h) name
  | recordCompleted name requestId =>
      intro mid hmid
      cases hmid

/-- A successful pop is one of a queue that counts at least one. -/
theorem pop_isSome_iff (h : CountExact state) :
    state.popOldestPendingJoin.isSome = true ↔ 0 < state.count := by
  constructor
  · intro hsome
    obtain ⟨popped, hpop⟩ := Option.isSome_iff_exists.mp hsome
    exact count_pos_of_pop h hpop
  · intro hcount
    cases hpop : state.popOldestPendingJoin with
    | some popped => rfl
    | none =>
        have hempty := (SlotTable.used_card_eq_zero _).mpr (popOldestPendingJoin_none hpop)
        rw [UInt64.lt_iff_toNat_lt, countExact_toNat h, hempty] at hcount
        cases hcount

/-- The queue emptied by as many pops as it counts. -/
theorem drop_all (h : CountExact state) :
    (∀ i, (state.dropOldestPendingJoins state.count).2.joins i = none) ∧
      (state.dropOldestPendingJoins state.count).2.count = 0 := by
  have hempty := dropOldestPendingJoins_empties h
  have hafter := (dropOldestPendingJoins_shrinks state state.count).countExact h
  constructor
  · exact hempty
  · unfold CountExact at hafter
    rw [hafter, (SlotTable.used_card_eq_zero _).mpr hempty]
    rfl

end Counter

section Completed

variable {before after : JoinState}

/-- The list of the nodes known to have joined is the same. -/
def SameCompleted (before after : JoinState) : Prop :=
  after.completed = before.completed ∧ after.completedCount = before.completedCount

theorem SameCompleted.refl (state : JoinState) : SameCompleted state state := ⟨rfl, rfl⟩

theorem SameCompleted.trans {mid : JoinState} (hfirst : SameCompleted before mid)
    (hrest : SameCompleted mid after) : SameCompleted before after :=
  ⟨hrest.1.trans hfirst.1, hrest.2.trans hfirst.2⟩

theorem removePendingJoin_completed (state : JoinState) (name : NodeName) :
    SameCompleted state (state.removePendingJoin name) := by
  unfold removePendingJoin
  split <;> exact ⟨rfl, rfl⟩

theorem popOldestPendingJoin_completed {state state' : JoinState} {pending : PendingJoin}
    (h : state.popOldestPendingJoin = some (pending, state')) : SameCompleted state state' := by
  obtain ⟨_, _, rfl, _⟩ := popOldestPendingJoin_some h
  exact ⟨rfl, rfl⟩

theorem dropLoop_completed (left : Nat) (state : JoinState) :
    SameCompleted state (dropLoop left state).2 := by
  induction left generalizing state with
  | zero => exact .refl state
  | succ left ih =>
      unfold dropLoop
      cases hpop : state.popOldestPendingJoin with
      | none => exact .refl state
      | some popped => exact (popOldestPendingJoin_completed hpop).trans (ih popped.2)

theorem pruneJoins_completed (state : JoinState) (now ttl : Int) :
    SameCompleted state (state.pruneJoins now ttl) := by
  unfold pruneJoins
  generalize List.finRange 32 = slots
  induction slots generalizing state with
  | nil => exact .refl state
  | cons i rest ih =>
      apply SameCompleted.trans _ (ih _)
      unfold pruneStep
      split
      · exact .refl state
      · split <;> exact ⟨rfl, rfl⟩

theorem addPendingJoin_completed {state state' : JoinState} {request : JoinRequest}
    {ip : UInt32} {now : Int} (h : state.addPendingJoin request ip now = some state') :
    SameCompleted state state' := by
  unfold addPendingJoin at h
  split at h
  · cases h
  · split at h
    · cases h
    · split at h <;> cases h <;> exact ⟨rfl, rfl⟩

/-- A new name makes the list longer only while it has room. -/
theorem recordCompleted_bound {state : JoinState} (h : state.completedCount.toNat ≤ 32)
    (name : NodeName) (requestId : UInt32) :
    (state.recordCompleted name requestId).completedCount.toNat ≤ 32 := by
  unfold recordCompleted
  split
  · exact h
  · split
    · rename_i hroom
      simp only [UInt64.toNat_add]
      have hone : (1 : UInt64).toNat = 1 := rfl
      omega
    · exact h

theorem applyJoinOp_bound {state : JoinState} (h : state.completedCount.toNat ≤ 32)
    (op : JoinOp) : (applyJoinOp state op).completedCount.toNat ≤ 32 := by
  have hsame : ∀ after, SameCompleted state after → after.completedCount.toNat ≤ 32 := by
    intro after hafter
    rw [hafter.2]
    exact h
  cases op with
  | queue op =>
      cases op with
      | addPendingJoin request ip now =>
          simp only [applyJoinOp, applyOp]
          cases hadd : state.addPendingJoin request ip now with
          | none => exact h
          | some state' => exact hsame state' (addPendingJoin_completed hadd)
      | removePendingJoin name => exact hsame _ (removePendingJoin_completed state name)
      | popOldestPendingJoin =>
          simp only [applyJoinOp, applyOp]
          cases hpop : state.popOldestPendingJoin with
          | none => exact h
          | some popped => exact hsame _ (popOldestPendingJoin_completed hpop)
      | dropOldestPendingJoins maxRemove => exact hsame _ (dropLoop_completed _ state)
      | pruneJoins now ttl => exact hsame _ (pruneJoins_completed state now ttl)
      | markCompletedAndPrunePending name requestId =>
          have hrecorded := recordCompleted_bound h name requestId
          simp only [applyJoinOp, applyOp, markCompletedAndPrunePending]
          rw [(removePendingJoin_completed _ name).2]
          exact hrecorded
  | recordCompleted name requestId => exact recordCompleted_bound h name requestId

end Completed

/-- What the event loop relies on when it trusts `count`. -/
structure Counted (state : JoinState) : Prop where
  exact : state.count.toNat = state.joins.used.card
  bound : state.count.toNat ≤ 32
  completed : state.completedCount.toNat ≤ 32
  noUnderflow : ∀ op : JoinOp, ∀ mid ∈ op.decrements state, 0 < mid.count
  pop : state.popOldestPendingJoin.isSome = true ↔ 0 < state.count
  drop : (∀ i, (state.dropOldestPendingJoins state.count).2.joins i = none) ∧
    (state.dropOldestPendingJoins state.count).2.count = 0

theorem countExact_applyJoinOp {state : JoinState} (h : CountExact state) (op : JoinOp) :
    CountExact (applyJoinOp state op) := by
  cases op with
  | queue op => exact countExact_applyOp h op
  | recordCompleted name requestId => exact (recordCompleted_shrinks _ _ _).countExact h

theorem afterJoinOps_inv (ops : List JoinOp) :
    CountExact (afterJoinOps ops) ∧ (afterJoinOps ops).completedCount.toNat ≤ 32 := by
  induction ops using List.reverseRecOn with
  | nil => exact ⟨countExact_zero, Nat.zero_le _⟩
  | append_singleton ops op ih =>
      have hsnoc : afterJoinOps (ops ++ [op]) = applyJoinOp (afterJoinOps ops) op := by
        simp [afterJoinOps]
      rw [hsnoc]
      exact ⟨countExact_applyJoinOp ih.1 op, applyJoinOp_bound ih.2 op⟩

/-- After any sequence of calls the counters are exact. -/
theorem counted_afterJoinOps (ops : List JoinOp) : Counted (afterJoinOps ops) := by
  obtain ⟨hcount, hcompleted⟩ := afterJoinOps_inv ops
  have hexact := countExact_toNat hcount
  refine ⟨hexact, ?_, hcompleted, decrements_pos hcount, pop_isSome_iff hcount, drop_all hcount⟩
  rw [hexact]
  exact SlotTable.card_used_le _

end TokenRing.JoinState
