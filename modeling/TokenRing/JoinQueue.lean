import TokenRing.JoinState

/-!
The waiting queue over whole histories of queue operations: the `size_t`
counter counts the used slots, every removal only frees slots, and a name
waits twice exactly when a request of a waiting node is handled while a slot
below its own is free.
-/

namespace TokenRing.JoinState

/-- The counter agrees with the used slots. -/
def CountExact (state : JoinState) : Prop :=
  state.count = UInt64.ofNat state.joins.used.card

/-- No two used slots hold the same node name. -/
def NamesDistinct (state : JoinState) : Prop :=
  ∀ i j a b, state.joins i = some a → state.joins j = some b →
    a.nodeName = b.nodeName → i = j

theorem countExact_zero : CountExact zero := by
  simp [CountExact, zero]

theorem countExact_toNat {state : JoinState} (h : CountExact state) :
    state.count.toNat = state.joins.used.card := by
  have hle := SlotTable.card_used_le state.joins
  rw [h, UInt64.toNat_ofNat']
  omega

theorem waitsIn_eq_true {name : NodeName} {content : Option PendingJoin} :
    waitsIn name content = true ↔ ∃ pending, content = some pending ∧ pending.nodeName = name := by
  cases content <;> simp [waitsIn]

section Removal

/-- Freeing one used slot and decrementing keeps the counter exact. -/
theorem countExact_free {state : JoinState} (h : CountExact state) (i : Fin 32)
    (hused : (state.joins i).isSome = true) :
    CountExact { state with joins := state.joins.set i none, count := state.count - 1 } := by
  have hcard := SlotTable.card_used_free state.joins i hused
  unfold CountExact at *
  rw [h, ← hcard, UInt64.ofNat_add]
  exact UInt64.add_sub_cancel _ _

/-- `Shrinks before after`: the waiting entries of `after` stand where they
stood in `before`, and the counter stays exact. -/
structure Shrinks (before after : JoinState) : Prop where
  within : SlotTable.Within after.joins before.joins
  countExact : CountExact before → CountExact after

theorem Shrinks.refl (state : JoinState) : Shrinks state state :=
  ⟨SlotTable.Within.refl _, id⟩

theorem Shrinks.trans {a b c : JoinState} (hab : Shrinks a b) (hbc : Shrinks b c) :
    Shrinks a c :=
  ⟨hbc.within.trans hab.within, fun h => hbc.countExact (hab.countExact h)⟩

/-- What holds of every waiting entry still does. -/
theorem Shrinks.all {before after : JoinState} {good : PendingJoin → Prop}
    (h : Shrinks before after) (hall : ∀ i pending, before.joins i = some pending → good pending) :
    ∀ i pending, after.joins i = some pending → good pending :=
  fun i pending hslot => hall i pending (h.within i pending hslot)

theorem Shrinks.empty {before after : JoinState} (h : Shrinks before after)
    (hempty : ∀ i, before.joins i = none) (i : Fin 32) : after.joins i = none := by
  cases hslot : after.joins i with
  | none => rfl
  | some pending =>
      have hbefore := h.within i pending hslot
      rw [hempty i] at hbefore
      cases hbefore

theorem shrinks_free (state : JoinState) (i : Fin 32)
    (hused : (state.joins i).isSome = true) :
    Shrinks state { state with joins := state.joins.set i none, count := state.count - 1 } :=
  ⟨SlotTable.within_set_none _ _, fun h => countExact_free h i hused⟩

theorem removePendingJoin_shrinks (state : JoinState) (name : NodeName) :
    Shrinks state (state.removePendingJoin name) := by
  unfold removePendingJoin
  cases hfirst : state.joins.firstSlot (waitsIn name) with
  | none => exact .refl state
  | some i =>
      obtain ⟨pending, hslot, _⟩ := waitsIn_eq_true.mp (SlotTable.firstSlot_spec hfirst)
      exact shrinks_free state i (by simp [hslot])

/-- When at most one slot waits under the name, none does after its removal. -/
theorem removePendingJoin_gone {state : JoinState} {name : NodeName}
    (hone : ∀ i j a b, state.joins i = some a → state.joins j = some b →
      a.nodeName = name → b.nodeName = name → i = j) {i : Fin 32} {pending : PendingJoin}
    (hslot : (state.removePendingJoin name).joins i = some pending) :
    pending.nodeName ≠ name := by
  intro hname
  have hbefore := (removePendingJoin_shrinks state name).within i pending hslot
  have hwaits : waitsIn name (state.joins i) = true := waitsIn_eq_true.mpr ⟨_, hbefore, hname⟩
  obtain ⟨j, hfirst⟩ := SlotTable.firstSlot_isSome hwaits
  obtain ⟨other, hother, hothername⟩ := waitsIn_eq_true.mp (SlotTable.firstSlot_spec hfirst)
  have hij := hone i j pending other hbefore hother hname hothername
  subst hij
  simp [removePendingJoin, hfirst] at hslot

/-- What a successful pop does: it takes a waiting entry with the least
`last_seen` out of its slot. -/
theorem popOldestPendingJoin_some {state state' : JoinState} {pending : PendingJoin}
    (h : state.popOldestPendingJoin = some (pending, state')) :
    ∃ i, state.joins i = some pending ∧
      state' = { state with joins := state.joins.set i none, count := state.count - 1 } ∧
      ∀ j other, state.joins j = some other → pending.lastSeen ≤ other.lastSeen := by
  unfold popOldestPendingJoin at h
  cases hleast : SlotTable.leastSlot PendingJoin.lastSeen state.joins with
  | none => simp [hleast] at h
  | some found =>
      obtain ⟨i, time⟩ := found
      obtain ⟨⟨entry, hslot, htime⟩, hmin⟩ := SlotTable.leastSlot_eq_some hleast
      simp only [hleast, hslot, Option.some.injEq, Prod.mk.injEq] at h
      obtain ⟨rfl, rfl⟩ := h
      exact ⟨i, hslot, rfl, fun j other hj => htime ▸ hmin j other hj⟩

theorem popOldestPendingJoin_none {state : JoinState}
    (h : state.popOldestPendingJoin = none) (i : Fin 32) : state.joins i = none := by
  unfold popOldestPendingJoin at h
  cases hleast : SlotTable.leastSlot PendingJoin.lastSeen state.joins with
  | none => exact SlotTable.leastSlot_eq_none hleast i
  | some found =>
      obtain ⟨j, time⟩ := found
      obtain ⟨⟨entry, hslot, _⟩, _⟩ := SlotTable.leastSlot_eq_some hleast
      simp [hleast, hslot] at h

theorem popOldestPendingJoin_shrinks {state state' : JoinState} {pending : PendingJoin}
    (h : state.popOldestPendingJoin = some (pending, state')) : Shrinks state state' := by
  obtain ⟨i, hslot, rfl, _⟩ := popOldestPendingJoin_some h
  exact shrinks_free state i (by simp [hslot])

theorem dropLoop_shrinks (left : Nat) (state : JoinState) :
    Shrinks state (dropLoop left state).2 := by
  induction left generalizing state with
  | zero => exact .refl state
  | succ left ih =>
      unfold dropLoop
      cases hpop : state.popOldestPendingJoin with
      | none => exact .refl state
      | some popped => exact (popOldestPendingJoin_shrinks hpop).trans (ih popped.2)

theorem dropOldestPendingJoins_shrinks (state : JoinState) (maxRemove : UInt64) :
    Shrinks state (state.dropOldestPendingJoins maxRemove).2 :=
  dropLoop_shrinks _ _

/-- Allowed as many removals as there are used slots, the loop empties the
queue. -/
theorem dropLoop_empties (left : Nat) (state : JoinState)
    (hcard : state.joins.used.card ≤ left) (i : Fin 32) :
    (dropLoop left state).2.joins i = none := by
  induction left generalizing state with
  | zero =>
      exact (SlotTable.used_card_eq_zero state.joins).mp (by omega) i
  | succ left ih =>
      unfold dropLoop
      cases hpop : state.popOldestPendingJoin with
      | none => exact popOldestPendingJoin_none hpop i
      | some popped =>
          obtain ⟨pending, rest⟩ := popped
          obtain ⟨k, hslot, hstate, _⟩ := popOldestPendingJoin_some hpop
          have hfree := SlotTable.card_used_free state.joins k (by simp [hslot])
          refine ih rest ?_
          rw [hstate]
          change (state.joins.set k none).used.card ≤ left
          omega

theorem dropOldestPendingJoins_empties {state : JoinState} (h : CountExact state)
    (i : Fin 32) : (state.dropOldestPendingJoins state.count).2.joins i = none := by
  apply dropLoop_empties
  rw [countExact_toNat h]

theorem pruneStep_shrinks (now ttl : Int) (state : JoinState) (i : Fin 32) :
    Shrinks state (pruneStep now ttl state i) := by
  unfold pruneStep
  cases hslot : state.joins i with
  | none => exact .refl state
  | some pending =>
      by_cases hold : now - pending.lastSeen > ttl
      · simp only [hold, if_true]
        exact shrinks_free state i (by simp [hslot])
      · simp only [hold, if_false]
        exact .refl state

theorem pruneJoins_shrinks (state : JoinState) (now ttl : Int) :
    Shrinks state (state.pruneJoins now ttl) := by
  unfold pruneJoins
  generalize List.finRange 32 = slots
  induction slots generalizing state with
  | nil => exact .refl state
  | cons i rest ih => exact (pruneStep_shrinks now ttl state i).trans (ih _)

@[simp] theorem recordCompleted_joins (state : JoinState) (name : NodeName)
    (requestId : UInt32) : (state.recordCompleted name requestId).joins = state.joins := by
  unfold recordCompleted
  split
  · rfl
  · split <;> rfl

@[simp] theorem recordCompleted_count (state : JoinState) (name : NodeName)
    (requestId : UInt32) : (state.recordCompleted name requestId).count = state.count := by
  unfold recordCompleted
  split
  · rfl
  · split <;> rfl

theorem recordCompleted_shrinks (state : JoinState) (name : NodeName)
    (requestId : UInt32) : Shrinks state (state.recordCompleted name requestId) :=
  ⟨by rw [recordCompleted_joins]; exact .refl _, fun h => by simpa [CountExact] using h⟩

theorem markCompletedAndPrunePending_shrinks (state : JoinState) (name : NodeName)
    (requestId : UInt32) :
    Shrinks state (state.markCompletedAndPrunePending name requestId) :=
  (recordCompleted_shrinks state name requestId).trans (removePendingJoin_shrinks _ name)

theorem NamesDistinct.shrink {before after : JoinState} (h : NamesDistinct before)
    (hshrinks : Shrinks before after) : NamesDistinct after :=
  fun i j a b ha hb hname =>
    h i j a b (hshrinks.within i a ha) (hshrinks.within j b hb) hname

end Removal

section Addition

/-- What a successful `add_pending_join` does: it writes the request into the
lowest slot that is free or waits under the name. -/
theorem addPendingJoin_some {state state' : JoinState} {request : JoinRequest}
    {ip : UInt32} {now : Int} (h : state.addPendingJoin request ip now = some state') :
    ∃ i, (∀ j, j < i → (state.joins j).isSome = true ∧
          waitsIn request.nodeName (state.joins j) = false) ∧
      state'.joins = state.joins.set i (some (entryOf request ip now)) ∧
      ((waitsIn request.nodeName (state.joins i) = true ∧ state'.count = state.count) ∨
        (state.joins i = none ∧ state'.count = state.count + 1)) := by
  unfold addPendingJoin at h
  split at h
  · cases h
  cases hfirst : state.joins.firstSlot
      (fun content => waitsIn request.nodeName content || content.isNone) with
  | none => simp [hfirst] at h
  | some i =>
      obtain ⟨hat, hbelow⟩ := (SlotTable.firstSlot_eq_some_iff _ _ i).mp hfirst
      simp only [hfirst] at h
      have hlow : ∀ j, j < i → (state.joins j).isSome = true ∧
          waitsIn request.nodeName (state.joins j) = false := by
        intro j hj
        have hno := hbelow j hj
        cases hslot : state.joins j with
        | none => simp [hslot] at hno
        | some pending => simpa [hslot] using hno
      by_cases hwaits : waitsIn request.nodeName (state.joins i) = true
      · rw [if_pos hwaits] at h
        cases h
        exact ⟨i, hlow, rfl, .inl ⟨hwaits, rfl⟩⟩
      · rw [if_neg hwaits] at h
        cases h
        refine ⟨i, hlow, rfl, .inr ⟨?_, rfl⟩⟩
        simpa [hwaits] using hat

theorem countExact_addPendingJoin {state state' : JoinState} {request : JoinRequest}
    {ip : UInt32} {now : Int} (hcount : CountExact state)
    (h : state.addPendingJoin request ip now = some state') : CountExact state' := by
  obtain ⟨i, _, hjoins, ⟨hwaits, hsame⟩ | ⟨hfree, hmore⟩⟩ := addPendingJoin_some h
  · obtain ⟨pending, hslot, _⟩ := waitsIn_eq_true.mp hwaits
    unfold CountExact at *
    rw [hsame, hjoins, SlotTable.card_used_overwrite _ _ _ (by simp [hslot])]
    exact hcount
  · unfold CountExact at *
    rw [hmore, hjoins, SlotTable.card_used_fill _ _ _ hfree, hcount, UInt64.ofNat_add]
    rfl

/-- An entry of the new queue is the request's own or was waiting before. -/
theorem addPendingJoin_entry {state state' : JoinState} {request : JoinRequest}
    {ip : UInt32} {now : Int} (h : state.addPendingJoin request ip now = some state')
    (i : Fin 32) (pending : PendingJoin) (hslot : state'.joins i = some pending) :
    pending = entryOf request ip now ∨ state.joins i = some pending := by
  obtain ⟨k, _, hjoins, _⟩ := addPendingJoin_some h
  rw [hjoins, SlotTable.set_apply] at hslot
  split at hslot
  · exact .inl (Option.some.inj hslot).symm
  · exact .inr hslot

/-- With a free slot in a queue that counts right, the request is taken. -/
theorem addPendingJoin_isSome {state : JoinState} (hcount : CountExact state)
    (request : JoinRequest) (ip : UInt32) (now : Int) {i : Fin 32}
    (hfree : state.joins i = none) :
    ∃ state', state.addPendingJoin request ip now = some state' := by
  have hlt := SlotTable.card_used_lt state.joins hfree
  have hroom : ¬ state.count ≥ 32 := by
    rw [ge_iff_le, UInt64.le_iff_toNat_le, countExact_toNat hcount]
    have h32 : (32 : UInt64).toNat = 32 := rfl
    omega
  have hfits : (waitsIn request.nodeName (state.joins i) || (state.joins i).isNone) = true := by
    simp [hfree]
  obtain ⟨k, hk⟩ := SlotTable.firstSlot_isSome
    (p := fun content => waitsIn request.nodeName content || content.isNone) hfits
  unfold addPendingJoin
  rw [if_neg hroom]
  simp only [hk]
  split <;> exact ⟨_, rfl⟩

end Addition

/-- One call of a queue function, with its arguments and the clock. -/
inductive QueueOp where
  | addPendingJoin (request : JoinRequest) (ip : UInt32) (now : Int)
  | removePendingJoin (name : NodeName)
  | popOldestPendingJoin
  | dropOldestPendingJoins (maxRemove : UInt64)
  | pruneJoins (now ttl : Int)
  | markCompletedAndPrunePending (name : NodeName) (requestId : UInt32)

/-- The state after a call; a call that returns -1 leaves it as it was. -/
def applyOp (state : JoinState) : QueueOp → JoinState
  | .addPendingJoin request ip now => (state.addPendingJoin request ip now).getD state
  | .removePendingJoin name => state.removePendingJoin name
  | .popOldestPendingJoin => (state.popOldestPendingJoin.map Prod.snd).getD state
  | .dropOldestPendingJoins maxRemove => (state.dropOldestPendingJoins maxRemove).2
  | .pruneJoins now ttl => state.pruneJoins now ttl
  | .markCompletedAndPrunePending name requestId =>
      state.markCompletedAndPrunePending name requestId

/-- The state after a sequence of calls from the empty `join_state`. -/
def afterOps (ops : List QueueOp) : JoinState := ops.foldl applyOp zero

theorem afterOps_snoc (ops : List QueueOp) (op : QueueOp) :
    afterOps (ops ++ [op]) = applyOp (afterOps ops) op := by
  simp [afterOps]

/-- Every call but an addition only frees slots. -/
theorem applyOp_shrinks (state : JoinState) (op : QueueOp)
    (hadd : ∀ request ip now, op ≠ .addPendingJoin request ip now) :
    Shrinks state (applyOp state op) := by
  cases op with
  | addPendingJoin request ip now => exact absurd rfl (hadd request ip now)
  | removePendingJoin name => exact removePendingJoin_shrinks state name
  | popOldestPendingJoin =>
      simp only [applyOp]
      cases hpop : state.popOldestPendingJoin with
      | none => exact .refl state
      | some popped => exact popOldestPendingJoin_shrinks hpop
  | dropOldestPendingJoins maxRemove => exact dropOldestPendingJoins_shrinks state maxRemove
  | pruneJoins now ttl => exact pruneJoins_shrinks state now ttl
  | markCompletedAndPrunePending name requestId =>
      exact markCompletedAndPrunePending_shrinks state name requestId

theorem countExact_applyOp {state : JoinState} (h : CountExact state) (op : QueueOp) :
    CountExact (applyOp state op) := by
  cases op with
  | addPendingJoin request ip now =>
      simp only [applyOp]
      cases hadd : state.addPendingJoin request ip now with
      | none => exact h
      | some state' => exact countExact_addPendingJoin h hadd
  | _ => exact (applyOp_shrinks state _ (by simp)).countExact h

theorem countExact_afterOps (ops : List QueueOp) : CountExact (afterOps ops) := by
  induction ops using List.reverseRecOn with
  | nil => exact countExact_zero
  | append_singleton ops op ih =>
      rw [afterOps_snoc]
      exact countExact_applyOp ih op

/-- The call does not meet the blind spot of the single pass: it is no request
of a node waiting in a slot above a free one. -/
def NoHoleBelow (state : JoinState) : QueueOp → Prop
  | .addPendingJoin request _ _ =>
      ∀ i j, i < j → waitsIn request.nodeName (state.joins j) = true →
        (state.joins i).isSome = true
  | _ => True

theorem namesDistinct_addPendingJoin {state state' : JoinState} {request : JoinRequest}
    {ip : UInt32} {now : Int} (hdistinct : NamesDistinct state)
    (hhole : NoHoleBelow state (.addPendingJoin request ip now))
    (h : state.addPendingJoin request ip now = some state') : NamesDistinct state' := by
  obtain ⟨k, hlow, hjoins, hslot⟩ := addPendingJoin_some h
  -- no other slot waits under the name of the request
  have hother : ∀ j b, j ≠ k → state.joins j = some b → b.nodeName ≠ request.nodeName := by
    intro j b hjk hb hname
    have hwaits : waitsIn request.nodeName (state.joins j) = true :=
      waitsIn_eq_true.mpr ⟨b, hb, hname⟩
    rcases hslot with ⟨hk, _⟩ | ⟨hfree, _⟩
    · obtain ⟨a, ha, haname⟩ := waitsIn_eq_true.mp hk
      exact hjk (hdistinct j k b a hb ha (hname.trans haname.symm))
    · rcases lt_trichotomy j k with hlt | heq | hgt
      · rw [(hlow j hlt).2] at hwaits
        cases hwaits
      · exact hjk heq
      · have := hhole k j hgt hwaits
        simp [hfree] at this
  intro i j a b ha hb hname
  rw [hjoins, SlotTable.set_apply] at ha hb
  by_cases hi : i = k <;> by_cases hj : j = k
  · rw [hi, hj]
  · rw [if_pos hi] at ha
    rw [if_neg hj] at hb
    rw [← Option.some.inj ha] at hname
    exact absurd hname.symm (hother j b hj hb)
  · rw [if_neg hi] at ha
    rw [if_pos hj] at hb
    rw [← Option.some.inj hb] at hname
    exact absurd hname (hother i a hi ha)
  · rw [if_neg hi] at ha
    rw [if_neg hj] at hb
    exact hdistinct i j a b ha hb hname

/-- A call keeps the names distinct when it avoids the blind spot, and breaks
them when it does not. -/
theorem namesDistinct_applyOp_iff {state : JoinState} (hcount : CountExact state)
    (hdistinct : NamesDistinct state) (op : QueueOp) :
    NamesDistinct (applyOp state op) ↔ NoHoleBelow state op := by
  cases op with
  | addPendingJoin request ip now =>
      constructor
      · intro hafter i j hij hwaits
        by_contra hnone
        have hfree : state.joins i = none := by simpa using hnone
        obtain ⟨state', hadd⟩ := addPendingJoin_isSome hcount request ip now hfree
        obtain ⟨k, hlow, hjoins, _⟩ := addPendingJoin_some hadd
        have hki : k ≤ i := by
          by_contra hlt
          exact hnone (hlow i (not_le.mp hlt)).1
        have hjk : j ≠ k := (hki.trans_lt hij).ne'
        obtain ⟨b, hb, hname⟩ := waitsIn_eq_true.mp hwaits
        have hk' : state'.joins k = some (entryOf request ip now) := by
          rw [hjoins, SlotTable.set_self]
        have hj' : state'.joins j = some b := by
          rw [hjoins, SlotTable.set_of_ne _ _ hjk, hb]
        simp only [applyOp, hadd, Option.getD_some] at hafter
        exact hjk (hafter j k b _ hj' hk' hname)
      · intro hhole
        simp only [applyOp]
        cases hadd : state.addPendingJoin request ip now with
        | none => exact hdistinct
        | some state' => exact namesDistinct_addPendingJoin hdistinct hhole hadd
  | _ =>
      exact ⟨fun _ => trivial, fun _ =>
        hdistinct.shrink (applyOp_shrinks state _ (by simp))⟩

/-- Along any history of queue operations the waiting names are distinct in
every state exactly when no request of a waiting node is handled while a slot
below that node's slot is free. -/
theorem names_distinct_iff_no_hole_below (ops : List QueueOp) :
    (∀ done, done <+: ops → NamesDistinct (afterOps done)) ↔
      ∀ done op, done ++ [op] <+: ops → NoHoleBelow (afterOps done) op := by
  constructor
  · intro hall done op horder
    have hbefore := hall done ((List.prefix_append done [op]).trans horder)
    have hafter := hall (done ++ [op]) horder
    rw [afterOps_snoc] at hafter
    exact (namesDistinct_applyOp_iff (countExact_afterOps done) hbefore op).mp hafter
  · intro hall done
    induction done using List.reverseRecOn with
    | nil =>
        intro _ i j a b ha
        simp [afterOps, zero, SlotTable.empty] at ha
    | append_singleton done op ih =>
        intro horder
        have hbefore := ih ((List.prefix_append done [op]).trans horder)
        rw [afterOps_snoc]
        exact (namesDistinct_applyOp_iff (countExact_afterOps done) hbefore op).mpr
          (hall done op horder)

/-- The request of node `B`, which waits in the second slot, is handled after
`A` was popped out of the first. -/
def refreshBehindHole : List QueueOp :=
  let a : JoinRequest := ⟨1, NodeName.ofBytes [65], 5001⟩
  let b : JoinRequest := ⟨2, NodeName.ofBytes [66], 5002⟩
  [.addPendingJoin a 0 10, .addPendingJoin b 0 11, .popOldestPendingJoin,
    .addPendingJoin b 0 12]

theorem names_not_distinct_behind_hole :
    ¬ ∀ ops : List QueueOp, NamesDistinct (afterOps ops) := by
  intro h
  have hfirst : (afterOps refreshBehindHole).joins 0 =
      some ⟨2, NodeName.ofBytes [66], 5002, 0, 12⟩ := by decide +kernel
  have hsecond : (afterOps refreshBehindHole).joins 1 =
      some ⟨2, NodeName.ofBytes [66], 5002, 0, 11⟩ := by decide +kernel
  have := h refreshBehindHole 0 1 _ _ hfirst hsecond rfl
  cases this

end TokenRing.JoinState
