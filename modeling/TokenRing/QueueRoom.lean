import TokenRing.JoinCounter

/-!
When a join request is refused. The counter is compared with the capacity
before the pass over the slots, so a full queue refuses also the request that
only has to refresh a waiting entry, and a free slot ends the pass before it
comes to an entry above.
-/

namespace TokenRing.JoinState

section Request

variable (state : JoinState) (request : JoinRequest) (ip : UInt32) (now : Int)

/-- The node of the request does not wait. -/
def NotWaiting : Prop := ∀ i, waitsIn request.nodeName (state.joins i) = false

/-- A request is refused when the queue is full of other nodes; the request of
a waiting node is taken and changes what is stored about that node. -/
structure RefusedForRoomOnly : Prop where
  refused : state.addPendingJoin request ip now = none ↔
    state.joins.used.card = 32 ∧ NotWaiting state request
  unchanged : state.addPendingJoin request ip now = none →
    applyOp state (.addPendingJoin request ip now) = state
  refreshed : ∀ i, waitsIn request.nodeName (state.joins i) = true →
    ∃ after, state.addPendingJoin request ip now = some after ∧
      after.count = state.count ∧ SameCompleted state after ∧
      ∀ j, after.joins j =
        if waitsIn request.nodeName (state.joins j) = true then some (entryOf request ip now)
        else state.joins j

/-- The pass over the slots starts, and comes to the entry of the node before a
free slot; further entries of the node hold already what the request says. -/
def EntryInReach : Prop :=
  state.count < 32 ∧ ∃ i, waitsIn request.nodeName (state.joins i) = true ∧
    (∀ j, j < i → (state.joins j).isSome = true ∧
      waitsIn request.nodeName (state.joins j) = false) ∧
    ∀ j, i < j → waitsIn request.nodeName (state.joins j) = true →
      state.joins j = some (entryOf request ip now)

end Request

section Room

variable {state : JoinState} {request : JoinRequest} {ip : UInt32} {now : Int}

theorem count_lt_iff (h : CountExact state) : state.count < 32 ↔ state.joins.used.card < 32 := by
  rw [UInt64.lt_iff_toNat_lt, countExact_toNat h]
  rfl

theorem addPendingJoin_none_of_full (hfull : ¬ state.count < 32) :
    state.addPendingJoin request ip now = none := by
  unfold addPendingJoin
  exact if_pos (UInt64.not_lt.mp hfull)

/-- The request of a node that does not wait is refused by a full queue. -/
theorem addPendingJoin_none_iff (h : CountExact state) :
    state.addPendingJoin request ip now = none ↔ state.joins.used.card = 32 := by
  have hle := SlotTable.card_used_le state.joins
  have hcount := count_lt_iff h
  constructor
  · intro hrefused
    by_contra hroom
    have hfree : ∃ i, state.joins i = none := by
      by_contra hused
      have hall : state.joins.used = Finset.univ := by
        ext i
        have hslot : state.joins i ≠ none := fun hnone => hused ⟨i, hnone⟩
        simpa [Option.isSome_iff_ne_none] using hslot
      rw [hall] at hroom
      simp at hroom
    obtain ⟨i, hfree⟩ := hfree
    obtain ⟨after, htaken⟩ := addPendingJoin_isSome h request ip now hfree
    rw [hrefused] at htaken
    cases htaken
  · intro hfull
    apply addPendingJoin_none_of_full
    rw [hcount]
    omega

theorem refusedForRoomOnly_of_notWaiting (h : CountExact state)
    (hnew : NotWaiting state request) : RefusedForRoomOnly state request ip now := by
  constructor
  · rw [addPendingJoin_none_iff h]
    exact ⟨fun hfull => ⟨hfull, hnew⟩, And.left⟩
  · intro hrefused
    simp [applyOp, hrefused]
  · intro i hwaits
    rw [hnew i] at hwaits
    cases hwaits

/-- The entry of the node is the slot where the pass stops. -/
theorem EntryInReach.taken (h : EntryInReach state request ip now) :
    ∃ i, waitsIn request.nodeName (state.joins i) = true ∧
      state.addPendingJoin request ip now =
        some { state with joins := state.joins.set i (some (entryOf request ip now)) } ∧
      ∀ j, j ≠ i → waitsIn request.nodeName (state.joins j) = true →
        state.joins j = some (entryOf request ip now) := by
  obtain ⟨hroom, i, hwaits, hbelow, habove⟩ := h
  have hfirst : state.joins.firstSlot
      (fun content => waitsIn request.nodeName content || content.isNone) = some i := by
    apply (SlotTable.firstSlot_eq_some_iff _ _ i).mpr
    constructor
    · simp [hwaits]
    · intro j hj
      obtain ⟨hused, hother⟩ := hbelow j hj
      simp only [hother, Bool.false_or]
      cases hslot : state.joins j with
      | none => simp [hslot] at hused
      | some pending => rfl
  refine ⟨i, hwaits, ?_, ?_⟩
  · unfold addPendingJoin
    rw [if_neg (UInt64.not_le.mpr hroom)]
    simp only [hfirst, hwaits, if_true]
  · intro j hj hsame
    rcases lt_or_gt_of_ne hj with hlow | hhigh
    · rw [(hbelow j hlow).2] at hsame
      cases hsame
    · exact habove j hhigh hsame

theorem EntryInReach.refusedForRoomOnly (h : EntryInReach state request ip now) :
    RefusedForRoomOnly state request ip now := by
  obtain ⟨i, hwaits, htaken, hothers⟩ := h.taken
  constructor
  · rw [htaken]
    constructor
    · intro hnone
      cases hnone
    · rintro ⟨_, hnew⟩
      rw [hnew i] at hwaits
      cases hwaits
  · intro hrefused
    rw [htaken] at hrefused
    cases hrefused
  · intro _ _
    refine ⟨_, htaken, rfl, ⟨rfl, rfl⟩, ?_⟩
    intro j
    by_cases hji : j = i
    · subst hji
      rw [if_pos hwaits]
      exact SlotTable.set_self _ _ _
    · simp only [SlotTable.set_of_ne _ _ hji]
      split
      · rename_i hsame
        exact hothers j hji hsame
      · rfl

/-- A refreshed entry was in reach. -/
theorem RefusedForRoomOnly.entryInReach (h : RefusedForRoomOnly state request ip now)
    {i : Fin 32} (hwaits : waitsIn request.nodeName (state.joins i) = true) :
    EntryInReach state request ip now := by
  obtain ⟨after, htaken, hcount, _, hjoins⟩ := h.refreshed i hwaits
  obtain ⟨k, hbelow, hset, hslot⟩ := addPendingJoin_some htaken
  have hroom : state.count < 32 := by
    by_contra hfull
    rw [addPendingJoin_none_of_full hfull] at htaken
    cases htaken
  rcases hslot with ⟨hk, _⟩ | ⟨_, hmore⟩
  · refine ⟨hroom, k, hk, hbelow, ?_⟩
    intro j hj hsame
    have hafter := hjoins j
    rwa [if_pos hsame, hset, SlotTable.set_of_ne _ _ hj.ne'] at hafter
  · rw [hcount] at hmore
    have hsame : state.count.toNat = (state.count + 1).toNat := congrArg UInt64.toNat hmore
    have hless : state.count.toNat < 32 := UInt64.lt_iff_toNat_lt.mp hroom
    have hone : (1 : UInt64).toNat = 1 := rfl
    rw [UInt64.toNat_add] at hsame
    omega

end Room

/-- In every state that calls lead to, a request is treated right exactly when
its node does not wait or the entry of the node is in reach. -/
theorem request_answered_iff (ops : List JoinOp) (request : JoinRequest) (ip : UInt32)
    (now : Int) :
    RefusedForRoomOnly (afterJoinOps ops) request ip now ↔
      NotWaiting (afterJoinOps ops) request ∨ EntryInReach (afterJoinOps ops) request ip now := by
  have hcount := (afterJoinOps_inv ops).1
  constructor
  · intro h
    by_cases hnew : NotWaiting (afterJoinOps ops) request
    · exact .inl hnew
    · simp only [NotWaiting, not_forall, Bool.not_eq_false] at hnew
      obtain ⟨i, hwaits⟩ := hnew
      exact .inr (h.entryInReach hwaits)
  · rintro (hnew | hreach)
    · exact refusedForRoomOnly_of_notWaiting hcount hnew
    · exact hreach.refusedForRoomOnly

section FullQueue

/-- The request of the `k`-th of a row of nodes. -/
def requestOf (k : Nat) : JoinRequest :=
  ⟨UInt32.ofNat k, NodeName.ofBytes [UInt8.ofNat (65 + k)], 5000⟩

/-- As many nodes ask as the queue has slots. -/
def fillQueue : List JoinOp :=
  (List.range 32).map (fun k => .queue (.addPendingJoin (requestOf k) 0 10))

theorem waiting_node_refused :
    ¬ ∀ (ops : List JoinOp) (request : JoinRequest) (ip : UInt32) (now : Int),
      RefusedForRoomOnly (afterJoinOps ops) request ip now := by
  intro h
  have hrefused : (afterJoinOps fillQueue).addPendingJoin (requestOf 0) 0 11 = none := by
    apply addPendingJoin_none_of_full
    decide +kernel
  have hwaits : waitsIn (requestOf 0).nodeName ((afterJoinOps fillQueue).joins 0) = true := by
    decide +kernel
  obtain ⟨after, htaken, _⟩ := (h fillQueue (requestOf 0) 0 11).refreshed 0 hwaits
  rw [hrefused] at htaken
  cases htaken

end FullQueue

end TokenRing.JoinState
