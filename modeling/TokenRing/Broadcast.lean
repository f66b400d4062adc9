import TokenRing.JoinFsm

/-!
`broadcast.c`: the handler of the two broadcast messages.
-/

namespace TokenRing

/-- The `JOIN_REQUEST` branch of `handle_broadcast`: requests of the node
itself, of the joiner in flight and of nodes known to have joined are
ignored, and so is one that finds the queue full. -/
def handleJoinRequest (state : RingState) (request : JoinRequest) (ip : UInt32)
    (now : Int) : RingState :=
  if request.nodeName = state.config.current.nodeName then
    state
  else if state.joinInflight.active = true ∧
      state.joinInflight.joiner.nodeName = request.nodeName then
    state
  else if state.joinState.isCompleted request.nodeName then
    state
  else
    match state.joinState.addPendingJoin request ip now with
    | some joinState => { state with joinState := joinState }
    | none => state

/-- A newer version announced by a `JOIN_COMMIT` is taken over and empties the
queue. -/
def advanceTopology (state : RingState) (topoVersion : UInt32) : RingState :=
  if topoVersion > state.lastSeenTopoVersion then
    { state with
      lastSeenTopoVersion := topoVersion
      joinState :=
        if state.joinState.count > 0 then
          (state.joinState.dropOldestPendingJoins state.joinState.count).2
        else
          state.joinState }
  else
    state

/-- The completion of the join in flight by a `JOIN_COMMIT` with its id. -/
def completeViaCommit (state : RingState) (requestId : UInt32) : RingState :=
  if state.joinInflight.active = true ∧ state.joinInflight.requestId = requestId then
    let joiner := state.joinInflight.joiner
    { state with
      config := { state.config with prev := joiner.route }
      joinState :=
        (state.joinState.removePendingJoin joiner.nodeName).recordCompleted
          joiner.nodeName joiner.requestId
      joinInflight := state.joinInflight.finish
      tokenIn := { state.tokenIn with topoVersion := state.lastSeenTopoVersion } }
  else
    state

/-- A `JOIN_COMMIT` also ends the acknowledgements of its request. -/
def stopAckSender (state : RingState) (requestId : UInt32) : RingState :=
  if state.ackSender.active = true ∧ state.ackSender.requestId = requestId then
    { state with ackSender := { state.ackSender with active := false, gotAckAck := true } }
  else
    state

/-- The `JOIN_COMMIT` branch of `handle_broadcast`. -/
def handleJoinCommit (state : RingState) (requestId : UInt32) (newName : NodeName)
    (topoVersion : UInt32) : RingState :=
  let marked := { state with
    joinState := state.joinState.markCompletedAndPrunePending newName requestId }
  stopAckSender (completeViaCommit (advanceTopology marked topoVersion) requestId) requestId

/-- `handle_broadcast` past the receipt of the datagram; `ip` is the address it
came from. -/
def handleBroadcast (state : RingState) (msg : BroadcastMsg) (ip : UInt32) (now : Int) :
    RingState :=
  match msg with
  | .joinRequest request => handleJoinRequest state request ip now
  | .joinCommit requestId newName topoVersion =>
      handleJoinCommit state requestId newName topoVersion
  | .malformed => state

/-- A request is ignored, or taken into the queue. -/
theorem handleJoinRequest_cases (state : RingState) (request : JoinRequest) (ip : UInt32)
    (now : Int) :
    handleJoinRequest state request ip now = state ∨
      ∃ joinState, request.nodeName ≠ state.config.current.nodeName ∧
        ¬ (state.joinInflight.active = true ∧
          state.joinInflight.joiner.nodeName = request.nodeName) ∧
        state.joinState.isCompleted request.nodeName = false ∧
        state.joinState.addPendingJoin request ip now = some joinState ∧
        handleJoinRequest state request ip now = { state with joinState := joinState } := by
  unfold handleJoinRequest
  split
  · exact .inl rfl
  · rename_i hother
    split
    · exact .inl rfl
    · rename_i hjoiner
      split
      · exact .inl rfl
      · rename_i hcompleted
        cases hadd : state.joinState.addPendingJoin request ip now with
        | none => exact .inl rfl
        | some joinState =>
            exact .inr ⟨joinState, hother, hjoiner, by simpa using hcompleted, rfl, rfl⟩

/-- The version is the greater one, and a greater one empties the queue. -/
theorem advanceTopology_eq (state : RingState) (topoVersion : UInt32) :
    ∃ joinState, JoinState.Shrinks state.joinState joinState ∧
      advanceTopology state topoVersion =
        { state with
          joinState := joinState
          lastSeenTopoVersion :=
            if topoVersion > state.lastSeenTopoVersion then topoVersion
            else state.lastSeenTopoVersion } ∧
      (topoVersion > state.lastSeenTopoVersion → JoinState.CountExact state.joinState →
        ∀ i, joinState.joins i = none) := by
  unfold advanceTopology
  by_cases hnewer : topoVersion > state.lastSeenTopoVersion
  · by_cases hcount : state.joinState.count > 0
    · exact ⟨_, JoinState.dropOldestPendingJoins_shrinks _ state.joinState.count,
        by simp [hnewer, hcount], fun _ hexact i =>
          JoinState.dropOldestPendingJoins_empties hexact i⟩
    · refine ⟨state.joinState, .refl _, by simp [hnewer, hcount], fun _ hexact => ?_⟩
      have hzero : state.joinState.joins.used.card = 0 := by
        rw [← JoinState.countExact_toNat hexact]
        have hnone : ¬ 0 < state.joinState.count.toNat := hcount
        omega
      exact (SlotTable.used_card_eq_zero _).mp hzero
  · exact ⟨state.joinState, .refl _, by simp [hnewer], fun h => absurd h hnewer⟩

/-- Only the acknowledgement record may differ. -/
theorem stopAckSender_eq (state : RingState) (requestId : UInt32) :
    ∃ sender, stopAckSender state requestId = { state with ackSender := sender } ∧
      state.ackSender.Wanes sender := by
  unfold stopAckSender
  split
  · exact ⟨_, rfl, by simp, rfl, rfl, rfl, by simp, le_rfl⟩
  · exact ⟨state.ackSender, rfl, .refl _⟩

/-- What a `JOIN_COMMIT` does: it advances the version, may empty the queue,
may stop the acknowledgements, and completes the join in flight when it
carries its id. -/
theorem handleJoinCommit_cases (state : RingState) (requestId : UInt32)
    (newName : NodeName) (topoVersion : UInt32) :
    ∃ joinState sender, JoinState.Shrinks state.joinState joinState ∧
      (topoVersion > state.lastSeenTopoVersion → JoinState.CountExact state.joinState →
        ∀ i, joinState.joins i = none) ∧
      state.ackSender.Wanes sender ∧
      ((¬ (state.joinInflight.active = true ∧ state.joinInflight.requestId = requestId) ∧
          handleJoinCommit state requestId newName topoVersion =
            { state with
              joinState := joinState
              ackSender := sender
              lastSeenTopoVersion :=
                if topoVersion > state.lastSeenTopoVersion then topoVersion
                else state.lastSeenTopoVersion }) ∨
        (state.joinInflight.active = true ∧ state.joinInflight.requestId = requestId ∧
          handleJoinCommit state requestId newName topoVersion =
            { state with
              joinState := joinState
              ackSender := sender
              config := { state.config with prev := state.joinInflight.joiner.route }
              joinInflight := state.joinInflight.finish
              lastSeenTopoVersion :=
                if topoVersion > state.lastSeenTopoVersion then topoVersion
                else state.lastSeenTopoVersion
              tokenIn :=
                { state.tokenIn with
                  topoVersion :=
                    if topoVersion > state.lastSeenTopoVersion then topoVersion
                    else state.lastSeenTopoVersion } })) := by
  have hmark := JoinState.markCompletedAndPrunePending_shrinks state.joinState newName requestId
  obtain ⟨joinState, hadvance, heq, hempty⟩ := advanceTopology_eq
    { state with
      joinState := state.joinState.markCompletedAndPrunePending newName requestId } topoVersion
  have hqueue := hmark.trans hadvance
  have hnone : topoVersion > state.lastSeenTopoVersion →
      JoinState.CountExact state.joinState → ∀ i, joinState.joins i = none :=
    fun hnewer hexact => hempty hnewer (hmark.countExact hexact)
  unfold handleJoinCommit
  simp only [heq]
  by_cases hmatch : state.joinInflight.active = true ∧
      state.joinInflight.requestId = requestId
  · have hremove := complete_queue_shrinks joinState state.joinInflight.joiner
    obtain ⟨sender, hstop, hsender⟩ := stopAckSender_eq
      (completeViaCommit
        { state with
          joinState := joinState
          lastSeenTopoVersion :=
            if topoVersion > state.lastSeenTopoVersion then topoVersion
            else state.lastSeenTopoVersion } requestId) requestId
    refine ⟨_, sender, hqueue.trans hremove, fun hnewer hexact =>
      hremove.empty (hnone hnewer hexact), ?_, .inr ⟨hmatch.1, hmatch.2, ?_⟩⟩
    · simpa [completeViaCommit, hmatch] using hsender
    · rw [hstop]
      simp [completeViaCommit, hmatch]
  · obtain ⟨sender, hstop, hsender⟩ := stopAckSender_eq
      { state with
        joinState := joinState
        lastSeenTopoVersion :=
          if topoVersion > state.lastSeenTopoVersion then topoVersion
          else state.lastSeenTopoVersion } requestId
    refine ⟨joinState, sender, hqueue, hnone, hsender, .inl ⟨hmatch, ?_⟩⟩
    simp only [completeViaCommit, hmatch, if_false]
    exact hstop

end TokenRing
