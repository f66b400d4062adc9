import TokenRing.JoinFsm

/-!
`unicast_dispatch.c`: the handlers of the four unicast messages.
-/

namespace TokenRing

/-- `update_topology_on_token`, with its return value. -/
def updateTopologyOnToken (state : RingState) : Bool × RingState :=
  if state.tokenIn.topoVersion ≤ state.lastSeenTopoVersion then
    (false, state)
  else
    (true, { state with
      joinState := (state.joinState.dropOldestPendingJoins state.joinState.count).2
      lastSeenTopoVersion := state.tokenIn.topoVersion })

/-- `clear_pending_joins_on_token`. -/
def clearPendingJoinsOnToken (state : RingState) : RingState :=
  if state.joinState.count = 0 then
    state
  else
    { state with
      joinState := (state.joinState.dropOldestPendingJoins state.joinState.count).2 }

/-- `handle_token_unicast`. A node that has not joined stores the token but
does not take it. -/
def handleTokenUnicast (state : RingState) (token : Token) : RingState :=
  let stored := { state with tokenIn := token }
  if stored.joined then
    let (updated, advanced) := updateTopologyOnToken stored
    let cleared := if updated then clearPendingJoinsOnToken advanced else advanced
    { cleared with haveToken := true }
  else
    stored

/-- `apply_accept_if_relevant`, with its return value. -/
def applyAcceptIfRelevant (state : RingState) (accept : JoinAccept) : Bool × RingState :=
  if state.config.current.nodeName = accept.newName then
    if state.joined then
      (false, state)
    else if accept.requestId ≠ state.joinRequestId then
      (false, state)
    else
      (true, { state with
        config :=
          { state.config with
            prev := ⟨accept.prevName, accept.prevUnicastPort⟩
            next := ⟨accept.beforeName, accept.beforeUnicastPort⟩ }
        joined := true
        joinRequestLastSent := 0
        joinRequestRetries := 0 })
  else if state.config.current.nodeName = accept.prevName then
    if state.config.next.nodeName ≠ accept.beforeName then
      (false, state)
    else
      (true, { state with
        config := { state.config with next := ⟨accept.newName, accept.newUnicastPort⟩ }
        joined := true })
  else
    (false, state)

/-- The acknowledgement record that an applied accept starts; `sentAt` is the
time of its first transmission when that one succeeded. -/
def JoinAckSender.start (accept : JoinAccept) (sentAt : Option Int) : JoinAckSender where
  active := true
  requestId := accept.requestId
  coordName := accept.beforeName
  coordUnicastPort := accept.beforeUnicastPort
  lastSent := sentAt.getD 0
  retries := if sentAt.isSome then 1 else 0
  gotAckAck := false

/-- `handle_join_accept_u`. Only an accept that was applied is answered. -/
def handleJoinAcceptU (state : RingState) (accept : JoinAccept) (now : Int)
    (ok : Nat → Bool) : RingState × List Effect :=
  let marked := { state with
    joinState :=
      state.joinState.markCompletedAndPrunePending accept.newName accept.requestId }
  let (didApply, applied) := applyAcceptIfRelevant marked accept
  if didApply then
    ({ applied with
        ackSender := JoinAckSender.start accept (if ok 0 then some now else none) },
      [.unicast ⟨accept.beforeName, accept.beforeUnicastPort⟩
        (.joinAck accept.requestId applied.config.current.nodeName) (ok 0)])
  else
    (applied, [])

/-- The confirmations that `handle_join_ack_u` records for the join in
flight. -/
def recordConfirm (state : RingState) (fromName : NodeName) : RingState :=
  { state with
    joinInflight :=
      { state.joinInflight with
        gotConfirmPrev := state.joinInflight.gotConfirmPrev ||
          (fromName = state.joinInflight.expectedPrevName ||
            fromName = state.config.prev.nodeName)
        gotConfirmJoiner := state.joinInflight.gotConfirmJoiner ||
          fromName = state.joinInflight.joiner.nodeName } }

/-- The port `handle_join_ack_u` answers to; the name alone decides, and a
sender that is neither the joiner nor the predecessor gets no answer. -/
def ackAckPort (state : RingState) (fromName : NodeName) : Option UInt16 :=
  if state.joinInflight.active = true ∧ fromName = state.joinInflight.joiner.nodeName then
    some state.joinInflight.joiner.unicastPort
  else if fromName = state.config.prev.nodeName then
    some state.config.prev.unicastPort
  else
    none

/-- The `JOIN_ACK_ACK_SEND_COUNT` answers of `handle_join_ack_u`. -/
def ackAckSends (state : RingState) (requestId : UInt32) (fromName : NodeName)
    (ok : Nat → Bool) : List Effect :=
  match ackAckPort state fromName with
  | none => []
  | some port =>
      (List.range joinAckAckSendCount).map (fun k =>
        .unicast ⟨fromName, port⟩ (.joinAckAck requestId fromName) (ok k))

/-- `handle_join_ack_u`. The join may be completed in the middle, before the
answer is addressed. -/
def handleJoinAckU (state : RingState) (requestId : UInt32) (fromName : NodeName)
    (ok : Nat → Bool) : RingState × List Effect :=
  let (after, out) :=
    if state.joinInflight.active = true ∧ state.joinInflight.requestId = requestId then
      joinFsmTryComplete (recordConfirm state fromName)
    else
      (state, [])
  (after, out ++ ackAckSends after requestId fromName ok)

/-- `handle_join_ack_ack_u`. -/
def handleJoinAckAckU (state : RingState) (requestId : UInt32) (toName : NodeName) :
    RingState :=
  if toName ≠ state.config.current.nodeName then
    state
  else if state.ackSender.active = true ∧ state.ackSender.requestId = requestId then
    { state with ackSender := { state.ackSender with gotAckAck := true } }
  else
    state

/-- `unicast_dispatch_message`. -/
def unicastDispatchMessage (state : RingState) (msg : UnicastMsg) (now : Int)
    (ok : Nat → Bool) : RingState × List Effect :=
  match msg with
  | .token token => (handleTokenUnicast state token, [])
  | .joinAccept accept => handleJoinAcceptU state accept now ok
  | .joinAck requestId fromName => handleJoinAckU state requestId fromName ok
  | .joinAckAck requestId toName => (handleJoinAckAckU state requestId toName, [])
  | .malformed => (state, [])

/-- What `handle_join_accept_u` can do: apart from the waiting queue it leaves
the state alone, or the joiner takes both neighbours, or the predecessor takes
its new successor; the last two start an acknowledgement. -/
theorem handleJoinAcceptU_cases (state : RingState) (accept : JoinAccept) (now : Int)
    (ok : Nat → Bool) :
    ∃ joinState sentAt, JoinState.Shrinks state.joinState joinState ∧
      (handleJoinAcceptU state accept now ok = ({ state with joinState := joinState }, []) ∨
        (state.config.current.nodeName = accept.newName ∧ state.joined = false ∧
          accept.requestId = state.joinRequestId ∧
          handleJoinAcceptU state accept now ok =
            ({ state with
                joinState := joinState
                config :=
                  { state.config with
                    prev := ⟨accept.prevName, accept.prevUnicastPort⟩
                    next := ⟨accept.beforeName, accept.beforeUnicastPort⟩ }
                joined := true
                joinRequestLastSent := 0
                joinRequestRetries := 0
                ackSender := JoinAckSender.start accept sentAt },
              [.unicast ⟨accept.beforeName, accept.beforeUnicastPort⟩
                (.joinAck accept.requestId state.config.current.nodeName) (ok 0)])) ∨
        (state.config.current.nodeName ≠ accept.newName ∧
          state.config.current.nodeName = accept.prevName ∧
          state.config.next.nodeName = accept.beforeName ∧
          handleJoinAcceptU state accept now ok =
            ({ state with
                joinState := joinState
                config := { state.config with next := ⟨accept.newName, accept.newUnicastPort⟩ }
                joined := true
                ackSender := JoinAckSender.start accept sentAt },
              [.unicast ⟨accept.beforeName, accept.beforeUnicastPort⟩
                (.joinAck accept.requestId state.config.current.nodeName) (ok 0)]))) := by
  refine ⟨state.joinState.markCompletedAndPrunePending accept.newName accept.requestId,
    if ok 0 then some now else none, JoinState.markCompletedAndPrunePending_shrinks _ _ _, ?_⟩
  unfold handleJoinAcceptU applyAcceptIfRelevant
  by_cases hnew : state.config.current.nodeName = accept.newName
  · by_cases hjoined : state.joined = true
    · exact .inl (by simp [hnew, hjoined])
    · by_cases hid : accept.requestId = state.joinRequestId
      · exact .inr (.inl ⟨hnew, by simpa using hjoined, hid, by simp [hnew, hjoined, hid]⟩)
      · exact .inl (by simp [hnew, hjoined, hid])
  · by_cases hprev : state.config.current.nodeName = accept.prevName
    · have hother : accept.prevName ≠ accept.newName := hprev ▸ hnew
      by_cases hnext : state.config.next.nodeName = accept.beforeName
      · exact .inr (.inr ⟨hnew, hprev, hnext, by simp [hprev, hother, hnext]⟩)
      · exact .inl (by simp [hprev, hother, hnext])
    · exact .inl (by simp [hnew, hprev])

/-- What `handle_token_unicast` does at a node that has joined. -/
theorem handleTokenUnicast_joined {state : RingState} (h : state.joined = true)
    (token : Token) :
    ∃ joinState, JoinState.Shrinks state.joinState joinState ∧
      handleTokenUnicast state token =
        { state with
          tokenIn := token
          joinState := joinState
          lastSeenTopoVersion :=
            if token.topoVersion ≤ state.lastSeenTopoVersion then state.lastSeenTopoVersion
            else token.topoVersion
          haveToken := true } ∧
      (¬ token.topoVersion ≤ state.lastSeenTopoVersion →
        JoinState.CountExact state.joinState → ∀ i, joinState.joins i = none) := by
  unfold handleTokenUnicast updateTopologyOnToken clearPendingJoinsOnToken
  simp only [h, if_true]
  by_cases hle : token.topoVersion ≤ state.lastSeenTopoVersion
  · exact ⟨state.joinState, .refl _, by simp [hle], fun hnot => absurd hle hnot⟩
  · have hdrop := JoinState.dropOldestPendingJoins_shrinks state.joinState
      state.joinState.count
    simp only [hle, if_false, if_true]
    split
    · exact ⟨_, hdrop, rfl, fun _ hcount i =>
        JoinState.dropOldestPendingJoins_empties hcount i⟩
    · have hagain := JoinState.dropOldestPendingJoins_shrinks
        (state.joinState.dropOldestPendingJoins state.joinState.count).2
        (state.joinState.dropOldestPendingJoins state.joinState.count).2.count
      exact ⟨_, hdrop.trans hagain, rfl, fun _ hcount i =>
        JoinState.dropOldestPendingJoins_empties (hdrop.countExact hcount) i⟩

theorem handleTokenUnicast_not_joined {state : RingState} (h : state.joined = false)
    (token : Token) : handleTokenUnicast state token = { state with tokenIn := token } := by
  simp [handleTokenUnicast, h]

/-- What `handle_join_ack_u` does before it answers. -/
theorem handleJoinAckU_cases (state : RingState) (requestId : UInt32)
    (fromName : NodeName) (ok : Nat → Bool) :
    ∃ after out, handleJoinAckU state requestId fromName ok =
        (after, out ++ ackAckSends after requestId fromName ok) ∧
      ((after = state ∧ out = [] ∧ ¬ (state.joinInflight.active = true ∧
          state.joinInflight.requestId = requestId)) ∨
        (state.joinInflight.active = true ∧ state.joinInflight.requestId = requestId ∧
          joinFsmTryComplete (recordConfirm state fromName) = (after, out))) := by
  unfold handleJoinAckU
  by_cases hmatch : state.joinInflight.active = true ∧
      state.joinInflight.requestId = requestId
  · simp only [hmatch, and_self, if_true]
    exact ⟨_, _, rfl, .inr ⟨trivial, trivial, rfl⟩⟩
  · rw [if_neg hmatch]
    exact ⟨state, [], rfl, .inl ⟨rfl, rfl, hmatch⟩⟩

theorem mem_ackAckSends {state : RingState} {requestId : UInt32} {fromName : NodeName}
    {ok : Nat → Bool} {effect : Effect}
    (h : effect ∈ ackAckSends state requestId fromName ok) :
    ∃ port k, ackAckPort state fromName = some port ∧
      effect = .unicast ⟨fromName, port⟩ (.joinAckAck requestId fromName) (ok k) := by
  unfold ackAckSends at h
  cases hport : ackAckPort state fromName with
  | none => simp [hport] at h
  | some port =>
      simp only [hport, List.mem_map] at h
      obtain ⟨k, _, rfl⟩ := h
      exact ⟨port, k, rfl, rfl⟩

end TokenRing
