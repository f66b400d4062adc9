import TokenRing.JoinQueue
import TokenRing.RingState

/-!
`join_fsm.c`: the requests of a node that wants to join, and the join that the
token holder has in flight.
-/

namespace TokenRing

/-- `join_fsm_request_tick`. `sent` is the success of the broadcast; `none` is
the return value -1, which ends the event loop. -/
def joinFsmRequestTick (state : RingState) (now : Int) (sent : Bool) :
    Option (RingState × List Effect) :=
  if state.joined then
    some (state, [])
  else if state.joinRequestLastSent ≠ 0 ∧
      now - state.joinRequestLastSent < joinRequestTimeoutS then
    some (state, [])
  else if state.joinRequestRetries ≥ joinRequestRetries then
    none
  else if !sent then
    none
  else
    some ({ state with
        joinRequestLastSent := now
        joinRequestRetries := state.joinRequestRetries + 1 },
      [.broadcast (.joinRequest ⟨state.joinRequestId, state.config.current.nodeName,
        state.config.current.unicastPort⟩)])

/-- `join_fsm_start_inflight`. A node that is its own predecessor has that
confirmation from the start. -/
def joinFsmStartInflight (state : RingState) (pending : PendingJoin) : RingState :=
  { state with
    joinInflight :=
      { active := true
        requestId := pending.requestId
        joiner := pending
        expectedPrevName := state.config.prev.nodeName
        gotConfirmPrev := state.config.prev.nodeName = state.config.current.nodeName
        gotConfirmJoiner := false
        lastSent := 0
        retries := 0 } }

/-- The in-flight record after a completion, as both completion paths leave
it. -/
def JoinInflight.finish (inflight : JoinInflight) : JoinInflight :=
  { inflight with
    active := false
    gotConfirmPrev := false
    gotConfirmJoiner := false
    retries := 0 }

/-- The completing part of `join_fsm_try_complete`, past its two guards. -/
def joinFsmComplete (state : RingState) : RingState × List Effect :=
  let joiner := state.joinInflight.joiner
  let prevIsSelf := state.joinInflight.expectedPrevName = state.config.current.nodeName
  let version := state.lastSeenTopoVersion + 1
  ({ state with
      config :=
        { state.config with
          prev := joiner.route
          next := if prevIsSelf then joiner.route else state.config.next }
      lastSeenTopoVersion := version
      tokenIn := { state.tokenIn with topoVersion := version }
      joinState :=
        (state.joinState.removePendingJoin joiner.nodeName).recordCompleted
          joiner.nodeName joiner.requestId
      joinInflight := state.joinInflight.finish },
    [.broadcast (.joinCommit state.joinInflight.requestId joiner.nodeName version)])

/-- `join_fsm_try_complete`, which `join_fsm_maybe_complete` calls. The result
of the broadcast is ignored. -/
def joinFsmTryComplete (state : RingState) : RingState × List Effect :=
  if !state.joinInflight.active then
    (state, [])
  else if !(state.joinInflight.gotConfirmPrev && state.joinInflight.gotConfirmJoiner) then
    (state, [])
  else
    joinFsmComplete state

/-- `build_join_accept_host`. -/
def buildJoinAcceptHost (state : RingState) : JoinAccept where
  requestId := state.joinInflight.requestId
  newName := state.joinInflight.joiner.nodeName
  newUnicastPort := state.joinInflight.joiner.unicastPort
  beforeName := state.config.current.nodeName
  beforeUnicastPort := state.config.current.unicastPort
  prevName := state.config.prev.nodeName
  prevUnicastPort := state.config.prev.unicastPort

/-- The sends of `join_fsm_inflight_tick`: to the joiner and to the
predecessor, each only while its confirmation is missing. -/
def inflightSends (state : RingState) (ok : Nat → Bool) : List Effect :=
  let accept := UnicastMsg.joinAccept (buildJoinAcceptHost state)
  (if state.joinInflight.gotConfirmJoiner then []
    else [.unicast state.joinInflight.joiner.route accept (ok 0)]) ++
  (if state.joinInflight.gotConfirmPrev then []
    else [.unicast state.config.prev accept (ok 1)])

/-- `join_fsm_inflight_tick`. Exhausted retries only restart the count. -/
def joinFsmInflightTick (state : RingState) (now : Int) (ok : Nat → Bool) :
    RingState × List Effect :=
  if !state.joinInflight.active then
    (state, [])
  else if state.joinInflight.gotConfirmPrev && state.joinInflight.gotConfirmJoiner then
    joinFsmTryComplete state
  else if state.joinInflight.lastSent ≠ 0 ∧
      now - state.joinInflight.lastSent < joinAcceptTimeoutS then
    (state, [])
  else
    let retries :=
      if state.joinInflight.retries ≥ joinAcceptRetries then 0
      else state.joinInflight.retries
    ({ state with
        joinInflight := { state.joinInflight with lastSent := now, retries := retries + 1 } },
      inflightSends state ok)

/-- A completion takes the joiner out of the queue and adds nothing. -/
theorem complete_queue_shrinks (joinState : JoinState) (joiner : PendingJoin) :
    JoinState.Shrinks joinState
      ((joinState.removePendingJoin joiner.nodeName).recordCompleted
        joiner.nodeName joiner.requestId) :=
  (JoinState.removePendingJoin_shrinks _ _).trans (JoinState.recordCompleted_shrinks _ _ _)

theorem joinFsmTryComplete_cases (state : RingState) :
    joinFsmTryComplete state = (state, []) ∨
      (state.joinInflight.active = true ∧ state.joinInflight.gotConfirmPrev = true ∧
        state.joinInflight.gotConfirmJoiner = true ∧
        joinFsmTryComplete state = joinFsmComplete state) := by
  unfold joinFsmTryComplete
  by_cases hactive : state.joinInflight.active = true
  · by_cases hboth : state.joinInflight.gotConfirmPrev = true ∧
        state.joinInflight.gotConfirmJoiner = true
    · exact .inr ⟨hactive, hboth.1, hboth.2, by simp [hactive, hboth]⟩
    · refine .inl ?_
      rw [if_neg (by simp [hactive]), if_pos (by grind)]
  · exact .inl (by simp [hactive])

theorem joinFsmTryComplete_of_confirmed {state : RingState}
    (hactive : state.joinInflight.active = true)
    (hprev : state.joinInflight.gotConfirmPrev = true)
    (hjoiner : state.joinInflight.gotConfirmJoiner = true) :
    joinFsmTryComplete state = joinFsmComplete state := by
  simp [joinFsmTryComplete, hactive, hprev, hjoiner]

theorem joinFsmInflightTick_cases (state : RingState) (now : Int) (ok : Nat → Bool) :
    joinFsmInflightTick state now ok = (state, []) ∨
      (state.joinInflight.active = true ∧ state.joinInflight.gotConfirmPrev = true ∧
        state.joinInflight.gotConfirmJoiner = true ∧
        joinFsmInflightTick state now ok = joinFsmComplete state) ∨
      (state.joinInflight.active = true ∧ ∃ retries, joinFsmInflightTick state now ok =
        ({ state with
            joinInflight :=
              { state.joinInflight with lastSent := now, retries := retries } },
          inflightSends state ok)) := by
  unfold joinFsmInflightTick
  by_cases hactive : state.joinInflight.active = true
  · rw [if_neg (by simp [hactive])]
    by_cases hboth : state.joinInflight.gotConfirmPrev = true ∧
        state.joinInflight.gotConfirmJoiner = true
    · rw [if_pos (by simp [hboth])]
      exact .inr (.inl ⟨hactive, hboth.1, hboth.2,
        joinFsmTryComplete_of_confirmed hactive hboth.1 hboth.2⟩)
    · rw [if_neg (by simpa using hboth)]
      split
      · exact .inl rfl
      · exact .inr (.inr ⟨hactive, _, rfl⟩)
  · exact .inl (by simp [hactive])

theorem mem_inflightSends {state : RingState} {ok : Nat → Bool} {effect : Effect}
    (h : effect ∈ inflightSends state ok) :
    (state.joinInflight.gotConfirmJoiner = false ∧
      effect = .unicast state.joinInflight.joiner.route
        (.joinAccept (buildJoinAcceptHost state)) (ok 0)) ∨
    (state.joinInflight.gotConfirmPrev = false ∧
      effect = .unicast state.config.prev (.joinAccept (buildJoinAcceptHost state)) (ok 1)) := by
  unfold inflightSends at h
  rcases List.mem_append.mp h with h | h
  · split at h
    · cases h
    · rename_i hmissing
      exact .inl ⟨Bool.eq_false_of_not_eq_true hmissing, List.mem_singleton.mp h⟩
  · split at h
    · cases h
    · rename_i hmissing
      exact .inr ⟨Bool.eq_false_of_not_eq_true hmissing, List.mem_singleton.mp h⟩

theorem inflightSends_no_token (state : RingState) (ok : Nat → Bool) (dst : Route)
    (token : Token) (sent : Bool) :
    .unicast dst (.token token) sent ∉ inflightSends state ok := by
  intro member
  rcases mem_inflightSends member with ⟨_, heq⟩ | ⟨_, heq⟩ <;> cases heq

end TokenRing
