import TokenRing.Coordinator

/-!
The three times of last transmission in the state of a node. Each is 0, which
stands for none, or what the clock showed at one of the node's events.
-/

namespace TokenRing

/-- The time that the handler of an event reads. -/
def Event.clock : Event → Option Int
  | .joinFsmRequestTick now _ | .joinAckSenderTick now _ | .pruneJoins now
  | .joinFsmInflightTick now _ | .unicastMessage _ now _ | .broadcastMessage _ _ now
  | .handleTokenIfReady now _ => some now
  | _ => none

/-- The stored timestamps meet a condition. -/
structure Stamped (good : Int → Prop) (state : RingState) : Prop where
  request : good state.joinRequestLastSent
  accept : good state.joinInflight.lastSent
  ack : good state.ackSender.lastSent

/-- The stored timestamps are times that have passed; 0 stands for none. -/
def StampsPassed (state : RingState) (now : Int) : Prop :=
  Stamped (fun stamp => 0 ≤ stamp ∧ stamp ≤ now) state

section Handlers

variable {good : Int → Prop} {state state' : RingState} {now : Int} {ok : Nat → Bool}

theorem joinFsmTryComplete_stamped (h : Stamped good state) :
    Stamped good (joinFsmTryComplete state).1 := by
  rcases joinFsmTryComplete_cases state with hsame | ⟨_, _, _, hdone⟩
  · rw [hsame]
    exact h
  · rw [hdone]
    exact ⟨h.request, h.accept, h.ack⟩

theorem joinFsmInflightTick_stamped (h : Stamped good state) (hnow : good now) :
    Stamped good (joinFsmInflightTick state now ok).1 := by
  rcases joinFsmInflightTick_cases state now ok with hsame | ⟨_, _, _, hdone⟩ | ⟨_, retries, hsent⟩
  · rw [hsame]
    exact h
  · rw [hdone]
    exact ⟨h.request, h.accept, h.ack⟩
  · rw [hsent]
    exact ⟨h.request, hnow, h.ack⟩

theorem joinFsmRequestTick_stamped {sent : Bool} {out : List Effect} (h : Stamped good state)
    (hnow : good now) (htick : joinFsmRequestTick state now sent = some (state', out)) :
    Stamped good state' := by
  unfold joinFsmRequestTick at htick
  split at htick
  · cases htick
    exact h
  split at htick
  · cases htick
    exact h
  split at htick
  · cases htick
  split at htick
  · cases htick
  · cases htick
    exact ⟨hnow, h.accept, h.ack⟩

theorem joinAckSenderTick_stamped (h : Stamped good state) (hnow : good now) :
    Stamped good (joinAckSenderTick state now ok).1 := by
  rcases joinAckSenderTick_cases state now ok with hsame | ⟨_, hstop⟩ | ⟨_, _, _, hsent⟩
  · rw [hsame]
    exact h
  · rw [hstop]
    exact ⟨h.request, h.accept, h.ack⟩
  · rw [hsent]
    exact ⟨h.request, h.accept, hnow⟩

theorem handleTokenUnicast_stamped (h : Stamped good state) (token : Token) :
    Stamped good (handleTokenUnicast state token) := by
  cases hjoined : state.joined with
  | false =>
      rw [handleTokenUnicast_not_joined hjoined]
      exact ⟨h.request, h.accept, h.ack⟩
  | true =>
      obtain ⟨joinState, _, heq, _⟩ := handleTokenUnicast_joined hjoined token
      rw [heq]
      exact ⟨h.request, h.accept, h.ack⟩

/-- An accept that is applied stops the requests of the joiner and starts an
acknowledgement. -/
theorem applyAcceptIfRelevant_stamped (hzero : good 0) (h : Stamped good state)
    (accept : JoinAccept) : Stamped good (applyAcceptIfRelevant state accept).2 := by
  unfold applyAcceptIfRelevant
  split
  · split
    · exact h
    split
    · exact h
    · exact ⟨hzero, h.accept, h.ack⟩
  split
  · split
    · exact h
    · exact ⟨h.request, h.accept, h.ack⟩
  · exact h

theorem handleJoinAcceptU_stamped (hzero : good 0) (h : Stamped good state) (hnow : good now)
    (accept : JoinAccept) : Stamped good (handleJoinAcceptU state accept now ok).1 := by
  have hmarked : Stamped good { state with
      joinState := state.joinState.markCompletedAndPrunePending accept.newName
        accept.requestId } := ⟨h.request, h.accept, h.ack⟩
  have happlied := applyAcceptIfRelevant_stamped hzero hmarked accept
  unfold handleJoinAcceptU
  simp only
  split
  · refine ⟨happlied.request, happlied.accept, ?_⟩
    simp only [JoinAckSender.start]
    split
    · exact hnow
    · exact hzero
  · exact happlied

theorem handleJoinAckU_stamped (h : Stamped good state) (requestId : UInt32)
    (fromName : NodeName) : Stamped good (handleJoinAckU state requestId fromName ok).1 := by
  obtain ⟨after, out, heq, ⟨rfl, _, _⟩ | ⟨_, _, htry⟩⟩ :=
    handleJoinAckU_cases state requestId fromName ok
  · rw [heq]
    exact h
  · have hconfirmed : Stamped good (recordConfirm state fromName) :=
      ⟨h.request, h.accept, h.ack⟩
    have hafter := joinFsmTryComplete_stamped hconfirmed
    rw [htry] at hafter
    rw [heq]
    exact hafter

theorem handleJoinAckAckU_stamped (h : Stamped good state) (requestId : UInt32)
    (toName : NodeName) : Stamped good (handleJoinAckAckU state requestId toName) := by
  unfold handleJoinAckAckU
  split
  · exact h
  split
  · exact ⟨h.request, h.accept, h.ack⟩
  · exact h

theorem advanceTopology_stamped (h : Stamped good state) (topoVersion : UInt32) :
    Stamped good (advanceTopology state topoVersion) := by
  unfold advanceTopology
  split
  · exact ⟨h.request, h.accept, h.ack⟩
  · exact h

theorem completeViaCommit_stamped (h : Stamped good state) (requestId : UInt32) :
    Stamped good (completeViaCommit state requestId) := by
  unfold completeViaCommit
  split
  · exact ⟨h.request, h.accept, h.ack⟩
  · exact h

theorem stopAckSender_stamped (h : Stamped good state) (requestId : UInt32) :
    Stamped good (stopAckSender state requestId) := by
  unfold stopAckSender
  split
  · exact ⟨h.request, h.accept, h.ack⟩
  · exact h

theorem handleBroadcast_stamped (h : Stamped good state) (msg : BroadcastMsg) (ip : UInt32) :
    Stamped good (handleBroadcast state msg ip now) := by
  cases msg with
  | joinRequest request =>
      have hcases := handleJoinRequest_cases state request ip now
      rcases hcases with hsame | ⟨joinState, _, _, _, _, htaken⟩
      · rw [handleBroadcast, hsame]
        exact h
      · rw [handleBroadcast, htaken]
        exact ⟨h.request, h.accept, h.ack⟩
  | joinCommit requestId newName topoVersion =>
      apply stopAckSender_stamped
      apply completeViaCommit_stamped
      apply advanceTopology_stamped
      exact ⟨h.request, h.accept, h.ack⟩
  | malformed => exact h

theorem handleTokenIfReady_stamped (hzero : good 0) (h : Stamped good state) (hnow : good now) :
    Stamped good (handleTokenIfReady state now ok).1 := by
  rcases handleTokenIfReady_cases state now ok with
    hsame | ⟨_, _, _, pending, joinState, _, hstarted⟩ | ⟨_, _, _, _, hforwarded⟩
  · rw [hsame]
    exact h
  · rw [hstarted]
    apply joinFsmInflightTick_stamped _ hnow
    exact ⟨h.request, hzero, h.ack⟩
  · obtain ⟨_, _, _, _, _, _, heq⟩ := ringOnToken_cases state ok
    rw [hforwarded, heq]
    exact ⟨h.request, h.accept, h.ack⟩

theorem handleCliIfReady_stamped (h : Stamped good state) (record : Token) :
    Stamped good (handleCliIfReady state record).1 := by
  unfold handleCliIfReady
  split
  · exact h
  · exact ⟨h.request, h.accept, h.ack⟩

theorem Stamped.of_result {out : List Effect} {result : RingState × List Effect}
    (h : Stamped good result.1) (heq : some result = some (state', out)) :
    Stamped good state' := by
  rw [Option.some.inj heq] at h
  exact h

/-- A handler stores 0 or the time it reads. -/
theorem Event.handle_stamped {out : List Effect} {event : Event} (hzero : good 0)
    (hclock : ∀ now, event.clock = some now → good now) (h : Stamped good state)
    (hhandle : event.handle state = some (state', out)) : Stamped good state' := by
  cases event with
  | joinFsmRequestTick now sent => exact joinFsmRequestTick_stamped h (hclock now rfl) hhandle
  | joinAckSenderTick now ok =>
      exact (joinAckSenderTick_stamped h (hclock now rfl)).of_result hhandle
  | pruneJoins now =>
      cases hhandle
      exact ⟨h.request, h.accept, h.ack⟩
  | joinFsmInflightTick now ok =>
      exact (joinFsmInflightTick_stamped h (hclock now rfl)).of_result hhandle
  | unicastMessage msg now ok =>
      apply Stamped.of_result _ hhandle
      cases msg with
      | token token => exact handleTokenUnicast_stamped h token
      | joinAccept accept => exact handleJoinAcceptU_stamped hzero h (hclock now rfl) accept
      | joinAck requestId fromName => exact handleJoinAckU_stamped h requestId fromName
      | joinAckAck requestId toName => exact handleJoinAckAckU_stamped h requestId toName
      | malformed => exact h
  | joinFsmMaybeComplete morePending => exact (joinFsmTryComplete_stamped h).of_result hhandle
  | broadcastMessage msg ip now =>
      cases hhandle
      exact handleBroadcast_stamped h msg ip
  | cliRecord record => exact (handleCliIfReady_stamped h record).of_result hhandle
  | handleTokenIfReady now ok =>
      exact (handleTokenIfReady_stamped hzero h (hclock now rfl)).of_result hhandle
  | selectFailed | unicastFailed | broadcastFailed | cliFailed => cases hhandle
  | selectReady | selectInterrupted | unicastIdle | broadcastIdle | cliIdle =>
      cases hhandle
      exact h

end Handlers

/-- In every run in which the clock has shown no time after `now`, the stored
timestamps have passed. -/
theorem stampsPassed_reachable {config : RouteConfig} {joined shouldStart : Bool}
    {requestId : UInt32} {node : Node} {now : Int} (hnow : 0 ≤ now)
    (h : Lts.Reaches Node.next
      (fun _ event => ∀ time, event.clock = some time → 0 ≤ time ∧ time ≤ now)
      (Node.start config joined shouldStart requestId) node) :
    StampsPassed node.state now := by
  have hzero : (0 : Int) ≤ 0 ∧ (0 : Int) ≤ now := ⟨le_rfl, hnow⟩
  apply h.invariant (fun node => StampsPassed node.state now)
  · obtain ⟨tokenIn, _, hstart⟩ := Node.start_state config joined shouldStart requestId
    rw [hstart]
    exact ⟨hzero, hzero, hzero⟩
  · intro before event after hbefore hclock hnext
    obtain ⟨result, hstep, rfl⟩ := Option.map_eq_some_iff.mp hnext
    rcases Node.step_cases hstep with hhandle | ⟨_, hsame, _⟩
    · exact Event.handle_stamped hzero hclock hbefore hhandle
    · rw [hsame]
      exact hbefore

end TokenRing
