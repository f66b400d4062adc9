import TokenRing.EventLoop

/-!
Everything a handler call can do to a node, as one relation. The constructors
keep what invariants need: which fields change, to what, and which effects
come with it. Values that only steer timers are left open.
-/

namespace TokenRing

/-- The answers of `handle_join_ack_u`: acknowledgements of acknowledgements. -/
def OnlyAckAcks (out : List Effect) : Prop :=
  ∀ effect ∈ out, ∃ dst requestId toName ok,
    effect = .unicast dst (.joinAckAck requestId toName) ok

theorem onlyAckAcks_nil : OnlyAckAcks [] := by
  intro effect member
  cases member

theorem onlyAckAcks_ackAckSends (state : RingState) (requestId : UInt32)
    (fromName : NodeName) (ok : Nat → Bool) :
    OnlyAckAcks (ackAckSends state requestId fromName ok) := by
  intro effect member
  obtain ⟨port, k, _, rfl⟩ := mem_ackAckSends member
  exact ⟨_, _, _, _, rfl⟩

/-- The event hands a token to the node. -/
def Event.isToken : Event → Bool
  | .unicastMessage (.token _) _ _ => true
  | _ => false

inductive Transition (state : RingState) : Event → RingState → List Effect → Prop where
  | idle (event : Event) (hevent : event.isToken = false) : Transition state event state []
  | requestSent (now : Int) (retries : Nat) (hunjoined : state.joined = false) :
      Transition state (.joinFsmRequestTick now true)
        { state with joinRequestLastSent := now, joinRequestRetries := retries }
        [.broadcast (.joinRequest ⟨state.joinRequestId, state.config.current.nodeName,
          state.config.current.unicastPort⟩)]
  | queueShrunk (event : Event) (hevent : event.isToken = false) (joinState : JoinState)
      (hshrinks : JoinState.Shrinks state.joinState joinState) :
      Transition state event { state with joinState := joinState } []
  | senderChanged (event : Event) (hevent : event.isToken = false) (sender : JoinAckSender)
      (hsender : state.ackSender.Wanes sender) :
      Transition state event { state with ackSender := sender } []
  | ackSent (now : Int) (ok : Nat → Bool) (sender : JoinAckSender)
      (hactive : state.ackSender.active = true) (hgot : state.ackSender.gotAckAck = false)
      (hretries : state.ackSender.retries < joinAckMaxRetries)
      (hsender : state.ackSender.Wanes sender) :
      Transition state (.joinAckSenderTick now ok) { state with ackSender := sender }
        [.unicast ⟨state.ackSender.coordName, state.ackSender.coordUnicastPort⟩
          (.joinAck state.ackSender.requestId state.config.current.nodeName) (ok 0)]
  | acceptsSent (now : Int) (ok : Nat → Bool) (retries : Nat)
      (hactive : state.joinInflight.active = true) :
      Transition state (.joinFsmInflightTick now ok)
        { state with
          joinInflight := { state.joinInflight with lastSent := now, retries := retries } }
        (inflightSends state ok)
  /- The join completes in a state that differs from the one before the event
  by recorded confirmations only. -/
  | completed (event : Event) (hevent : event.isToken = false) (mid : RingState)
      (answers : List Effect)
      (hactive : state.joinInflight.active = true)
      (hmid : mid = state ∨ ∃ fromName now ok,
        event = .unicastMessage (.joinAck state.joinInflight.requestId fromName) now ok ∧
        mid = recordConfirm state fromName)
      (hprev : mid.joinInflight.gotConfirmPrev = true)
      (hjoiner : mid.joinInflight.gotConfirmJoiner = true) (hanswers : OnlyAckAcks answers) :
      Transition state event (joinFsmComplete mid).1 ((joinFsmComplete mid).2 ++ answers)
  | ackAnswered (requestId : UInt32) (fromName : NodeName) (now : Int) (ok : Nat → Bool)
      (answers : List Effect) (hanswers : OnlyAckAcks answers) :
      Transition state (.unicastMessage (.joinAck requestId fromName) now ok) state answers
  | confirmed (fromName : NodeName) (now : Int) (ok : Nat → Bool) (answers : List Effect)
      (hactive : state.joinInflight.active = true) (hanswers : OnlyAckAcks answers) :
      Transition state
        (.unicastMessage (.joinAck state.joinInflight.requestId fromName) now ok)
        (recordConfirm state fromName) answers
  | tokenStored (token : Token) (now : Int) (ok : Nat → Bool)
      (hunjoined : state.joined = false) :
      Transition state (.unicastMessage (.token token) now ok)
        { state with tokenIn := token } []
  | tokenTaken (token : Token) (now : Int) (ok : Nat → Bool) (joinState : JoinState)
      (hjoined : state.joined = true)
      (hshrinks : JoinState.Shrinks state.joinState joinState)
      (hempty : ¬ token.topoVersion ≤ state.lastSeenTopoVersion →
        JoinState.CountExact state.joinState → ∀ i, joinState.joins i = none) :
      Transition state (.unicastMessage (.token token) now ok)
        { state with
          tokenIn := token
          joinState := joinState
          lastSeenTopoVersion :=
            if token.topoVersion ≤ state.lastSeenTopoVersion then state.lastSeenTopoVersion
            else token.topoVersion
          haveToken := true } []
  | acceptJoined (accept : JoinAccept) (now : Int) (ok : Nat → Bool) (joinState : JoinState)
      (sentAt : Option Int) (hshrinks : JoinState.Shrinks state.joinState joinState)
      (hself : state.config.current.nodeName = accept.newName)
      (hunjoined : state.joined = false) (hid : accept.requestId = state.joinRequestId) :
      Transition state (.unicastMessage (.joinAccept accept) now ok)
        { state with
          joinState := joinState
          config :=
            { state.config with
              prev := ⟨accept.prevName, accept.prevUnicastPort⟩
              next := ⟨accept.beforeName, accept.beforeUnicastPort⟩ }
          joined := true
          joinRequestLastSent := 0
          joinRequestRetries := 0
          ackSender := JoinAckSender.start accept sentAt }
        [.unicast ⟨accept.beforeName, accept.beforeUnicastPort⟩
          (.joinAck accept.requestId state.config.current.nodeName) (ok 0)]
  | acceptLinked (accept : JoinAccept) (now : Int) (ok : Nat → Bool) (joinState : JoinState)
      (sentAt : Option Int) (hshrinks : JoinState.Shrinks state.joinState joinState)
      (hother : state.config.current.nodeName ≠ accept.newName)
      (hself : state.config.current.nodeName = accept.prevName)
      (hnext : state.config.next.nodeName = accept.beforeName) :
      Transition state (.unicastMessage (.joinAccept accept) now ok)
        { state with
          joinState := joinState
          config := { state.config with next := ⟨accept.newName, accept.newUnicastPort⟩ }
          joined := true
          ackSender := JoinAckSender.start accept sentAt }
        [.unicast ⟨accept.beforeName, accept.beforeUnicastPort⟩
          (.joinAck accept.requestId state.config.current.nodeName) (ok 0)]
  | enqueued (request : JoinRequest) (ip : UInt32) (now : Int) (joinState : JoinState)
      (hother : request.nodeName ≠ state.config.current.nodeName)
      (hjoiner : ¬ (state.joinInflight.active = true ∧
        state.joinInflight.joiner.nodeName = request.nodeName))
      (hcompleted : state.joinState.isCompleted request.nodeName = false)
      (hadd : state.joinState.addPendingJoin request ip now = some joinState) :
      Transition state (.broadcastMessage (.joinRequest request) ip now)
        { state with joinState := joinState } []
  | commitSeen (requestId : UInt32) (newName : NodeName) (topoVersion ip : UInt32) (now : Int)
      (joinState : JoinState) (sender : JoinAckSender)
      (hshrinks : JoinState.Shrinks state.joinState joinState)
      (hempty : topoVersion > state.lastSeenTopoVersion →
        JoinState.CountExact state.joinState → ∀ i, joinState.joins i = none)
      (hsender : state.ackSender.Wanes sender)
      (hmatch : ¬ (state.joinInflight.active = true ∧
        state.joinInflight.requestId = requestId)) :
      Transition state (.broadcastMessage (.joinCommit requestId newName topoVersion) ip now)
        { state with
          joinState := joinState
          ackSender := sender
          lastSeenTopoVersion :=
            if topoVersion > state.lastSeenTopoVersion then topoVersion
            else state.lastSeenTopoVersion } []
  | commitCompleted (newName : NodeName) (topoVersion ip : UInt32) (now : Int)
      (joinState : JoinState) (sender : JoinAckSender)
      (hshrinks : JoinState.Shrinks state.joinState joinState)
      (hempty : topoVersion > state.lastSeenTopoVersion →
        JoinState.CountExact state.joinState → ∀ i, joinState.joins i = none)
      (hsender : state.ackSender.Wanes sender)
      (hactive : state.joinInflight.active = true) :
      Transition state
        (.broadcastMessage (.joinCommit state.joinInflight.requestId newName topoVersion) ip now)
        { state with
          joinState := joinState
          ackSender := sender
          config := { state.config with prev := state.joinInflight.joiner.route }
          joinInflight := state.joinInflight.finish
          lastSeenTopoVersion :=
            if topoVersion > state.lastSeenTopoVersion then topoVersion
            else state.lastSeenTopoVersion
          tokenIn :=
            { state.tokenIn with
              topoVersion :=
                if topoVersion > state.lastSeenTopoVersion then topoVersion
                else state.lastSeenTopoVersion } } []
  | recordRead (record : Token) (hempty : state.tokenIn.isEmpty = true) :
      Transition state (.cliRecord record)
        { state with cliPending := record, haveCliPending := true } [.cliRead record]
  | joinStarted (now : Int) (ok : Nat → Bool) (pending : PendingJoin) (joinState : JoinState)
      (hjoined : state.joined = true) (htoken : state.haveToken = true)
      (hidle : state.joinInflight.active = false)
      (hpop : state.joinState.popOldestPendingJoin = some (pending, joinState)) :
      Transition state (.handleTokenIfReady now ok)
        { state with
          joinState := joinState
          joinInflight :=
            { (joinFsmStartInflight state pending).joinInflight with
              lastSent := now, retries := 1 } }
        (inflightSends (joinFsmStartInflight state pending) ok)
  | forwarded (now : Int) (ok : Nat → Bool) (hjoined : state.joined = true)
      (htoken : state.haveToken = true) (hidle : state.joinInflight.active = false)
      (hcount : ¬ state.joinState.count > 0) :
      Transition state (.handleTokenIfReady now ok) (ringOnToken state ok).1
        (ringOnToken state ok).2

section Handlers

variable {state state' : RingState} {out : List Effect}

/-- Rewrites the result of a call into the two arguments of the relation. -/
theorem Transition.of_result {event : Event} {result : RingState × List Effect}
    (h : Transition state event result.1 result.2) (heq : some result = some (state', out)) :
    Transition state event state' out := by
  rw [Option.some.inj heq] at h
  exact h

theorem joinFsmRequestTick_transition (now : Int) (sent : Bool)
    (h : joinFsmRequestTick state now sent = some (state', out)) :
    Transition state (.joinFsmRequestTick now sent) state' out := by
  unfold joinFsmRequestTick at h
  split at h
  · cases h
    exact .idle _ rfl
  · rename_i hunjoined
    split at h
    · cases h
      exact .idle _ rfl
    · split at h
      · cases h
      · cases sent with
        | false => cases h
        | true =>
            cases h
            exact .requestSent now _ (by simpa using hunjoined)

theorem joinAckSenderTick_transition (now : Int) (ok : Nat → Bool) :
    Transition state (.joinAckSenderTick now ok) (joinAckSenderTick state now ok).1
      (joinAckSenderTick state now ok).2 := by
  rcases joinAckSenderTick_cases state now ok with
    hsame | ⟨hactive, hstop⟩ | ⟨hactive, hgot, hretries, hsent⟩
  · rw [hsame]
    exact .idle _ rfl
  · rw [hstop]
    exact .senderChanged _ rfl _ ⟨by simp, rfl, rfl, rfl, id, le_rfl⟩
  · rw [hsent]
    exact .ackSent now ok _ hactive hgot hretries ⟨id, rfl, rfl, rfl, id, Nat.le_succ _⟩

theorem joinFsmTryComplete_transition (event : Event) (hevent : event.isToken = false) :
    Transition state event (joinFsmTryComplete state).1 (joinFsmTryComplete state).2 := by
  rcases joinFsmTryComplete_cases state with hsame | ⟨hactive, hprev, hjoiner, hdone⟩
  · rw [hsame]
    exact .idle _ hevent
  · rw [hdone]
    have hcompleted := Transition.completed event hevent state [] hactive (.inl rfl) hprev hjoiner
      onlyAckAcks_nil
    simpa using hcompleted

theorem joinFsmInflightTick_transition (now : Int) (ok : Nat → Bool) :
    Transition state (.joinFsmInflightTick now ok) (joinFsmInflightTick state now ok).1
      (joinFsmInflightTick state now ok).2 := by
  rcases joinFsmInflightTick_cases state now ok with
    hsame | ⟨hactive, hprev, hjoiner, hdone⟩ | ⟨hactive, retries, hsent⟩
  · rw [hsame]
    exact .idle _ rfl
  · have htry : Transition state (.joinFsmInflightTick now ok) (joinFsmTryComplete state).1
        (joinFsmTryComplete state).2 := joinFsmTryComplete_transition _ rfl
    rwa [joinFsmTryComplete_of_confirmed hactive hprev hjoiner, ← hdone] at htry
  · rw [hsent]
    exact .acceptsSent now ok retries hactive

theorem handleTokenUnicast_transition (token : Token) (now : Int) (ok : Nat → Bool) :
    Transition state (.unicastMessage (.token token) now ok) (handleTokenUnicast state token)
      [] := by
  cases hjoined : state.joined with
  | false =>
      rw [handleTokenUnicast_not_joined hjoined]
      exact .tokenStored token now ok hjoined
  | true =>
      obtain ⟨joinState, hshrinks, heq, hempty⟩ := handleTokenUnicast_joined hjoined token
      rw [heq]
      exact .tokenTaken token now ok joinState hjoined hshrinks hempty

theorem handleJoinAcceptU_transition (accept : JoinAccept) (now : Int) (ok : Nat → Bool) :
    Transition state (.unicastMessage (.joinAccept accept) now ok)
      (handleJoinAcceptU state accept now ok).1 (handleJoinAcceptU state accept now ok).2 := by
  obtain ⟨joinState, sentAt, hshrinks, hsame | ⟨hself, hunjoined, hid, htaken⟩ |
    ⟨hother, hself, hnext, htaken⟩⟩ := handleJoinAcceptU_cases state accept now ok
  · rw [hsame]
    exact .queueShrunk _ rfl joinState hshrinks
  · rw [htaken]
    exact .acceptJoined accept now ok joinState sentAt hshrinks hself hunjoined hid
  · rw [htaken]
    exact .acceptLinked accept now ok joinState sentAt hshrinks hother hself hnext

theorem handleJoinAckU_transition (requestId : UInt32) (fromName : NodeName) (now : Int)
    (ok : Nat → Bool) :
    Transition state (.unicastMessage (.joinAck requestId fromName) now ok)
      (handleJoinAckU state requestId fromName ok).1
      (handleJoinAckU state requestId fromName ok).2 := by
  obtain ⟨after, out, heq, hcase⟩ := handleJoinAckU_cases state requestId fromName ok
  have hanswers := onlyAckAcks_ackAckSends after requestId fromName ok
  rw [heq]
  rcases hcase with ⟨rfl, rfl, _⟩ | ⟨hactive, rfl, htry⟩
  · exact .ackAnswered requestId fromName now ok _ hanswers
  · rcases joinFsmTryComplete_cases (recordConfirm state fromName) with
      hsame | ⟨_, hprev, hjoiner, hdone⟩
    · rw [hsame] at htry
      cases htry
      exact .confirmed fromName now ok _ hactive hanswers
    · rw [hdone] at htry
      cases htry
      exact .completed _ rfl _ _ hactive (.inr ⟨fromName, now, ok, rfl, rfl⟩) hprev hjoiner hanswers

theorem handleJoinAckAckU_transition (requestId : UInt32) (toName : NodeName) (now : Int)
    (ok : Nat → Bool) :
    Transition state (.unicastMessage (.joinAckAck requestId toName) now ok)
      (handleJoinAckAckU state requestId toName) [] := by
  unfold handleJoinAckAckU
  split
  · exact .idle _ rfl
  · split
    · rename_i hmatch
      exact .senderChanged _ rfl _ ⟨id, rfl, rfl, rfl, by simp, le_rfl⟩
    · exact .idle _ rfl

theorem unicastDispatchMessage_transition (msg : UnicastMsg) (now : Int) (ok : Nat → Bool) :
    Transition state (.unicastMessage msg now ok) (unicastDispatchMessage state msg now ok).1
      (unicastDispatchMessage state msg now ok).2 := by
  cases msg with
  | token token => exact handleTokenUnicast_transition token now ok
  | joinAccept accept => exact handleJoinAcceptU_transition accept now ok
  | joinAck requestId fromName => exact handleJoinAckU_transition requestId fromName now ok
  | joinAckAck requestId toName => exact handleJoinAckAckU_transition requestId toName now ok
  | malformed => exact .idle _ rfl

theorem handleBroadcast_transition (msg : BroadcastMsg) (ip : UInt32) (now : Int) :
    Transition state (.broadcastMessage msg ip now) (handleBroadcast state msg ip now) [] := by
  cases msg with
  | joinRequest request =>
      change Transition state _ (handleJoinRequest state request ip now) []
      rcases handleJoinRequest_cases state request ip now with
        hsame | ⟨joinState, hother, hjoiner, hcompleted, hadd, htaken⟩
      · rw [hsame]
        exact .idle _ rfl
      · rw [htaken]
        exact .enqueued request ip now joinState hother hjoiner hcompleted hadd
  | joinCommit requestId newName topoVersion =>
      change Transition state _ (handleJoinCommit state requestId newName topoVersion) []
      obtain ⟨joinState, sender, hshrinks, hempty, hsender, hcase⟩ :=
        handleJoinCommit_cases state requestId newName topoVersion
      rcases hcase with ⟨hmatch, hsame⟩ | ⟨hinflight, rfl, hdone⟩
      · rw [hsame]
        exact .commitSeen _ _ _ _ _ joinState sender hshrinks hempty hsender hmatch
      · rw [hdone]
        exact .commitCompleted _ _ _ _ joinState sender hshrinks hempty hsender hinflight
  | malformed => exact .idle _ rfl

theorem handleTokenIfReady_transition (now : Int) (ok : Nat → Bool) :
    Transition state (.handleTokenIfReady now ok) (handleTokenIfReady state now ok).1
      (handleTokenIfReady state now ok).2 := by
  rcases handleTokenIfReady_cases state now ok with hsame |
    ⟨hjoined, htoken, hidle, pending, joinState, hpop, hstart⟩ |
    ⟨hjoined, htoken, hidle, hcount, hforward⟩
  · rw [hsame]
    exact .idle _ rfl
  · -- a join that has just started has sent nothing, so its first tick sends
    have htick : joinFsmInflightTick
        (joinFsmStartInflight { state with joinState := joinState } pending) now ok =
        ({ state with
            joinState := joinState
            joinInflight :=
              { (joinFsmStartInflight state pending).joinInflight with
                lastSent := now, retries := 1 } },
          inflightSends (joinFsmStartInflight state pending) ok) := by
      simp [joinFsmInflightTick, joinFsmStartInflight, joinAcceptRetries, inflightSends,
        buildJoinAcceptHost]
    rw [hstart, htick]
    exact .joinStarted now ok pending joinState hjoined htoken hidle hpop
  · rw [hforward]
    exact .forwarded now ok hjoined htoken hidle hcount

end Handlers

/-- Every handler call is one of the transitions. -/
theorem Event.handle_transition {state state' : RingState} {out : List Effect} (event : Event)
    (h : event.handle state = some (state', out)) : Transition state event state' out := by
  cases event with
  | joinFsmRequestTick now sent => exact joinFsmRequestTick_transition now sent h
  | joinAckSenderTick now ok => exact (joinAckSenderTick_transition now ok).of_result h
  | pruneJoins now =>
      cases h
      exact .queueShrunk _ rfl _ (JoinState.pruneJoins_shrinks _ _ _)
  | joinFsmInflightTick now ok => exact (joinFsmInflightTick_transition now ok).of_result h
  | unicastMessage msg now ok => exact (unicastDispatchMessage_transition msg now ok).of_result h
  | joinFsmMaybeComplete morePending => exact (joinFsmTryComplete_transition _ rfl).of_result h
  | broadcastMessage msg ip now =>
      cases h
      exact handleBroadcast_transition msg ip now
  | cliRecord record =>
      simp only [Event.handle, handleCliIfReady] at h
      split at h
      · cases h
        exact .idle _ rfl
      · rename_i hempty
        cases h
        exact .recordRead record (by simpa using hempty)
  | handleTokenIfReady now ok => exact (handleTokenIfReady_transition now ok).of_result h
  | selectFailed | unicastFailed | broadcastFailed | cliFailed => cases h
  | selectReady | selectInterrupted | unicastIdle | broadcastIdle | cliIdle =>
      cases h
      exact .idle _ rfl

/-- Every handler call keeps the counter of the queue exact. -/
theorem Transition.countExact {state state' : RingState} {event : Event} {out : List Effect}
    (h : Transition state event state' out)
    (hcount : JoinState.CountExact state.joinState) :
    JoinState.CountExact state'.joinState := by
  cases h with
  | queueShrunk event hevent joinState hshrinks => exact hshrinks.countExact hcount
  | completed event hevent mid answers hactive hmid hprev hgot hanswers =>
      rcases hmid with rfl | ⟨_, _, _, _, rfl⟩ <;>
        exact (complete_queue_shrinks _ _).countExact hcount
  | tokenTaken token now ok joinState hjoined hshrinks hempty => exact hshrinks.countExact hcount
  | acceptJoined accept now ok joinState sentAt hshrinks hself hunjoined hid =>
      exact hshrinks.countExact hcount
  | acceptLinked accept now ok joinState sentAt hshrinks hother hself hnext =>
      exact hshrinks.countExact hcount
  | enqueued request ip now joinState hother hjoiner hcompleted hadd =>
      exact JoinState.countExact_addPendingJoin hcount hadd
  | commitSeen requestId newName topoVersion ip now joinState sender hshrinks hempty hsender
      hmatch =>
      exact hshrinks.countExact hcount
  | commitCompleted newName topoVersion ip now joinState sender hshrinks hempty hsender hactive =>
      exact hshrinks.countExact hcount
  | joinStarted now ok started joinState hjoined htoken hidle hpop =>
      exact (JoinState.popOldestPendingJoin_shrinks hpop).countExact hcount
  | forwarded now ok hjoined htoken hidle hcount' =>
      obtain ⟨_, _, _, _, _, _, heq⟩ := ringOnToken_cases state ok
      rw [heq]
      exact hcount
  | _ => exact hcount

end TokenRing
