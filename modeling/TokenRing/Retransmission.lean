import TokenRing.CompletedQueue
import TokenRing.Lib.Pacing
import TokenRing.Timestamps

/-!
The three retransmissions of a node over whole runs: its requests, the accepts of
the join in flight and its acknowledgements. Each keeps the time of its last
transmission in the state, and only its own tick and the event that starts it
write there.
-/

namespace TokenRing

/-- The events of a run, each with its effects. -/
abbrev NodeLog := List (Event × List Effect)

def Node.entryStep (node : Node) (event : Event) : Option (Node × NodeLog) :=
  (node.step event).map (fun result => (result.1, [(event, result.2)]))

def Effect.isJoinRequest : Effect → Bool
  | .broadcast (.joinRequest _) => true
  | _ => false

def Effect.isJoinAccept : Effect → Bool
  | .unicast _ (.joinAccept _) _ => true
  | _ => false

def Effect.isJoinAck : Effect → Bool
  | .unicast _ (.joinAck _ _) _ => true
  | _ => false

/-- The times of the events that sent such a message. -/
def sendTimes (kind : Effect → Bool) (log : NodeLog) : List Int :=
  log.flatMap (fun entry => if entry.2.any kind then entry.1.clock.toList else [])

/-- What the retransmissions read and write. -/
structure RingState.SameTimers (state state' : RingState) : Prop where
  joined : state'.joined = state.joined
  requestSent : state'.joinRequestLastSent = state.joinRequestLastSent
  requestRetries : state'.joinRequestRetries = state.joinRequestRetries
  acceptSent : state'.joinInflight.lastSent = state.joinInflight.lastSent
  ackSent : state'.ackSender.lastSent = state.ackSender.lastSent
  ackRetries : state'.ackSender.retries = state.ackSender.retries

/-- None of the three messages is sent. -/
def NoneRetransmitted (out : List Effect) : Prop :=
  out.any Effect.isJoinRequest = false ∧ out.any Effect.isJoinAccept = false ∧
    out.any Effect.isJoinAck = false

/-- The accept is one that the node applies. -/
def Event.appliesAccept (state : RingState) : Event → Bool
  | .unicastMessage (.joinAccept accept) _ _ => (applyAcceptIfRelevant state accept).1
  | _ => false

/-- What a handler call does to the timers. -/
inductive TimerChange (state : RingState) (event : Event) (state' : RingState)
    (out : List Effect) : Prop where
  | same (hsame : state.SameTimers state') (hquiet : NoneRetransmitted out)
  | request (now : Int) (hclock : event.clock = some now) (hunjoined : state.joined = false)
      (hdue : Pacing.Due joinRequestTimeoutS state.joinRequestLastSent now)
      (hfew : state.joinRequestRetries < joinRequestRetries)
      (hstate : state' = { state with
        joinRequestLastSent := now, joinRequestRetries := state.joinRequestRetries + 1 })
      (hout : out = [.broadcast (.joinRequest ⟨state.joinRequestId,
        state.config.current.nodeName, state.config.current.unicastPort⟩)])
  | accepts (now : Int) (ok : Nat → Bool) (retries : Nat) (hclock : event.clock = some now)
      (hdue : Pacing.Due joinAcceptTimeoutS state.joinInflight.lastSent now)
      (hmissing : (state.joinInflight.gotConfirmPrev &&
        state.joinInflight.gotConfirmJoiner) = false)
      (hstate : state' = { state with
        joinInflight := { state.joinInflight with lastSent := now, retries := retries } })
      (hout : out = inflightSends state ok)
  | ack (now : Int) (ok : Nat → Bool) (hclock : event.clock = some now)
      (hdue : Pacing.Due joinAckResendS state.ackSender.lastSent now)
      (hfew : state.ackSender.retries < joinAckMaxRetries)
      (hstate : state' = { state with
        ackSender :=
          { state.ackSender with lastSent := now, retries := state.ackSender.retries + 1 } })
      (hout : out = [.unicast ⟨state.ackSender.coordName, state.ackSender.coordUnicastPort⟩
        (.joinAck state.ackSender.requestId state.config.current.nodeName) (ok 0)])
  | applied (accept : JoinAccept) (now : Int) (ok : Nat → Bool)
      (hevent : event = .unicastMessage (.joinAccept accept) now ok)
      (happlies : event.appliesAccept state = true) (hjoined : state'.joined = true)
      (hinflight : state'.joinInflight = state.joinInflight)
      (hsender : state'.ackSender = JoinAckSender.start accept (if ok 0 then some now else none))
      (hout : ∃ dst fromName, out = [.unicast dst (.joinAck accept.requestId fromName) (ok 0)])
  | started (now : Int) (ok : Nat → Bool) (pending : PendingJoin) (joinState : JoinState)
      (hevent : event = .handleTokenIfReady now ok)
      (hidle : state.joinInflight.active = false)
      (hstate : state' = { state with
        joinState := joinState
        joinInflight := { (joinFsmStartInflight state pending).joinInflight with
          lastSent := now, retries := 1 } })
      (hout : out = inflightSends (joinFsmStartInflight state pending) ok)

section Handlers

variable {state state' : RingState} {event : Event} {out : List Effect} {now : Int}
  {ok : Nat → Bool}

theorem RingState.SameTimers.refl (state : RingState) : state.SameTimers state :=
  ⟨rfl, rfl, rfl, rfl, rfl, rfl⟩

theorem RingState.SameTimers.trans {state'' : RingState} (h : state.SameTimers state')
    (hmore : state'.SameTimers state'') : state.SameTimers state'' :=
  ⟨hmore.joined.trans h.joined, hmore.requestSent.trans h.requestSent,
    hmore.requestRetries.trans h.requestRetries, hmore.acceptSent.trans h.acceptSent,
    hmore.ackSent.trans h.ackSent, hmore.ackRetries.trans h.ackRetries⟩

theorem noneRetransmitted_nil : NoneRetransmitted [] := ⟨rfl, rfl, rfl⟩

theorem OnlyAckAcks.noneRetransmitted (h : OnlyAckAcks out) : NoneRetransmitted out := by
  refine ⟨?_, ?_, ?_⟩
  all_goals
    apply List.any_eq_false.mpr
    intro effect hmem
    obtain ⟨_, _, _, _, rfl⟩ := h effect hmem
    exact Bool.noConfusion

theorem NoneRetransmitted.append {more : List Effect} (h : NoneRetransmitted out)
    (hmore : NoneRetransmitted more) : NoneRetransmitted (out ++ more) := by
  simp only [NoneRetransmitted, List.any_append, h.1, h.2.1, h.2.2, hmore.1, hmore.2.1,
    hmore.2.2, Bool.or_self, and_self]

theorem joinFsmTryComplete_timers (state : RingState) :
    state.SameTimers (joinFsmTryComplete state).1 ∧
      NoneRetransmitted (joinFsmTryComplete state).2 := by
  rcases joinFsmTryComplete_cases state with hsame | ⟨_, _, _, hdone⟩
  · rw [hsame]
    exact ⟨.refl state, noneRetransmitted_nil⟩
  · rw [hdone]
    exact ⟨⟨rfl, rfl, rfl, rfl, rfl, rfl⟩, rfl, rfl, rfl⟩

theorem handleJoinAckU_timers (state : RingState) (requestId : UInt32) (fromName : NodeName)
    (ok : Nat → Bool) :
    state.SameTimers (handleJoinAckU state requestId fromName ok).1 ∧
      NoneRetransmitted (handleJoinAckU state requestId fromName ok).2 := by
  obtain ⟨after, sent, heq, hcase⟩ := handleJoinAckU_cases state requestId fromName ok
  have hanswers := (onlyAckAcks_ackAckSends after requestId fromName ok).noneRetransmitted
  rw [heq]
  rcases hcase with ⟨rfl, rfl, _⟩ | ⟨_, _, htry⟩
  · exact ⟨.refl after, hanswers⟩
  · obtain ⟨hsame, hquiet⟩ := joinFsmTryComplete_timers (recordConfirm state fromName)
    rw [htry] at hsame hquiet
    exact ⟨⟨hsame.joined, hsame.requestSent, hsame.requestRetries, hsame.acceptSent,
      hsame.ackSent, hsame.ackRetries⟩, hquiet.append hanswers⟩

theorem handleTokenUnicast_timers (token : Token) :
    state.SameTimers (handleTokenUnicast state token) := by
  cases hjoined : state.joined with
  | false =>
      rw [handleTokenUnicast_not_joined hjoined]
      exact ⟨rfl, rfl, rfl, rfl, rfl, rfl⟩
  | true =>
      obtain ⟨joinState, _, heq, _⟩ := handleTokenUnicast_joined hjoined token
      rw [heq]
      exact ⟨rfl, rfl, rfl, rfl, rfl, rfl⟩

theorem handleJoinAckAckU_timers (requestId : UInt32) (toName : NodeName) :
    state.SameTimers (handleJoinAckAckU state requestId toName) := by
  unfold handleJoinAckAckU
  split
  · exact .refl state
  split
  · exact ⟨rfl, rfl, rfl, rfl, rfl, rfl⟩
  · exact .refl state

theorem handleJoinCommit_timers (requestId : UInt32) (newName : NodeName)
    (topoVersion : UInt32) :
    state.SameTimers (handleJoinCommit state requestId newName topoVersion) := by
  have hadvance : ∀ state : RingState, state.SameTimers (advanceTopology state topoVersion) := by
    intro state
    unfold advanceTopology
    split <;> exact ⟨rfl, rfl, rfl, rfl, rfl, rfl⟩
  have hcomplete : ∀ state : RingState, state.SameTimers (completeViaCommit state requestId) := by
    intro state
    unfold completeViaCommit
    split <;> exact ⟨rfl, rfl, rfl, rfl, rfl, rfl⟩
  have hstop : ∀ state : RingState, state.SameTimers (stopAckSender state requestId) := by
    intro state
    unfold stopAckSender
    split <;> exact ⟨rfl, rfl, rfl, rfl, rfl, rfl⟩
  have hmark : state.SameTimers { state with
      joinState := state.joinState.markCompletedAndPrunePending newName requestId } :=
    ⟨rfl, rfl, rfl, rfl, rfl, rfl⟩
  exact hmark.trans ((hadvance _).trans ((hcomplete _).trans (hstop _)))

theorem handleBroadcast_timers (msg : BroadcastMsg) (ip : UInt32) :
    state.SameTimers (handleBroadcast state msg ip now) := by
  cases msg with
  | joinRequest request =>
      rcases handleJoinRequest_cases state request ip now with hsame | ⟨_, _, _, _, _, htaken⟩
      · rw [handleBroadcast, hsame]
        exact .refl state
      · rw [handleBroadcast, htaken]
        exact ⟨rfl, rfl, rfl, rfl, rfl, rfl⟩
  | joinCommit requestId newName topoVersion =>
      exact handleJoinCommit_timers requestId newName topoVersion
  | malformed => exact .refl state

theorem ringOnToken_timers :
    state.SameTimers (ringOnToken state ok).1 ∧ NoneRetransmitted (ringOnToken state ok).2 := by
  obtain ⟨reports, sent, cliPending, haveCliPending, hreports, _, heq⟩ := ringOnToken_cases state ok
  have hquiet : NoneRetransmitted reports := by
    refine ⟨?_, ?_, ?_⟩
    all_goals
      apply List.any_eq_false.mpr
      intro effect hmem
      rcases hreports effect hmem with ⟨_, rfl⟩ | ⟨_, rfl⟩ <;> exact Bool.noConfusion
  rw [heq]
  exact ⟨⟨rfl, rfl, rfl, rfl, rfl, rfl⟩, hquiet.append ⟨rfl, rfl, rfl⟩⟩

theorem joinFsmRequestTick_timers {sent : Bool}
    (h : joinFsmRequestTick state now sent = some (state', out)) :
    TimerChange state (.joinFsmRequestTick now sent) state' out := by
  unfold joinFsmRequestTick at h
  split at h
  · cases h
    exact .same (.refl state) noneRetransmitted_nil
  · rename_i hunjoined
    split at h
    · cases h
      exact .same (.refl state) noneRetransmitted_nil
    · rename_i hdue
      split at h
      · cases h
      · rename_i hfew
        split at h
        · cases h
        · cases h
          refine .request now rfl (by simpa using hunjoined) ?_ (by omega) rfl rfl
          rcases not_and_or.mp hdue with hzero | hlater
          · exact .inl (not_not.mp hzero)
          · exact .inr (by omega)

theorem joinAckSenderTick_timers :
    TimerChange state (.joinAckSenderTick now ok) (joinAckSenderTick state now ok).1
      (joinAckSenderTick state now ok).2 := by
  unfold joinAckSenderTick
  split
  · exact .same (.refl state) noneRetransmitted_nil
  split
  · exact .same ⟨rfl, rfl, rfl, rfl, rfl, rfl⟩ noneRetransmitted_nil
  split
  · exact .same (.refl state) noneRetransmitted_nil
  · rename_i hdue
    split
    · exact .same ⟨rfl, rfl, rfl, rfl, rfl, rfl⟩ noneRetransmitted_nil
    · refine .ack now ok rfl ?_ (by omega) rfl rfl
      rcases not_and_or.mp hdue with hzero | hlater
      · exact .inl (not_not.mp hzero)
      · exact .inr (by omega)

theorem joinFsmInflightTick_timers :
    TimerChange state (.joinFsmInflightTick now ok) (joinFsmInflightTick state now ok).1
      (joinFsmInflightTick state now ok).2 := by
  unfold joinFsmInflightTick
  split
  · exact .same (.refl state) noneRetransmitted_nil
  split
  · obtain ⟨hsame, hquiet⟩ := joinFsmTryComplete_timers state
    exact .same hsame hquiet
  · rename_i hmissing
    split
    · exact .same (.refl state) noneRetransmitted_nil
    · rename_i hdue
      refine .accepts now ok _ rfl ?_ (by simpa using hmissing) rfl rfl
      rcases not_and_or.mp hdue with hzero | hlater
      · exact .inl (not_not.mp hzero)
      · exact .inr (by omega)

/-- The queue is no concern of `apply_accept_if_relevant`. -/
theorem applyAcceptIfRelevant_marked (state : RingState) (joinState : JoinState)
    (accept : JoinAccept) :
    (applyAcceptIfRelevant { state with joinState := joinState } accept).1 =
      (applyAcceptIfRelevant state accept).1 := by
  unfold applyAcceptIfRelevant
  by_cases hnew : state.config.current.nodeName = accept.newName
  · by_cases hjoined : state.joined = true
    · simp [hnew, hjoined]
    · by_cases hid : accept.requestId = state.joinRequestId <;> simp [hnew, hjoined, hid]
  · by_cases hprev : state.config.current.nodeName = accept.prevName
    · by_cases hnext : state.config.next.nodeName = accept.beforeName <;>
        simp [hprev, hprev ▸ hnew, hnext]
    · simp [hnew, hprev]

/-- An accept that is applied makes the node joined; another one changes
nothing. -/
theorem applyAcceptIfRelevant_timers (state : RingState) (accept : JoinAccept) :
    ((applyAcceptIfRelevant state accept).1 = false →
      (applyAcceptIfRelevant state accept).2 = state) ∧
    ((applyAcceptIfRelevant state accept).1 = true →
      (applyAcceptIfRelevant state accept).2.joined = true) ∧
    (applyAcceptIfRelevant state accept).2.joinInflight = state.joinInflight := by
  unfold applyAcceptIfRelevant
  split
  · split
    · exact ⟨fun _ => rfl, Bool.noConfusion, rfl⟩
    split
    · exact ⟨fun _ => rfl, Bool.noConfusion, rfl⟩
    · exact ⟨Bool.noConfusion, fun _ => rfl, rfl⟩
  split
  · split
    · exact ⟨fun _ => rfl, Bool.noConfusion, rfl⟩
    · exact ⟨Bool.noConfusion, fun _ => rfl, rfl⟩
  · exact ⟨fun _ => rfl, Bool.noConfusion, rfl⟩

theorem handleJoinAcceptU_eq (state : RingState) (accept : JoinAccept) (now : Int)
    (ok : Nat → Bool) :
    let applied := (applyAcceptIfRelevant { state with
      joinState := state.joinState.markCompletedAndPrunePending accept.newName
        accept.requestId } accept).2
    handleJoinAcceptU state accept now ok =
      if (applyAcceptIfRelevant state accept).1 then
        ({ applied with
            ackSender := JoinAckSender.start accept (if ok 0 then some now else none) },
          [.unicast ⟨accept.beforeName, accept.beforeUnicastPort⟩
            (.joinAck accept.requestId applied.config.current.nodeName) (ok 0)])
      else (applied, []) := by
  intro applied
  rw [← applyAcceptIfRelevant_marked state
    (state.joinState.markCompletedAndPrunePending accept.newName accept.requestId) accept]
  rfl

theorem handleJoinAcceptU_timers (accept : JoinAccept) :
    TimerChange state (.unicastMessage (.joinAccept accept) now ok)
      (handleJoinAcceptU state accept now ok).1 (handleJoinAcceptU state accept now ok).2 := by
  have hsame := applyAcceptIfRelevant_marked state
    (state.joinState.markCompletedAndPrunePending accept.newName accept.requestId) accept
  obtain ⟨hrefused, hjoined, hinflight⟩ := applyAcceptIfRelevant_timers { state with
    joinState := state.joinState.markCompletedAndPrunePending accept.newName
      accept.requestId } accept
  rw [handleJoinAcceptU_eq]
  cases happlies : (applyAcceptIfRelevant state accept).1 with
  | true =>
      exact .applied accept now ok rfl happlies (hjoined (hsame.trans happlies)) hinflight rfl
        ⟨_, _, rfl⟩
  | false =>
      simp only [Bool.false_eq_true, if_false, hrefused (hsame.trans happlies)]
      exact .same ⟨rfl, rfl, rfl, rfl, rfl, rfl⟩ noneRetransmitted_nil

/-- An accept that is applied starts the acknowledgements anew. -/
theorem handleJoinAcceptU_starts {accept : JoinAccept}
    (happlies : (applyAcceptIfRelevant state accept).1 = true) :
    (handleJoinAcceptU state accept now ok).1.ackSender =
      JoinAckSender.start accept (if ok 0 then some now else none) := by
  rw [handleJoinAcceptU_eq, happlies]
  rfl

theorem handleTokenIfReady_timers :
    TimerChange state (.handleTokenIfReady now ok) (handleTokenIfReady state now ok).1
      (handleTokenIfReady state now ok).2 := by
  rcases handleTokenIfReady_cases state now ok with
    hsame | ⟨_, _, hidle, pending, joinState, _, hstarted⟩ | ⟨_, _, _, _, hforwarded⟩
  · rw [hsame]
    exact .same (.refl state) noneRetransmitted_nil
  · rw [hstarted]
    refine .started now ok pending joinState rfl hidle ?_ ?_
    · simp [joinFsmInflightTick, joinFsmStartInflight, joinAcceptRetries]
    · simp [joinFsmInflightTick, joinFsmStartInflight, inflightSends, buildJoinAcceptHost]
  · rw [hforwarded]
    exact .same ringOnToken_timers.1 ringOnToken_timers.2

/-- A join that is started sends its first accepts at once. -/
theorem handleTokenIfReady_starts (hidle : state.joinInflight.active = false)
    (hstarts : (handleTokenIfReady state now ok).1.joinInflight.active = true) :
    (handleTokenIfReady state now ok).1.joinInflight.lastSent = now := by
  rcases handleTokenIfReady_cases state now ok with
    hsame | ⟨_, _, _, pending, joinState, _, hstarted⟩ | ⟨_, _, _, _, hforwarded⟩
  · rw [hsame, hidle] at hstarts
    cases hstarts
  · rw [hstarted]
    simp [joinFsmInflightTick, joinFsmStartInflight]
  · obtain ⟨_, _, _, _, _, _, heq⟩ := ringOnToken_cases state ok
    rw [hforwarded, heq, hidle] at hstarts
    cases hstarts

theorem TimerChange.of_result {result : RingState × List Effect}
    (h : TimerChange state event result.1 result.2) (heq : some result = some (state', out)) :
    TimerChange state event state' out := by
  rw [Option.some.inj heq] at h
  exact h

/-- Every handler call. -/
theorem Event.handle_timers (event : Event) (h : event.handle state = some (state', out)) :
    TimerChange state event state' out := by
  cases event with
  | joinFsmRequestTick now sent => exact joinFsmRequestTick_timers h
  | joinAckSenderTick now ok => exact joinAckSenderTick_timers.of_result h
  | joinFsmInflightTick now ok => exact joinFsmInflightTick_timers.of_result h
  | handleTokenIfReady now ok => exact handleTokenIfReady_timers.of_result h
  | unicastMessage msg now ok =>
      cases msg with
      | token token =>
          cases h
          exact .same (handleTokenUnicast_timers token) noneRetransmitted_nil
      | joinAccept accept => exact (handleJoinAcceptU_timers accept).of_result h
      | joinAck requestId fromName =>
          obtain ⟨hsame, hquiet⟩ := handleJoinAckU_timers state requestId fromName ok
          exact TimerChange.of_result (.same hsame hquiet) h
      | joinAckAck requestId toName =>
          cases h
          exact .same (handleJoinAckAckU_timers requestId toName) noneRetransmitted_nil
      | malformed =>
          cases h
          exact .same (.refl state) noneRetransmitted_nil
  | joinFsmMaybeComplete morePending =>
      obtain ⟨hsame, hquiet⟩ := joinFsmTryComplete_timers state
      exact TimerChange.of_result (.same hsame hquiet) h
  | broadcastMessage msg ip now =>
      cases h
      exact .same (handleBroadcast_timers msg ip) noneRetransmitted_nil
  | cliRecord record =>
      refine TimerChange.of_result ?_ h
      unfold handleCliIfReady
      split
      · exact .same (.refl state) noneRetransmitted_nil
      · exact .same ⟨rfl, rfl, rfl, rfl, rfl, rfl⟩ ⟨rfl, rfl, rfl⟩
  | selectFailed | unicastFailed | broadcastFailed | cliFailed => cases h
  | pruneJoins now | selectReady | selectInterrupted | unicastIdle | broadcastIdle | cliIdle =>
      cases h
      exact .same ⟨rfl, rfl, rfl, rfl, rfl, rfl⟩ noneRetransmitted_nil

end Handlers

section Times

variable {kind : Effect → Bool} {state : RingState} {ok : Nat → Bool}

theorem sendTimes_snoc (kind : Effect → Bool) (log : NodeLog) (event : Event)
    (out : List Effect) :
    sendTimes kind (log ++ [(event, out)]) =
      sendTimes kind log ++ if out.any kind then event.clock.toList else [] := by
  simp [sendTimes]

theorem inflightSends_kinds (state : RingState) (ok : Nat → Bool) :
    (inflightSends state ok).any Effect.isJoinRequest = false ∧
      (inflightSends state ok).any Effect.isJoinAck = false := by
  constructor
  all_goals
    apply List.any_eq_false.mpr
    intro effect hmem
    rcases mem_inflightSends hmem with ⟨_, rfl⟩ | ⟨_, rfl⟩ <;> exact Bool.noConfusion

/-- While a confirmation is missing an accept goes out. -/
theorem inflightSends_accept (hmissing : (state.joinInflight.gotConfirmPrev &&
    state.joinInflight.gotConfirmJoiner) = false) :
    (inflightSends state ok).any Effect.isJoinAccept = true := by
  unfold inflightSends
  cases hjoiner : state.joinInflight.gotConfirmJoiner with
  | false => rfl
  | true =>
      cases hprev : state.joinInflight.gotConfirmPrev with
      | false => rfl
      | true => simp [hprev, hjoiner] at hmissing

/-- The step of a run and its timers. -/
theorem Node.entryStep_timers {run run' : Node × NodeLog} {event : Event}
    (h : Lts.logged Node.entryStep run event = some run') :
    ∃ out, run'.2 = run.2 ++ [(event, out)] ∧
      TimerChange run.1.state event run'.1.state out := by
  obtain ⟨result, hresult, rfl⟩ := Option.map_eq_some_iff.mp h
  obtain ⟨⟨node, out⟩, hstep, rfl⟩ := Option.map_eq_some_iff.mp hresult
  refine ⟨out, rfl, ?_⟩
  rcases Node.step_cases hstep with hhandle | ⟨_, hsame, rfl⟩
  · exact event.handle_timers hhandle
  · simp only [hsame]
    exact .same (.refl _) noneRetransmitted_nil

end Times

section Runs

variable {node node' : Node} {run : Node × NodeLog} {now : Int} {ok : Nat → Bool}
  {out : List Effect}

/-- The requests sent so far, with the timer of a node that has not joined. -/
def RequestsPaced (state : RingState) (times : List Int) : Prop :=
  times.length ≤ joinRequestRetries ∧ ∃ stamp, Pacing.Runs joinRequestTimeoutS 0 times stamp ∧
    (state.joined = false →
      stamp = state.joinRequestLastSent ∧ times.length = state.joinRequestRetries)

theorem RequestsPaced.same {state state' : RingState} {times : List Int}
    (h : RequestsPaced state times) (hjoined : state'.joined = state.joined)
    (hsent : state'.joinRequestLastSent = state.joinRequestLastSent)
    (hretries : state'.joinRequestRetries = state.joinRequestRetries) :
    RequestsPaced state' times := by
  unfold RequestsPaced
  rw [hjoined, hsent, hretries]
  exact h

/-- The requests of a node. -/
theorem requests_paced {config : RouteConfig} {joined shouldStart : Bool} {requestId : UInt32}
    (h : Lts.Reachable (Lts.logged Node.entryStep)
      (Node.start config joined shouldStart requestId, []) run) :
    RequestsPaced run.1.state (sendTimes Effect.isJoinRequest run.2) := by
  refine h.invariant (fun run => RequestsPaced run.1.state
    (sendTimes Effect.isJoinRequest run.2)) ?_ ?_
  · obtain ⟨tokenIn, _, hstart⟩ := Node.start_state config joined shouldStart requestId
    rw [hstart]
    exact ⟨Nat.zero_le _, 0, .refl _ _, fun _ => ⟨rfl, rfl⟩⟩
  · intro run event run' hbefore _ hstep
    obtain ⟨out, hlog, hchange⟩ := Node.entryStep_timers hstep
    rw [hlog, sendTimes_snoc]
    cases hchange with
    | same hsame hquiet =>
        rw [hquiet.1, if_neg Bool.false_ne_true, List.append_nil]
        exact hbefore.same hsame.joined hsame.requestSent hsame.requestRetries
    | request now hclock hunjoined hdue hfew hstate hout =>
        obtain ⟨_, stamp, hruns, htimer⟩ := hbefore
        obtain ⟨rfl, hcount⟩ := htimer hunjoined
        have hsent : out.any Effect.isJoinRequest = true := by
          rw [hout]
          rfl
        rw [hsent, if_pos rfl, hclock, Option.toList_some, hstate]
        refine ⟨?_, now, hruns.due hdue, fun _ => ⟨rfl, ?_⟩⟩
        · rw [List.length_append, List.length_singleton]
          omega
        · rw [List.length_append, List.length_singleton, hcount]
    | accepts now ok retries hclock hdue hmissing hstate hout =>
        rw [hout, (inflightSends_kinds _ _).1, if_neg Bool.false_ne_true, List.append_nil, hstate]
        exact hbefore.same rfl rfl rfl
    | ack now ok hclock hdue hfew hstate hout =>
        rw [hout, hstate]
        exact (List.append_nil _).symm ▸ hbefore.same rfl rfl rfl
    | applied accept now ok hevent happlies hjoined hinflight hsender hout =>
        obtain ⟨dst, fromName, rfl⟩ := hout
        obtain ⟨hfew, stamp, hruns, _⟩ := hbefore
        refine (List.append_nil _).symm ▸ ⟨hfew, stamp, hruns, fun hunjoined => ?_⟩
        rw [hjoined] at hunjoined
        cases hunjoined
    | started now ok pending joinState hevent hidle hstate hout =>
        rw [hout, (inflightSends_kinds _ _).1, if_neg Bool.false_ne_true, List.append_nil, hstate]
        exact hbefore.same rfl rfl rfl

/-- The acknowledgements after an accept that was applied at `now`, until the
next one is applied. The first transmission counts if it succeeded. -/
theorem acks_paced {accept : JoinAccept}
    (hstep : node.step (.unicastMessage (.joinAccept accept) now ok) = some (node', out))
    (happlies : (Event.unicastMessage (.joinAccept accept) now ok).appliesAccept node.state = true)
    (h : Lts.Reaches (Lts.logged Node.entryStep)
      (fun run event => event.appliesAccept run.1.state = false) (node', []) run) :
    Pacing.Runs joinAckResendS (if ok 0 then now else 0) (sendTimes Effect.isJoinAck run.2)
        run.1.state.ackSender.lastSent ∧
      (ok 0).toNat + (sendTimes Effect.isJoinAck run.2).length = run.1.state.ackSender.retries ∧
      run.1.state.ackSender.retries ≤ joinAckMaxRetries := by
  refine h.invariant (fun run => Pacing.Runs joinAckResendS (if ok 0 then now else 0)
      (sendTimes Effect.isJoinAck run.2) run.1.state.ackSender.lastSent ∧
    (ok 0).toNat + (sendTimes Effect.isJoinAck run.2).length = run.1.state.ackSender.retries ∧
    run.1.state.ackSender.retries ≤ joinAckMaxRetries) ?_ ?_
  · have hsender : node'.state.ackSender =
        JoinAckSender.start accept (if ok 0 then some now else none) := by
      rcases Node.step_cases hstep with hhandle | ⟨hnone, _⟩
      · rw [← handleJoinAcceptU_starts happlies]
        exact congrArg (fun result => result.1.ackSender) (Option.some.inj hhandle).symm
      · cases hnone
    simp only [hsender, JoinAckSender.start]
    cases ok 0 with
    | true => exact ⟨.refl _ _, rfl, by simp [joinAckMaxRetries]⟩
    | false => exact ⟨.refl _ _, rfl, by simp⟩
  · rintro run event run' ⟨hruns, hcount, hlimit⟩ hrefused hstep
    obtain ⟨out, hlog, hchange⟩ := Node.entryStep_timers hstep
    rw [hlog, sendTimes_snoc]
    cases hchange with
    | same hsame hquiet =>
        rw [hquiet.2.2, if_neg Bool.false_ne_true, List.append_nil, hsame.ackSent,
          hsame.ackRetries]
        exact ⟨hruns, hcount, hlimit⟩
    | request now hclock hunjoined hdue hfew hstate hout =>
        rw [hout, hstate]
        exact (List.append_nil _).symm ▸ ⟨hruns, hcount, hlimit⟩
    | accepts now ok retries hclock hdue hmissing hstate hout =>
        rw [hout, (inflightSends_kinds _ _).2, if_neg Bool.false_ne_true, List.append_nil, hstate]
        exact ⟨hruns, hcount, hlimit⟩
    | ack now ok hclock hdue hfew hstate hout =>
        have hsent : out.any Effect.isJoinAck = true := by
          rw [hout]
          rfl
        rw [hsent, if_pos rfl, hclock, Option.toList_some, hstate]
        refine ⟨hruns.due hdue, ?_, hfew⟩
        rw [List.length_append, List.length_singleton, ← hcount, Nat.add_assoc]
    | applied accept now ok hevent happlies hjoined hinflight hsender hout =>
        rw [happlies] at hrefused
        cases hrefused
    | started now ok pending joinState hevent hidle hstate hout =>
        rw [hout, (inflightSends_kinds _ _).2, if_neg Bool.false_ne_true, List.append_nil, hstate]
        exact ⟨hruns, hcount, hlimit⟩

/-- The accepts of a join that was started at `now`, while it is in flight. -/
theorem accepts_paced (hstep : node.step (.handleTokenIfReady now ok) = some (node', out))
    (hidle : node.state.joinInflight.active = false)
    (hstarts : node'.state.joinInflight.active = true)
    (h : Lts.Reaches (Lts.logged Node.entryStep)
      (fun run _ => run.1.state.joinInflight.active = true) (node', []) run) :
    Pacing.Runs joinAcceptTimeoutS now (sendTimes Effect.isJoinAccept run.2)
      run.1.state.joinInflight.lastSent := by
  refine h.invariant (fun run => Pacing.Runs joinAcceptTimeoutS now
    (sendTimes Effect.isJoinAccept run.2) run.1.state.joinInflight.lastSent) ?_ ?_
  · have hsent : node'.state.joinInflight.lastSent = now := by
      rcases Node.step_cases hstep with hhandle | ⟨hnone, _⟩
      · have hstate := congrArg Prod.fst (Option.some.inj hhandle)
        simp only at hstate
        rw [← hstate] at hstarts ⊢
        exact handleTokenIfReady_starts hidle hstarts
      · cases hnone
    rw [hsent]
    exact .refl _ _
  · intro run event run' hruns hactive hstep
    obtain ⟨out, hlog, hchange⟩ := Node.entryStep_timers hstep
    rw [hlog, sendTimes_snoc]
    cases hchange with
    | same hsame hquiet =>
        rw [hquiet.2.1, if_neg Bool.false_ne_true, List.append_nil, hsame.acceptSent]
        exact hruns
    | request now hclock hunjoined hdue hfew hstate hout =>
        rw [hout, hstate]
        exact (List.append_nil _).symm ▸ hruns
    | accepts now ok retries hclock hdue hmissing hstate hout =>
        rw [hout, inflightSends_accept hmissing, if_pos rfl, hclock, Option.toList_some, hstate]
        exact hruns.due hdue
    | ack now ok hclock hdue hfew hstate hout =>
        rw [hout, hstate]
        exact (List.append_nil _).symm ▸ hruns
    | applied accept now ok hevent happlies hjoined hinflight hsender hout =>
        obtain ⟨dst, fromName, rfl⟩ := hout
        rw [hinflight]
        exact (List.append_nil _).symm ▸ hruns
    | started now ok pending joinState hevent hidle hstate hout =>
        rw [hactive] at hidle
        cases hidle

end Runs

/-- What a node repeats, it repeats in time and not for ever, whatever arrives
and whatever the clock shows, but that after a transmission at the time 0 the
next one may follow at once. In every run the requests are 10 s apart and at most
65536. The acknowledgements of an accept that was applied are 1 s apart, from the
first one on if its transmission succeeded, and at most 30 with it, until another
accept is applied. The accepts of a join are 1 s apart while it is in flight. -/
theorem retransmissions_paced :
    (∀ (config : RouteConfig) (joined shouldStart : Bool) (requestId : UInt32)
      (run : Node × NodeLog),
      Lts.Reachable (Lts.logged Node.entryStep)
        (Node.start config joined shouldStart requestId, []) run →
      Paced joinRequestTimeoutS (sendTimes Effect.isJoinRequest run.2) ∧
        (sendTimes Effect.isJoinRequest run.2).length ≤ joinRequestRetries) ∧
    (∀ (node node' : Node) (accept : JoinAccept) (now : Int) (ok : Nat → Bool)
      (out : List Effect) (run : Node × NodeLog),
      node.step (.unicastMessage (.joinAccept accept) now ok) = some (node', out) →
      (applyAcceptIfRelevant node.state accept).1 = true →
      Lts.Reaches (Lts.logged Node.entryStep)
        (fun run event => event.appliesAccept run.1.state = false) (node', []) run →
      Paced joinAckResendS
          ((if ok 0 then [now] else []) ++ sendTimes Effect.isJoinAck run.2) ∧
        (ok 0).toNat + (sendTimes Effect.isJoinAck run.2).length ≤ joinAckMaxRetries) ∧
    (∀ (node node' : Node) (now : Int) (ok : Nat → Bool) (out : List Effect)
      (run : Node × NodeLog),
      node.step (.handleTokenIfReady now ok) = some (node', out) →
      node.state.joinInflight.active = false → node'.state.joinInflight.active = true →
      Lts.Reaches (Lts.logged Node.entryStep)
        (fun run _ => run.1.state.joinInflight.active = true) (node', []) run →
      Paced joinAcceptTimeoutS (now :: sendTimes Effect.isJoinAccept run.2)) := by
  refine ⟨fun config joined shouldStart requestId run h => ?_, ?_, ?_⟩
  · obtain ⟨hfew, stamp, hruns, _⟩ := requests_paced h
    exact ⟨hruns.paced.tail, hfew⟩
  · intro node node' accept now ok out run hstep happlies h
    obtain ⟨hruns, hcount, hlimit⟩ := acks_paced hstep happlies h
    refine ⟨?_, by omega⟩
    have hpaced := hruns.paced
    cases hok : ok 0 with
    | true =>
        rw [hok, if_pos rfl] at hpaced
        exact hpaced
    | false => exact hpaced.tail
  · intro node node' now ok out run hstep hidle hstarts h
    exact (accepts_paced hstep hidle hstarts h).paced

/-- `B`, which has asked to join and receives. -/
def newcomerB : Node :=
  ⟨{ RingState.init ⟨⟨NodeName.ofBytes [66], 5002⟩, .zero, .zero⟩ false with joinRequestId := 2 },
    .unicast⟩

/-- Its first acknowledgement is lost, and it repeats it in its next passes. -/
theorem lost_ack_repeated :
    ∃ run : Node × NodeLog, sendTimes Effect.isJoinAck run.2 = [11, 12] ∧
      Paced joinAckResendS (sendTimes Effect.isJoinAck run.2) := by
  have hrun : ((newcomerB.step (.unicastMessage (.joinAccept acceptB) 10 (fun _ => false))).bind
      fun result => Lts.exec (Lts.restrict
          (fun run event => !event.appliesAccept run.1.state) (Lts.logged Node.entryStep))
        (result.1, []) ((quietPass 10 (some .malformed) none).drop 6 ++
          quietPass 11 none none ++ quietPass 12 none none)).map
      (fun run => sendTimes Effect.isJoinAck run.2) = some [11, 12] := by
    decide +kernel
  obtain ⟨run, hbind, htimes⟩ := Option.map_eq_some_iff.mp hrun
  obtain ⟨⟨node', out⟩, hstep, hexec⟩ := Option.bind_eq_some_iff.mp hbind
  have hreach : Lts.Reaches (Lts.logged Node.entryStep)
      (fun run event => event.appliesAccept run.1.state = false) (node', []) run :=
    Lts.reaches_of_exec_restrict (fun _ _ h => by simpa using h) hexec
  obtain ⟨hpaced, _⟩ := retransmissions_paced.2.1 newcomerB node' acceptB 10 (fun _ => false) out
    run hstep (by decide) hreach
  exact ⟨run, htimes, hpaced⟩

end TokenRing
