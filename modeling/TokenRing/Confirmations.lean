import TokenRing.CompletedQueue

/-!
The end of a join at its coordinator: the two ways of completing it against
each other, and the answers to the confirmations.
-/

namespace TokenRing

/-- What a completion sets in the ring and in the in-flight record. -/
structure CompletionsAgree (first second : RingState) : Prop where
  prev : first.config.prev = second.config.prev
  next : first.config.next = second.config.next
  lastSeenTopoVersion : first.lastSeenTopoVersion = second.lastSeenTopoVersion
  tokenTopoVersion : first.tokenIn.topoVersion = second.tokenIn.topoVersion
  active : first.joinInflight.active = second.joinInflight.active
  gotConfirmPrev : first.joinInflight.gotConfirmPrev = second.joinInflight.gotConfirmPrev
  gotConfirmJoiner : first.joinInflight.gotConfirmJoiner = second.joinInflight.gotConfirmJoiner
  retries : first.joinInflight.retries = second.joinInflight.retries

/-- The state with both confirmations recorded. -/
def RingState.withConfirmations (state : RingState) : RingState :=
  { state with
    joinInflight :=
      { state.joinInflight with gotConfirmPrev := true, gotConfirmJoiner := true } }

/-- The state after the own completion. -/
def completedByAcks (state : RingState) : RingState :=
  (joinFsmTryComplete state.withConfirmations).1

/-- The state after the `JOIN_COMMIT` of this join. -/
def completedByCommit (state : RingState) (ip : UInt32) (now : Int) : RingState :=
  handleBroadcast state (.joinCommit state.joinInflight.requestId
    state.joinInflight.joiner.nodeName (state.lastSeenTopoVersion + 1)) ip now

section Completions

variable {state : RingState} {ip : UInt32} {now : Int}

theorem completedByAcks_eq (hactive : state.joinInflight.active = true) :
    completedByAcks state = (joinFsmComplete state.withConfirmations).1 := by
  have hdone : joinFsmTryComplete state.withConfirmations =
      joinFsmComplete state.withConfirmations := joinFsmTryComplete_of_confirmed hactive rfl rfl
  unfold completedByAcks
  rw [hdone]

/-- The next version is newer unless the counter wraps. -/
theorem next_version_newer (version : UInt32) :
    version + 1 > version ↔ version ≠ 0xFFFFFFFF := by
  have hone : (1 : UInt32).toNat = 1 := rfl
  have hbound := version.toNat_lt
  constructor
  · rintro hnewer rfl
    exact absurd hnewer (by decide)
  · intro hlast
    have hless : version.toNat ≠ 4294967295 := fun heq => hlast (UInt32.toNat_inj.mp heq)
    rw [gt_iff_lt, UInt32.lt_iff_toNat_lt, UInt32.toNat_add, hone]
    omega

/-- The version that the commit leaves. -/
theorem commit_version (version : UInt32) :
    (if version + 1 > version then version + 1 else version) = version + 1 ↔
      version ≠ 0xFFFFFFFF := by
  rw [← next_version_newer]
  constructor
  · intro heq
    by_contra hold
    rw [if_neg hold] at heq
    have hone : (1 : UInt32).toNat = 1 := rfl
    have hnat := congrArg UInt32.toNat heq
    rw [UInt32.toNat_add, hone] at hnat
    have hbound := version.toNat_lt
    omega
  · intro hnewer
    rw [if_pos hnewer]

/-- The two ways of completing a join agree unless the coordinator is its own
predecessor and does not have the joiner as successor yet, or the version
wraps around. -/
theorem completions_agree_iff (hactive : state.joinInflight.active = true) :
    CompletionsAgree (completedByAcks state) (completedByCommit state ip now) ↔
      state.lastSeenTopoVersion ≠ 0xFFFFFFFF ∧
        (state.joinInflight.expectedPrevName = state.config.current.nodeName →
          state.config.next = state.joinInflight.joiner.route) := by
  obtain ⟨joinState, sender, _, _, _, hcase⟩ := handleJoinCommit_cases state
    state.joinInflight.requestId state.joinInflight.joiner.nodeName
    (state.lastSeenTopoVersion + 1)
  rcases hcase with ⟨hother, _⟩ | ⟨_, _, hcommit⟩
  · exact absurd ⟨hactive, rfl⟩ hother
  have hsecond : completedByCommit state ip now =
      handleJoinCommit state state.joinInflight.requestId
        state.joinInflight.joiner.nodeName (state.lastSeenTopoVersion + 1) := rfl
  rw [completedByAcks_eq hactive, hsecond, hcommit]
  constructor
  · intro hagree
    constructor
    · exact (commit_version _).mp hagree.lastSeenTopoVersion.symm
    · intro hself
      have hnext := hagree.next
      simp only [joinFsmComplete, RingState.withConfirmations, hself, if_true] at hnext
      exact hnext.symm
  · rintro ⟨hversion, hnext⟩
    have hsame := ((commit_version _).mpr hversion).symm
    refine ⟨rfl, ?_, hsame, hsame, rfl, rfl, rfl, rfl⟩
    by_cases hself : state.joinInflight.expectedPrevName = state.config.current.nodeName
    · simp [joinFsmComplete, RingState.withConfirmations, hself, hnext hself]
    · simp [joinFsmComplete, RingState.withConfirmations, hself]

end Completions

/-- Node `A` of a ring with `C`, which joins `B`. -/
def joiningB (prev : Route) : RingState :=
  let config : RouteConfig := ⟨⟨NodeName.ofBytes [65], 5001⟩, prev, prev⟩
  joinFsmStartInflight (RingState.init config true) ⟨7, NodeName.ofBytes [66], 5002, 0, 10⟩

theorem pair_completions_agree :
    CompletionsAgree (completedByAcks (joiningB ⟨NodeName.ofBytes [67], 5003⟩))
      (completedByCommit (joiningB ⟨NodeName.ofBytes [67], 5003⟩) 0 11) :=
  (completions_agree_iff (by decide)).mpr (by decide +kernel)

/-- Alone in its ring, `A` keeps itself as successor after the `JOIN_COMMIT`. -/
theorem alone_completions_differ :
    ¬ ∀ (state : RingState) (ip : UInt32) (now : Int), state.joinInflight.active = true →
      CompletionsAgree (completedByAcks state) (completedByCommit state ip now) := by
  intro hall
  have hagree := hall (joiningB ⟨NodeName.ofBytes [65], 5001⟩) 0 11 (by decide)
  have hfirst : (completedByAcks (joiningB ⟨NodeName.ofBytes [65], 5001⟩)).config.next =
      ⟨NodeName.ofBytes [66], 5002⟩ := by decide +kernel
  have hsecond : (completedByCommit (joiningB ⟨NodeName.ofBytes [65], 5001⟩) 0 11).config.next =
      ⟨NodeName.ofBytes [65], 5001⟩ := by decide +kernel
  have hnext := hagree.next
  rw [hfirst, hsecond] at hnext
  exact absurd hnext (by decide +kernel)

/-- The answers of `handle_join_ack_u` to a sender at this address. -/
def Answered (state : RingState) (requestId : UInt32) (sender : Route) (ok : Nat → Bool) : Prop :=
  ∀ k, k < joinAckAckSendCount →
    .unicast sender (.joinAckAck requestId sender.nodeName) (ok k) ∈
      (handleJoinAckU state requestId sender.nodeName ok).2

section Answers

variable {state : RingState} {requestId : UInt32} {fromName : NodeName} {sender : Route}
  {ok : Nat → Bool}

/-- The answers go to the port that is known for the name. -/
theorem mem_ackAckSends_iff (k : Nat) (hk : k < joinAckAckSendCount) :
    .unicast sender (.joinAckAck requestId sender.nodeName) (ok k) ∈
        ackAckSends state requestId sender.nodeName ok ↔
      ackAckPort state sender.nodeName = some sender.unicastPort := by
  constructor
  · intro hmem
    obtain ⟨port, _, hport, heq⟩ := mem_ackAckSends hmem
    have hroute : sender = ⟨sender.nodeName, port⟩ := by injection heq
    rw [hport, hroute]
  · intro hport
    unfold ackAckSends
    rw [hport]
    exact List.mem_map.mpr ⟨k, List.mem_range.mpr hk, rfl⟩

/-- The state in which the port is looked up: the join may be complete. -/
theorem answered_iff (hactive : state.joinInflight.active = true) :
    Answered state state.joinInflight.requestId sender ok ↔
      ackAckPort (joinFsmTryComplete (recordConfirm state sender.nodeName)).1 sender.nodeName =
        some sender.unicastPort := by
  have hsplit : (handleJoinAckU state state.joinInflight.requestId sender.nodeName ok).2 =
      (joinFsmTryComplete (recordConfirm state sender.nodeName)).2 ++
        ackAckSends (joinFsmTryComplete (recordConfirm state sender.nodeName)).1
          state.joinInflight.requestId sender.nodeName ok := by
    simp [handleJoinAckU, hactive]
  -- a completion sends its commit and nothing to the sender
  have hquiet : ∀ dst msg sent, .unicast dst msg sent ∉
      (joinFsmTryComplete (recordConfirm state sender.nodeName)).2 := by
    intro dst msg sent hmem
    rcases joinFsmTryComplete_cases (recordConfirm state sender.nodeName) with
      hsame | ⟨_, _, _, hdone⟩
    · rw [hsame] at hmem
      cases hmem
    · rw [hdone] at hmem
      simp [joinFsmComplete] at hmem
  constructor
  · intro hall
    have hfirst := hall 0 (by decide)
    rw [hsplit] at hfirst
    rcases List.mem_append.mp hfirst with hcommit | hanswer
    · exact absurd hcommit (hquiet _ _ _)
    · exact (mem_ackAckSends_iff 0 (by decide)).mp hanswer
  · intro hport k hk
    rw [hsplit]
    exact List.mem_append_right _ ((mem_ackAckSends_iff k hk).mpr hport)

/-- A confirmation that does not complete the join. -/
theorem recordConfirm_waits
    (hmissing : (recordConfirm state fromName).joinInflight.gotConfirmJoiner = false) :
    joinFsmTryComplete (recordConfirm state fromName) = (recordConfirm state fromName, []) := by
  unfold joinFsmTryComplete
  split
  · rfl
  · rw [if_pos (by simp [hmissing])]

/-- The joiner is known as such before the completion, and as the predecessor
after it. -/
theorem joiner_answered (hactive : state.joinInflight.active = true) :
    ackAckPort (joinFsmTryComplete
        (recordConfirm state state.joinInflight.joiner.route.nodeName)).1
      state.joinInflight.joiner.route.nodeName =
        some state.joinInflight.joiner.route.unicastPort := by
  rcases joinFsmTryComplete_cases
      (recordConfirm state state.joinInflight.joiner.route.nodeName) with
    hsame | ⟨_, _, _, hdone⟩
  · rw [hsame]
    simp [ackAckPort, recordConfirm, hactive, PendingJoin.route]
  · rw [hdone]
    simp [ackAckPort, joinFsmComplete, JoinInflight.finish, recordConfirm]

/-- The predecessor is known while the join is in flight. -/
theorem pred_answered_iff (hactive : state.joinInflight.active = true)
    (hname : state.config.prev.nodeName ≠ state.joinInflight.joiner.nodeName) :
    ackAckPort (joinFsmTryComplete (recordConfirm state state.config.prev.nodeName)).1
        state.config.prev.nodeName = some state.config.prev.unicastPort ↔
      state.joinInflight.gotConfirmJoiner = false := by
  have hgot : (recordConfirm state state.config.prev.nodeName).joinInflight.gotConfirmJoiner =
      state.joinInflight.gotConfirmJoiner := by
    simp [recordConfirm, hname]
  cases hjoiner : state.joinInflight.gotConfirmJoiner with
  | false =>
      rw [recordConfirm_waits (hgot.trans hjoiner)]
      simp [ackAckPort, recordConfirm, hname]
  | true =>
      have hprev : (recordConfirm state state.config.prev.nodeName).joinInflight.gotConfirmPrev =
          true := by
        simp [recordConfirm]
      have hdone : joinFsmTryComplete (recordConfirm state state.config.prev.nodeName) =
          joinFsmComplete (recordConfirm state state.config.prev.nodeName) :=
        joinFsmTryComplete_of_confirmed hactive hprev (hgot.trans hjoiner)
      rw [hdone]
      simp [ackAckPort, joinFsmComplete, JoinInflight.finish, recordConfirm, hname,
        PendingJoin.route]

/-- Under the name of the joiner only the joiner's own port is answered. -/
theorem joiner_name_answered (hactive : state.joinInflight.active = true)
    (hname : sender.nodeName = state.joinInflight.joiner.nodeName)
    (hport : ackAckPort (joinFsmTryComplete (recordConfirm state sender.nodeName)).1
      sender.nodeName = some sender.unicastPort) :
    sender = state.joinInflight.joiner.route := by
  have hjoiner := joiner_answered hactive
  rw [hname] at hport
  have hsame := Option.some.inj (hport.symm.trans hjoiner)
  cases sender
  simp only [PendingJoin.route] at *
  rw [hname, hsame]

/-- At the coordinator of a join the confirmation of the joiner is always
answered, and that of the expected predecessor exactly when the joiner, which
has another name, has not confirmed yet: else it completes the join, and the
predecessor is forgotten. -/
theorem confirmation_answered_iff {config : RouteConfig} {joined shouldStart : Bool}
    {startId : UInt32} {node : Node}
    (h : Lts.Reachable Node.next (Node.start config joined shouldStart startId) node)
    (hactive : node.state.joinInflight.active = true)
    (hsender : sender = node.state.joinInflight.joiner.route ∨
      sender = ⟨node.state.joinInflight.expectedPrevName, node.state.config.prev.unicastPort⟩) :
    Answered node.state node.state.joinInflight.requestId sender ok ↔
      sender = node.state.joinInflight.joiner.route ∨
        (sender.nodeName ≠ node.state.joinInflight.joiner.nodeName ∧
          node.state.joinInflight.gotConfirmJoiner = false) := by
  rw [answered_iff hactive]
  rcases hsender with rfl | hpred
  · exact ⟨fun _ => .inl rfl, fun _ => joiner_answered hactive⟩
  · have hsame : sender = node.state.config.prev := by
      rw [hpred, (coordinatorInv_reachable h).expected_prev hactive]
    subst hsame
    by_cases hname : node.state.config.prev.nodeName = node.state.joinInflight.joiner.nodeName
    · constructor
      · intro hport
        exact .inl (joiner_name_answered hactive hname hport)
      · rintro (heq | ⟨hother, _⟩)
        · rw [heq]
          exact joiner_answered hactive
        · exact absurd hname hother
    · rw [pred_answered_iff hactive hname]
      constructor
      · intro hmissing
        exact .inr ⟨hname, hmissing⟩
      · rintro (heq | ⟨_, hmissing⟩)
        · rw [heq] at hname
          exact absurd rfl hname
        · exact hmissing

/-- `A` has taken up the join of `B`, and its predecessor `C` confirms first. -/
theorem neighbour_answered : ∃ node,
    Lts.Reachable Node.next (Node.start neighbours true true 0) node ∧
      Answered node.state node.state.joinInflight.requestId ⟨NodeName.ofBytes [67], 5003⟩
        (fun _ => true) := by
  have hrun : (Lts.exec Node.next (Node.start neighbours true true 0)
      (quietPass 10 none (some (.joinRequest ⟨2, NodeName.ofBytes [66], 5002⟩)))).map
      (fun node => (node.state.joinInflight.active, node.state.joinInflight.gotConfirmJoiner,
        node.state.joinInflight.joiner.nodeName, node.state.joinInflight.expectedPrevName,
        node.state.config.prev.unicastPort)) =
        some (true, false, NodeName.ofBytes [66], NodeName.ofBytes [67], 5003) := by
    decide +kernel
  obtain ⟨node, hexec, hfacts⟩ := Option.map_eq_some_iff.mp hrun
  simp only [Prod.mk.injEq] at hfacts
  obtain ⟨hactive, hmissing, hjoiner, hexpected, hport⟩ := hfacts
  have hreach := Lts.reachable_of_exec hexec
  refine ⟨node, hreach, (confirmation_answered_iff hreach hactive ?_).mpr (.inr ⟨?_, hmissing⟩)⟩
  · rw [hexpected, hport]
    exact .inr rfl
  · rw [hjoiner]
    decide +kernel

/-- `B` confirms first, and the confirmation of `C` completes the join. -/
theorem last_confirmation_unanswered : ∃ node,
    Lts.Reachable Node.next (Node.start neighbours true true 0) node ∧
      node.state.joinInflight.active = true ∧
      node.state.config.prev = ⟨NodeName.ofBytes [67], 5003⟩ ∧
      node.state.joinInflight.expectedPrevName = NodeName.ofBytes [67] ∧
      ∀ port ok, .unicast ⟨NodeName.ofBytes [67], port⟩
        (.joinAckAck node.state.joinInflight.requestId (NodeName.ofBytes [67])) ok ∉
          (handleJoinAckU node.state node.state.joinInflight.requestId (NodeName.ofBytes [67])
            (fun _ => true)).2 := by
  have hrun : (Lts.exec Node.next (Node.start neighbours true true 0)
      (quietPass 10 none (some (.joinRequest ⟨2, NodeName.ofBytes [66], 5002⟩)) ++
        quietPass 11 (some (.joinAck 2 (NodeName.ofBytes [66]))) none)).map
      (fun node => (node.state.joinInflight.active, node.state.config.prev,
        node.state.joinInflight.expectedPrevName,
        (handleJoinAckU node.state node.state.joinInflight.requestId (NodeName.ofBytes [67])
          (fun _ => true)).2)) =
        some (true, ⟨NodeName.ofBytes [67], 5003⟩, NodeName.ofBytes [67],
          [.broadcast (.joinCommit 2 (NodeName.ofBytes [66]) 1)]) := by
    decide +kernel
  obtain ⟨node, hexec, hfacts⟩ := Option.map_eq_some_iff.mp hrun
  simp only [Prod.mk.injEq] at hfacts
  obtain ⟨hactive, hprev, hexpected, hsends⟩ := hfacts
  refine ⟨node, Lts.reachable_of_exec hexec, hactive, hprev, hexpected, ?_⟩
  intro port ok hmem
  rw [hsends] at hmem
  simp at hmem

end Answers

end TokenRing
