import TokenRing.Cluster.Candidates

/-!
What a handler call does to the routes of a node and to its part in a join.
Most calls leave both alone; the others start a join, complete it, or apply an
accept.
-/

namespace TokenRing

/-- The fields that say where a node is in the ring and which join it has in
flight. -/
structure RingState.SameRing (state state' : RingState) : Prop where
  config : state'.config = state.config
  joined : state'.joined = state.joined
  active : state'.joinInflight.active = state.joinInflight.active
  requestId : state'.joinInflight.requestId = state.joinInflight.requestId
  joiner : state'.joinInflight.joiner = state.joinInflight.joiner

theorem RingState.SameRing.refl (state : RingState) : state.SameRing state :=
  ⟨rfl, rfl, rfl, rfl, rfl⟩

/-- The event is an acknowledgement of the predecessor for the join in
flight. -/
def ConfirmsPrev (state : RingState) (event : Event) : Prop :=
  ∃ fromName now ok,
    event = .unicastMessage (.joinAck state.joinInflight.requestId fromName) now ok ∧
    (fromName = state.joinInflight.expectedPrevName ∨ fromName = state.config.prev.nodeName)

/-- The accepts that are sent are those of the join in flight. -/
def SendsOwnAccepts (state : RingState) (out : List Effect) : Prop :=
  ∀ dst accept ok, .unicast dst (.joinAccept accept) ok ∈ out →
    state.joinInflight.active = true ∧ accept = buildJoinAcceptHost state ∧
    (dst = state.joinInflight.joiner.route ∨
      state.joinInflight.gotConfirmPrev = false ∧ dst = state.config.prev)

/-- The acknowledgements that are sent repeat the one that the node has
started. -/
def SendsOwnAcks (state : RingState) (out : List Effect) : Prop :=
  ∀ dst requestId fromName ok, .unicast dst (.joinAck requestId fromName) ok ∈ out →
    state.ackSender.active = true ∧ requestId = state.ackSender.requestId ∧
    fromName = state.config.current.nodeName

/-- A call that leaves the ring and the join in flight as they are. -/
structure RingQuiet (state : RingState) (event : Event) (state' : RingState)
    (out : List Effect) : Prop where
  same : state.SameRing state'
  stays : state.joinInflight.gotConfirmPrev = true → state'.joinInflight.gotConfirmPrev = true
  confirms : state.joinInflight.active = true → state'.joinInflight.gotConfirmPrev = true →
    state.joinInflight.gotConfirmPrev = true ∨ ConfirmsPrev state event
  sender : state'.ackSender.active = true →
    state.ackSender.active = true ∧ state'.ackSender.requestId = state.ackSender.requestId
  accepts : SendsOwnAccepts state out
  acks : SendsOwnAcks state out

/-- The idle holder takes up the join of a waiting node. -/
structure RingStarts (state : RingState) (pending : PendingJoin) (state' : RingState)
    (out : List Effect) : Prop where
  holder : state.haveToken = true
  idle : state.joinInflight.active = false
  waiting : ∃ k, state.joinState.joins k = some pending
  config : state'.config = state.config
  joined : state'.joined = state.joined
  active : state'.joinInflight.active = true
  requestId : state'.joinInflight.requestId = pending.requestId
  joiner : state'.joinInflight.joiner = pending
  alone : state'.joinInflight.gotConfirmPrev = true ↔
    state.config.prev.nodeName = state.config.current.nodeName
  sender : state'.ackSender = state.ackSender
  accepts : SendsOwnAccepts state' out
  acks : SendsOwnAcks state out

/-- The join in flight completes: the joiner becomes the predecessor, and the
successor of a node that was alone. -/
structure RingCompletes (state : RingState) (event : Event) (state' : RingState)
    (out : List Effect) : Prop where
  active : state.joinInflight.active = true
  idle : state'.joinInflight.active = false
  confirmed : state.joinInflight.gotConfirmPrev = true ∨ ConfirmsPrev state event
  prev : state'.config.prev = state.joinInflight.joiner.route
  next : state'.config.next =
    if state.joinInflight.expectedPrevName = state.config.current.nodeName
    then state.joinInflight.joiner.route else state.config.next
  joined : state'.joined = state.joined
  sender : state'.ackSender = state.ackSender
  accepts : ∀ dst accept ok, .unicast dst (.joinAccept accept) ok ∉ out
  acks : ∀ dst requestId fromName ok, .unicast dst (.joinAck requestId fromName) ok ∉ out

/-- What every applied accept does: the node counts as joined and acknowledges
the accept. -/
structure RingApplies (state : RingState) (event : Event) (accept : JoinAccept)
    (state' : RingState) (out : List Effect) : Prop where
  event : ∃ now ok, event = .unicastMessage (.joinAccept accept) now ok
  joined : state'.joined = true
  current : state'.config.current = state.config.current
  inflight : state'.joinInflight = state.joinInflight
  sender : state'.ackSender.requestId = accept.requestId
  accepts : ∀ dst accept ok, .unicast dst (.joinAccept accept) ok ∉ out
  acks : ∀ dst requestId fromName ok, .unicast dst (.joinAck requestId fromName) ok ∈ out →
    requestId = accept.requestId ∧ fromName = state.config.current.nodeName

section Local

variable {state state' : RingState} {event : Event} {out : List Effect}

/-- A call that sends neither accepts nor acknowledgements and keeps the
confirmations is quiet. -/
theorem ringQuiet_of_silent (hsame : state.SameRing state')
    (hgot : state'.joinInflight.gotConfirmPrev = state.joinInflight.gotConfirmPrev)
    (hsender : state'.ackSender.active = true →
      state.ackSender.active = true ∧ state'.ackSender.requestId = state.ackSender.requestId)
    (hout : ∀ dst msg ok, .unicast dst msg ok ∈ out →
      (∃ requestId toName, msg = .joinAckAck requestId toName) ∨ ∃ token, msg = .token token) :
    RingQuiet state event state' out where
  same := hsame
  stays := fun h => hgot.trans h
  confirms := fun _ h => .inl (hgot.symm.trans h)
  sender := hsender
  accepts := by
    intro dst accept ok hmem
    rcases hout _ _ _ hmem with ⟨_, _, heq⟩ | ⟨_, heq⟩ <;> cases heq
  acks := by
    intro dst requestId fromName ok hmem
    rcases hout _ _ _ hmem with ⟨_, _, heq⟩ | ⟨_, heq⟩ <;> cases heq

theorem OnlyAckAcks.silent {answers : List Effect} (h : OnlyAckAcks answers) (dst : Route)
    (msg : UnicastMsg) (ok : Bool) (hmem : .unicast dst msg ok ∈ answers) :
    (∃ requestId toName, msg = .joinAckAck requestId toName) ∨ ∃ token, msg = .token token := by
  obtain ⟨_, requestId, toName, _, heq⟩ := h _ hmem
  cases heq
  exact .inl ⟨requestId, toName, rfl⟩

theorem recordConfirm_sameRing (fromName : NodeName) :
    state.SameRing (recordConfirm state fromName) := ⟨rfl, rfl, rfl, rfl, rfl⟩

theorem recordConfirm_confirms {fromName : NodeName} {now : Int} {ok : Nat → Bool}
    (h : (recordConfirm state fromName).joinInflight.gotConfirmPrev = true) :
    state.joinInflight.gotConfirmPrev = true ∨ ConfirmsPrev state
      (.unicastMessage (.joinAck state.joinInflight.requestId fromName) now ok) := by
  simp only [recordConfirm, Bool.or_eq_true, decide_eq_true_eq] at h
  rcases h with hold | hfrom
  · exact .inl hold
  · exact .inr ⟨fromName, now, ok, rfl, hfrom⟩

theorem inflightSends_own (ok : Nat → Bool) (hactive : state.joinInflight.active = true) :
    SendsOwnAccepts state (inflightSends state ok) ∧
      ∀ dst requestId fromName sent,
        .unicast dst (.joinAck requestId fromName) sent ∉ inflightSends state ok := by
  refine ⟨fun dst accept sent hmem => ?_, fun dst requestId fromName sent hmem => ?_⟩
  · rcases mem_inflightSends hmem with ⟨_, heq⟩ | ⟨hmissing, heq⟩
    · cases heq
      exact ⟨hactive, rfl, .inl rfl⟩
    · cases heq
      exact ⟨hactive, rfl, .inr ⟨hmissing, rfl⟩⟩
  · rcases mem_inflightSends hmem with ⟨_, heq⟩ | ⟨_, heq⟩ <;> cases heq

/-- Every call is quiet, starts a join, completes one, applies an accept at the
joiner or at the predecessor, or reads a commit of its own join. -/
theorem Transition.ring_cases (h : Transition state event state' out) :
    RingQuiet state event state' out ∨
    (∃ pending, RingStarts state pending state' out) ∨
    RingCompletes state event state' out ∨
    (∃ accept, RingApplies state event accept state' out ∧
      state.config.current.nodeName = accept.newName ∧ state.joined = false ∧
      state'.config.prev = ⟨accept.prevName, accept.prevUnicastPort⟩ ∧
      state'.config.next = ⟨accept.beforeName, accept.beforeUnicastPort⟩) ∨
    (∃ accept, RingApplies state event accept state' out ∧
      state.config.current.nodeName = accept.prevName ∧
      state.config.next.nodeName = accept.beforeName ∧
      state'.config.prev = state.config.prev ∧
      state'.config.next = ⟨accept.newName, accept.newUnicastPort⟩) ∨
    (state.joinInflight.active = true ∧ ∃ newName topoVersion ip now, event =
      .broadcastMessage (.joinCommit state.joinInflight.requestId newName topoVersion) ip now) := by
  have hsender : ∀ {sender : JoinAckSender}, state.ackSender.Wanes sender →
      sender.active = true → state.ackSender.active = true ∧
        sender.requestId = state.ackSender.requestId :=
    fun hwanes hactive => ⟨hwanes.active hactive, hwanes.requestId⟩
  have hkept : state.ackSender.active = true → state.ackSender.active = true ∧
      state.ackSender.requestId = state.ackSender.requestId := fun hactive => ⟨hactive, rfl⟩
  have hsame := RingState.SameRing.refl state
  cases h with
  | idle event hevent => exact .inl (ringQuiet_of_silent hsame rfl hkept (by simp))
  | requestSent now retries hunjoined =>
      exact .inl (ringQuiet_of_silent ⟨rfl, rfl, rfl, rfl, rfl⟩ rfl hkept (by simp))
  | queueShrunk event hevent joinState hshrinks =>
      exact .inl (ringQuiet_of_silent ⟨rfl, rfl, rfl, rfl, rfl⟩ rfl hkept (by simp))
  | senderChanged event hevent sender hwanes =>
      exact .inl (ringQuiet_of_silent ⟨rfl, rfl, rfl, rfl, rfl⟩ rfl (hsender hwanes) (by simp))
  | ackSent now ok sender hactive hgot hretries hwanes =>
      refine .inl ⟨⟨rfl, rfl, rfl, rfl, rfl⟩, id, fun _ => .inl, hsender hwanes, ?_, ?_⟩
      · intro dst accept sent hmem
        cases List.mem_singleton.mp hmem
      · intro dst requestId fromName sent hmem
        cases List.mem_singleton.mp hmem
        exact ⟨hactive, rfl, rfl⟩
  | acceptsSent now ok retries hactive =>
      obtain ⟨haccepts, hacks⟩ := inflightSends_own ok hactive
      exact .inl ⟨⟨rfl, rfl, rfl, rfl, rfl⟩, id, fun _ => .inl, hkept, haccepts,
        fun dst requestId fromName sent hmem => absurd hmem (hacks _ _ _ _)⟩
  | completed event hevent mid answers hactive hmid hprev hjoiner hanswers =>
      refine .inr (.inr (.inl ?_))
      have hconfirmed : state.joinInflight.gotConfirmPrev = true ∨ ConfirmsPrev state event := by
        rcases hmid with rfl | ⟨fromName, now, ok, rfl, rfl⟩
        · exact .inl hprev
        · exact recordConfirm_confirms hprev
      have hout : ∀ dst msg ok, .unicast dst msg ok ∈ (joinFsmComplete mid).2 ++ answers →
          (∃ requestId toName, msg = .joinAckAck requestId toName) ∨
            ∃ token, msg = .token token := by
        intro dst msg ok hmem
        rcases List.mem_append.mp hmem with hcommit | hanswer
        · cases List.mem_singleton.mp hcommit
        · exact hanswers.silent dst msg ok hanswer
      refine ⟨hactive, rfl, hconfirmed, ?_, ?_, ?_, ?_, ?_, ?_⟩
      · rcases hmid with rfl | ⟨_, _, _, _, rfl⟩ <;> rfl
      · rcases hmid with rfl | ⟨_, _, _, _, rfl⟩ <;> rfl
      · rcases hmid with rfl | ⟨_, _, _, _, rfl⟩ <;> rfl
      · rcases hmid with rfl | ⟨_, _, _, _, rfl⟩ <;> rfl
      · intro dst accept ok hmem
        rcases hout _ _ _ hmem with ⟨_, _, heq⟩ | ⟨_, heq⟩ <;> cases heq
      · intro dst requestId fromName ok hmem
        rcases hout _ _ _ hmem with ⟨_, _, heq⟩ | ⟨_, heq⟩ <;> cases heq
  | ackAnswered requestId fromName now ok answers hanswers =>
      exact .inl (ringQuiet_of_silent hsame rfl hkept hanswers.silent)
  | confirmed fromName now ok answers hactive hanswers =>
      refine .inl ⟨recordConfirm_sameRing fromName, fun hgot => ?_,
        fun _ hgot => recordConfirm_confirms hgot, hkept, ?_, ?_⟩
      · simp [recordConfirm, hgot]
      · intro dst accept sent hmem
        rcases hanswers.silent _ _ _ hmem with ⟨_, _, heq⟩ | ⟨_, heq⟩ <;> cases heq
      · intro dst requestId fromName sent hmem
        rcases hanswers.silent _ _ _ hmem with ⟨_, _, heq⟩ | ⟨_, heq⟩ <;> cases heq
  | tokenStored token now ok hunjoined =>
      exact .inl (ringQuiet_of_silent ⟨rfl, rfl, rfl, rfl, rfl⟩ rfl hkept (by simp))
  | tokenTaken token now ok joinState hjoined hshrinks hempty =>
      exact .inl (ringQuiet_of_silent ⟨rfl, rfl, rfl, rfl, rfl⟩ rfl hkept (by simp))
  | acceptJoined accept now ok joinState sentAt hshrinks hself hunjoined hid =>
      refine .inr (.inr (.inr (.inl ⟨accept, ⟨⟨now, ok, rfl⟩, rfl, rfl, rfl, rfl, ?_, ?_⟩, hself,
        hunjoined, rfl, rfl⟩)))
      · intro dst accept' sent hmem
        cases List.mem_singleton.mp hmem
      · intro dst requestId fromName sent hmem
        cases List.mem_singleton.mp hmem
        exact ⟨rfl, rfl⟩
  | acceptLinked accept now ok joinState sentAt hshrinks hother hself hnext =>
      refine .inr (.inr (.inr (.inr (.inl ⟨accept, ⟨⟨now, ok, rfl⟩, rfl, rfl, rfl, rfl, ?_, ?_⟩,
        hself, hnext, rfl, rfl⟩))))
      · intro dst accept' sent hmem
        cases List.mem_singleton.mp hmem
      · intro dst requestId fromName sent hmem
        cases List.mem_singleton.mp hmem
        exact ⟨rfl, rfl⟩
  | enqueued request ip now joinState hother hjoiner hcompleted hadd =>
      exact .inl (ringQuiet_of_silent ⟨rfl, rfl, rfl, rfl, rfl⟩ rfl hkept (by simp))
  | commitSeen requestId newName topoVersion ip now joinState sender hshrinks hempty hwanes
      hmatch =>
      exact .inl (ringQuiet_of_silent ⟨rfl, rfl, rfl, rfl, rfl⟩ rfl (hsender hwanes) (by simp))
  | commitCompleted newName topoVersion ip now joinState sender hshrinks hempty hwanes hactive =>
      exact .inr (.inr (.inr (.inr (.inr ⟨hactive, newName, topoVersion, ip, now, rfl⟩))))
  | recordRead record hempty =>
      exact .inl (ringQuiet_of_silent ⟨rfl, rfl, rfl, rfl, rfl⟩ rfl hkept (by simp))
  | joinStarted now ok pending joinState hjoined htoken hidle hpop =>
      obtain ⟨k, hslot, _⟩ := JoinState.popOldestPendingJoin_some hpop
      have hown : SendsOwnAccepts (joinFsmStartInflight state pending)
          (inflightSends (joinFsmStartInflight state pending) ok) ∧ _ :=
        inflightSends_own ok rfl
      obtain ⟨haccepts, hacks⟩ := hown
      exact .inr (.inl ⟨pending, htoken, hidle, ⟨k, hslot⟩, rfl, rfl, rfl, rfl, rfl,
        decide_eq_true_iff, rfl, haccepts,
        fun dst requestId fromName sent hmem => absurd hmem (hacks _ _ _ _)⟩)
  | forwarded now ok hjoined htoken hidle hcount =>
      obtain ⟨reports, token, _, _, hreports, _, heq⟩ := ringOnToken_cases state ok
      rw [heq]
      refine .inl (ringQuiet_of_silent ⟨rfl, rfl, rfl, rfl, rfl⟩ rfl hkept ?_)
      intro dst msg sent hmem
      rcases List.mem_append.mp hmem with hreport | hsend
      · rcases hreports _ hreport with ⟨_, hbad⟩ | ⟨_, hbad⟩ <;> cases hbad
      · cases List.mem_singleton.mp hsend
        exact .inr ⟨token, rfl⟩

end Local

end TokenRing
