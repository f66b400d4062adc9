import TokenRing.Lib.Lts
import TokenRing.Transition

/-!
The token holder and the coordinator of a join at one node. The invariant is
kept by every handler, whatever messages, clock values and send outcomes the
environment supplies, so it holds along every run of the event loop.
-/

namespace TokenRing

/-- What links the token flag, the join in flight and the waiting queue. -/
structure CoordinatorInv (state : RingState) : Prop where
  token_joined : state.haveToken = true → state.joined = true
  active_token : state.joinInflight.active = true → state.haveToken = true
  expected_prev : state.joinInflight.active = true →
    state.joinInflight.expectedPrevName = state.config.prev.nodeName
  joiner_other : state.joinInflight.active = true →
    state.joinInflight.joiner.nodeName ≠ state.config.current.nodeName
  queue_other : ∀ i pending, state.joinState.joins i = some pending →
    pending.nodeName ≠ state.config.current.nodeName

/-- The state in which `handle_join_ack_u` asks whether the join is complete;
for any other event it is the state before it. -/
def confirmedBy (state : RingState) : Event → RingState
  | .unicastMessage (.joinAck requestId fromName) _ _ =>
      if state.joinInflight.active = true ∧ state.joinInflight.requestId = requestId then
        recordConfirm state fromName
      else
        state
  | _ => state

/-- The two ways in which a join in flight may end at this event: both
confirmations are recorded, or a `JOIN_COMMIT` carries its request id. -/
def MayEndJoin (state : RingState) (event : Event) : Prop :=
  ((confirmedBy state event).joinInflight.gotConfirmPrev = true ∧
    (confirmedBy state event).joinInflight.gotConfirmJoiner = true) ∨
  ∃ newName topoVersion ip now, event =
    .broadcastMessage (.joinCommit state.joinInflight.requestId newName topoVersion) ip now

/-- What one handler call keeps, given the invariant before it. -/
structure StepKeeps (state : RingState) (event : Event) (state' : RingState)
    (out : List Effect) : Prop where
  inv : CoordinatorInv state'
  forwards : ∀ dst token ok, .unicast dst (.token token) ok ∈ out →
    state.joinInflight.active = false ∧ state'.joinInflight.active = false
  prev_entry : state.joinInflight.active = true → state'.config.prev ≠ state.config.prev →
    state'.joinInflight.active = false ∧
      state'.config.prev = state.joinInflight.joiner.route
  joined : state.joined = true → state'.joined = true
  ends : state.joinInflight.active = true → state'.joinInflight.active = false →
    MayEndJoin state event
  same_joiner : state.joinInflight.active = true → state'.joinInflight.active = true →
    state'.joinInflight.joiner = state.joinInflight.joiner

/-- The fields of the in-flight record that the invariant reads. -/
structure SameJoin (inflight inflight' : JoinInflight) : Prop where
  active : inflight'.active = inflight.active
  joiner : inflight'.joiner = inflight.joiner
  expected : inflight'.expectedPrevName = inflight.expectedPrevName

theorem SameJoin.refl (inflight : JoinInflight) : SameJoin inflight inflight := ⟨rfl, rfl, rfl⟩

/-- The invariant after a change that leaves the routes, the token flag and
the join in flight as they were and adds no waiting node of this name. -/
theorem CoordinatorInv.of_same {state state' : RingState} (h : CoordinatorInv state)
    (hconfig : state'.config = state.config) (hjoined : state'.joined = state.joined)
    (htoken : state'.haveToken = state.haveToken)
    (hjoin : SameJoin state.joinInflight state'.joinInflight)
    (hqueue : ∀ i pending, state'.joinState.joins i = some pending →
      pending.nodeName ≠ state.config.current.nodeName) : CoordinatorInv state' where
  token_joined := by rw [hjoined, htoken]; exact h.token_joined
  active_token := by rw [hjoin.active, htoken]; exact h.active_token
  expected_prev := by rw [hjoin.active, hjoin.expected, hconfig]; exact h.expected_prev
  joiner_other := by rw [hjoin.active, hjoin.joiner, hconfig]; exact h.joiner_other
  queue_other := by rw [hconfig]; exact hqueue

/-- A handler call of that kind that sends no token. -/
theorem StepKeeps.of_same {state state' : RingState} {out : List Effect}
    (h : CoordinatorInv state) (event : Event)
    (hconfig : state'.config = state.config) (hjoined : state'.joined = state.joined)
    (htoken : state'.haveToken = state.haveToken)
    (hjoin : SameJoin state.joinInflight state'.joinInflight)
    (hqueue : ∀ i pending, state'.joinState.joins i = some pending →
      pending.nodeName ≠ state.config.current.nodeName)
    (hout : ∀ dst token ok, .unicast dst (.token token) ok ∉ out) :
    StepKeeps state event state' out where
  inv := h.of_same hconfig hjoined htoken hjoin hqueue
  forwards := fun dst token ok member => absurd member (hout dst token ok)
  prev_entry := fun _ hne => absurd (by rw [hconfig]) hne
  joined := by rw [hjoined]; exact id
  ends := fun hactive hidle => by
    rw [hjoin.active, hactive] at hidle
    cases hidle
  same_joiner := fun _ _ => hjoin.joiner

theorem recordConfirm_inv {state : RingState} (h : CoordinatorInv state)
    (fromName : NodeName) : CoordinatorInv (recordConfirm state fromName) :=
  h.of_same rfl rfl rfl ⟨rfl, rfl, rfl⟩ h.queue_other

theorem joinFsmComplete_inv {state : RingState} (h : CoordinatorInv state) :
    CoordinatorInv (joinFsmComplete state).1 where
  token_joined := h.token_joined
  active_token := by simp [joinFsmComplete, JoinInflight.finish]
  expected_prev := by simp [joinFsmComplete, JoinInflight.finish]
  joiner_other := by simp [joinFsmComplete, JoinInflight.finish]
  queue_other := (complete_queue_shrinks _ _).all h.queue_other

/-- A completion from a state that differs from the one before the event in
recorded confirmations only. -/
theorem joinFsmComplete_keeps {state mid : RingState} {answers : List Effect} (event : Event)
    (hmid : CoordinatorInv mid) (hjoined : mid.joined = state.joined)
    (hjoiner : mid.joinInflight.joiner = state.joinInflight.joiner)
    (hanswers : OnlyAckAcks answers) (hend : MayEndJoin state event) :
    StepKeeps state event (joinFsmComplete mid).1 ((joinFsmComplete mid).2 ++ answers) where
  inv := joinFsmComplete_inv hmid
  forwards := by
    intro dst token ok member
    rcases List.mem_append.mp member with hcommit | hanswer
    · simp [joinFsmComplete] at hcommit
    · obtain ⟨_, _, _, _, heq⟩ := hanswers _ hanswer
      cases heq
  prev_entry := fun _ _ => ⟨rfl, by simp [joinFsmComplete, hjoiner]⟩
  joined := by
    intro hj
    simpa [joinFsmComplete, hjoined] using hj
  ends := fun _ _ => hend
  same_joiner := by simp [joinFsmComplete, JoinInflight.finish]

/-- The confirmations that complete a join are recorded when the event asks
for them. -/
theorem confirmedBy_of_mid {state mid : RingState} {event : Event}
    (hactive : state.joinInflight.active = true)
    (hmid : mid = state ∨ ∃ fromName now ok,
      event = .unicastMessage (.joinAck state.joinInflight.requestId fromName) now ok ∧
      mid = recordConfirm state fromName)
    (hprev : mid.joinInflight.gotConfirmPrev = true)
    (hjoiner : mid.joinInflight.gotConfirmJoiner = true) :
    (confirmedBy state event).joinInflight.gotConfirmPrev = true ∧
      (confirmedBy state event).joinInflight.gotConfirmJoiner = true := by
  rcases hmid with rfl | ⟨fromName, now, ok, rfl, rfl⟩
  · unfold confirmedBy
    split
    · split
      · simp [recordConfirm, hprev, hjoiner]
      · exact ⟨hprev, hjoiner⟩
    · exact ⟨hprev, hjoiner⟩
  · simp only [confirmedBy, hactive, and_self, if_true]
    exact ⟨hprev, hjoiner⟩

/-- Every transition keeps the invariant and the properties of a step. -/
theorem Transition.keeps {state state' : RingState} {event : Event} {out : List Effect}
    (h : CoordinatorInv state) (hstep : Transition state event state' out) :
    StepKeeps state event state' out := by
  cases hstep with
  | idle => exact .of_same h _ rfl rfl rfl (.refl _) h.queue_other (by simp)
  | requestSent now retries hunjoined =>
      exact .of_same h _ rfl rfl rfl (.refl _) h.queue_other (by simp)
  | queueShrunk event hevent joinState hshrinks =>
      exact .of_same h _ rfl rfl rfl (.refl _) (hshrinks.all h.queue_other) (by simp)
  | senderChanged event hevent sender hsender =>
      exact .of_same h _ rfl rfl rfl (.refl _) h.queue_other (by simp)
  | ackSent now ok sender hactive hgot hretries hsender =>
      exact .of_same h _ rfl rfl rfl (.refl _) h.queue_other (by simp)
  | acceptsSent now ok retries hactive =>
      exact .of_same h _ rfl rfl rfl ⟨rfl, rfl, rfl⟩ h.queue_other
        (inflightSends_no_token state ok)
  | completed event hevent mid answers hactive hmid hprev hjoiner hanswers =>
      have hend := confirmedBy_of_mid hactive hmid hprev hjoiner
      rcases hmid with rfl | ⟨fromName, _, _, _, rfl⟩
      · exact joinFsmComplete_keeps _ h rfl rfl hanswers (.inl hend)
      · exact joinFsmComplete_keeps _ (recordConfirm_inv h fromName) rfl rfl hanswers (.inl hend)
  | ackAnswered requestId fromName now ok answers hanswers =>
      refine .of_same h _ rfl rfl rfl (.refl _) h.queue_other fun dst token sent member => ?_
      obtain ⟨_, _, _, _, heq⟩ := hanswers _ member
      cases heq
  | confirmed fromName now ok answers hactive hanswers =>
      refine .of_same h _ rfl rfl rfl ⟨rfl, rfl, rfl⟩ h.queue_other
        fun dst token sent member => ?_
      obtain ⟨_, _, _, _, heq⟩ := hanswers _ member
      cases heq
  | tokenStored token now ok hunjoined =>
      exact .of_same h _ rfl rfl rfl (.refl _) h.queue_other (by simp)
  | tokenTaken token now ok joinState hjoined hshrinks hempty =>
      refine ⟨⟨fun _ => hjoined, fun _ => rfl, h.expected_prev, h.joiner_other,
        hshrinks.all h.queue_other⟩, by simp, fun _ hne => absurd rfl hne, id, ?_,
        fun _ _ => rfl⟩
      intro hactive hidle
      rw [hactive] at hidle
      cases hidle
  | acceptJoined accept now ok joinState sentAt hshrinks hself hunjoined hid =>
      -- a node that has not joined coordinates nothing
      have hidle : state.joinInflight.active ≠ true := by
        intro hactive
        have hjoined := h.token_joined (h.active_token hactive)
        rw [hunjoined] at hjoined
        cases hjoined
      exact ⟨⟨fun _ => rfl, fun hactive => absurd hactive hidle,
        fun hactive => absurd hactive hidle, fun hactive => absurd hactive hidle,
        hshrinks.all h.queue_other⟩, by simp, fun hactive => absurd hactive hidle,
        fun _ => rfl, fun hactive => absurd hactive hidle, fun _ _ => rfl⟩
  | acceptLinked accept now ok joinState sentAt hshrinks hother hself hnext =>
      refine ⟨⟨fun _ => rfl, h.active_token, h.expected_prev, h.joiner_other,
        hshrinks.all h.queue_other⟩, by simp, fun _ hne => absurd rfl hne, fun _ => rfl, ?_,
        fun _ _ => rfl⟩
      intro hactive hidle
      rw [hactive] at hidle
      cases hidle
  | enqueued request ip now joinState hother hjoiner hcompleted hadd =>
      refine .of_same h _ rfl rfl rfl (.refl _) ?_ (by simp)
      intro i pending hslot
      rcases JoinState.addPendingJoin_entry hadd i pending hslot with rfl | hold
      · exact hother
      · exact h.queue_other i pending hold
  | commitSeen requestId newName topoVersion ip now joinState sender hshrinks hempty hsender
      hmatch =>
      exact .of_same h _ rfl rfl rfl (.refl _) (hshrinks.all h.queue_other) (by simp)
  | commitCompleted newName topoVersion ip now joinState sender hshrinks hempty hsender hactive =>
      exact ⟨⟨h.token_joined, by simp [JoinInflight.finish], by simp [JoinInflight.finish],
        by simp [JoinInflight.finish], hshrinks.all h.queue_other⟩, by simp,
        fun _ _ => ⟨rfl, rfl⟩, id, fun _ _ => .inr ⟨newName, topoVersion, ip, now, rfl⟩,
        by simp [JoinInflight.finish]⟩
  | recordRead record hempty =>
      exact .of_same h _ rfl rfl rfl (.refl _) h.queue_other (by simp)
  | joinStarted now ok pending joinState hjoined htoken hidle hpop =>
      obtain ⟨i, hslot, _⟩ := JoinState.popOldestPendingJoin_some hpop
      have hshrinks := JoinState.popOldestPendingJoin_shrinks hpop
      refine ⟨⟨h.token_joined, fun _ => htoken, fun _ => rfl,
        fun _ => h.queue_other i pending hslot, hshrinks.all h.queue_other⟩,
        fun dst token sent member =>
          absurd member (inflightSends_no_token _ ok dst token sent), ?_, id, ?_, ?_⟩
      all_goals simp [hidle]
  | forwarded now ok hjoined htoken hidle hcount =>
      obtain ⟨reports, sent, cliPending, haveCliPending, _, _, heq⟩ := ringOnToken_cases state ok
      rw [heq]
      refine ⟨⟨fun _ => hjoined, ?_, h.expected_prev, h.joiner_other, h.queue_other⟩,
        fun _ _ _ _ => ⟨hidle, hidle⟩, fun _ hne => absurd rfl hne, id, ?_, fun _ _ => rfl⟩
      all_goals simp [hidle]

/-- The state part of a step of `ring_run`. -/
def Node.next (node : Node) (event : Event) : Option Node := (node.step event).map Prod.fst

theorem coordinatorInv_start (config : RouteConfig) (joined shouldStart : Bool)
    (requestId : UInt32) :
    CoordinatorInv (Node.start config joined shouldStart requestId).state := by
  obtain ⟨tokenIn, _, hstart⟩ := Node.start_state config joined shouldStart requestId
  rw [hstart]
  refine ⟨fun htoken => ?_, by simp [RingState.init, JoinInflight.zero],
    by simp [RingState.init, JoinInflight.zero], by simp [RingState.init, JoinInflight.zero], ?_⟩
  · simp only [Bool.and_eq_true] at htoken
    exact htoken.1
  · intro i pending hslot
    cases hslot

theorem coordinatorInv_reachable {config : RouteConfig} {joined shouldStart : Bool}
    {requestId : UInt32} {node : Node}
    (h : Lts.Reachable Node.next (Node.start config joined shouldStart requestId) node) :
    CoordinatorInv node.state := by
  refine h.invariant (fun node => CoordinatorInv node.state)
    (coordinatorInv_start config joined shouldStart requestId) ?_
  intro node event node' hinv _ hnext
  obtain ⟨result, hstep, rfl⟩ := Option.map_eq_some_iff.mp hnext
  rcases Node.step_cases hstep with hhandle | ⟨_, hsame, _⟩
  · exact ((event.handle_transition hhandle).keeps hinv).inv
  · rw [hsame]
    exact hinv

/-- Along every run of the event loop the token holder has joined, the
coordinator of a join holds the token, expects its own predecessor and joins
another node; a step sends the token only with no join in flight, replaces the
predecessor during a join only by completing it, never resets `joined`, and
ends a join only on both confirmations or a `JOIN_COMMIT` with its id. -/
theorem token_holder_and_coordinator (config : RouteConfig) (joined shouldStart : Bool)
    (requestId : UInt32) (node : Node)
    (h : Lts.Reachable Node.next (Node.start config joined shouldStart requestId) node) :
    (node.state.haveToken = true → node.state.joined = true) ∧
    (node.state.joinInflight.active = true →
      node.state.haveToken = true ∧ node.state.joined = true ∧
      node.state.joinInflight.expectedPrevName = node.state.config.prev.nodeName ∧
      node.state.joinInflight.joiner.nodeName ≠ node.state.config.current.nodeName) ∧
    ∀ event node' out, node.step event = some (node', out) →
      (∀ dst token ok, .unicast dst (.token token) ok ∈ out →
        node.state.joinInflight.active = false ∧ node'.state.joinInflight.active = false) ∧
      (node.state.joinInflight.active = true →
        node'.state.config.prev ≠ node.state.config.prev →
        node'.state.joinInflight.active = false ∧
          node'.state.config.prev = node.state.joinInflight.joiner.route) ∧
      (node.state.joined = true → node'.state.joined = true) ∧
      (node.state.joinInflight.active = true → node'.state.joinInflight.active = false →
        MayEndJoin node.state event) := by
  have hinv := coordinatorInv_reachable h
  refine ⟨hinv.token_joined, fun hactive => ⟨hinv.active_token hactive,
    hinv.token_joined (hinv.active_token hactive), hinv.expected_prev hactive,
    hinv.joiner_other hactive⟩, ?_⟩
  intro event node' out hstep
  rcases Node.step_cases hstep with hhandle | ⟨_, hsame, rfl⟩
  · have hkeeps := (event.handle_transition hhandle).keeps hinv
    exact ⟨hkeeps.forwards, hkeeps.prev_entry, hkeeps.joined, hkeeps.ends⟩
  · rw [hsame]
    refine ⟨by simp, fun _ hne => absurd rfl hne, id, fun hactive hidle => ?_⟩
    rw [hactive] at hidle
    cases hidle

/-- The node `A`, alone in its ring, passes once through its loop, reads the
request of `B` and takes it up. -/
def takeUpFirstJoin : List Event :=
  [.joinAckSenderTick 10 (fun _ => true), .pruneJoins 10, .joinFsmRequestTick 10 true,
    .joinFsmInflightTick 10 (fun _ => true), .selectReady, .unicastIdle,
    .joinFsmMaybeComplete false,
    .broadcastMessage (.joinRequest ⟨7, NodeName.ofBytes [66], 5002⟩) 0 10, .cliIdle,
    .handleTokenIfReady 11 (fun _ => true)]

theorem first_join_holds_token :
    ∃ node, Lts.Reachable Node.next (Node.start ⟨⟨NodeName.ofBytes [65], 5001⟩,
        ⟨NodeName.ofBytes [65], 5001⟩, ⟨NodeName.ofBytes [65], 5001⟩⟩ true true 0) node ∧
      node.state.joinInflight.active = true ∧ node.state.haveToken = true ∧
      node.state.joined = true ∧
      node.state.joinInflight.expectedPrevName = node.state.config.prev.nodeName ∧
      node.state.joinInflight.joiner.nodeName ≠ node.state.config.current.nodeName := by
  have hrun : (Lts.exec Node.next (Node.start ⟨⟨NodeName.ofBytes [65], 5001⟩,
      ⟨NodeName.ofBytes [65], 5001⟩, ⟨NodeName.ofBytes [65], 5001⟩⟩ true true 0)
      takeUpFirstJoin).map (fun node => node.state.joinInflight.active) = some true := by
    decide +kernel
  obtain ⟨node, hexec, hactive⟩ := Option.map_eq_some_iff.mp hrun
  have hreach := Lts.reachable_of_exec hexec
  exact ⟨node, hreach, hactive,
    (token_holder_and_coordinator _ true true 0 node hreach).2.1 hactive⟩

end TokenRing
