import TokenRing.Cluster.World
import TokenRing.Coordinator

/-!
Who has joined, as far as routes and messages tell. Every predecessor entry
and every name in a message is that of a node that has joined; a successor
entry may also be that of a joiner whose coordinator still holds the token.
-/

namespace TokenRing

/-- The facts about names that one node and the messages to it rely on.
`joined` holds of names of nodes that have joined, `linked` also of those that
are being joined, and `genuine` pairs the ids of requests with the names of
their senders. -/
structure Names where
  joined : NodeName → Prop
  linked : NodeName → Prop
  genuine : UInt32 → NodeName → Prop
  linked_of_joined : ∀ name, joined name → linked name
  genuine_unique : ∀ requestId a b, genuine requestId a → genuine requestId b → a = b

/-- What the names in the state of one node stand for. -/
structure NodeKnows (names : Names) (state : RingState) : Prop where
  coordinator : CoordinatorInv state
  self : state.joined = true ↔ names.joined state.config.current.nodeName
  next : state.joined = true → names.linked state.config.next.nodeName
  prev : state.joined = true → names.joined state.config.prev.nodeName
  sender : state.ackSender.active = true → state.joined = true
  confirmed : state.joinInflight.active = true → state.joinInflight.gotConfirmJoiner = true →
    names.joined state.joinInflight.joiner.nodeName
  inflight : state.joinInflight.active = true →
    state.joinInflight.joiner.requestId = state.joinInflight.requestId ∧
      names.genuine state.joinInflight.requestId state.joinInflight.joiner.nodeName
  queue : ∀ i pending, state.joinState.joins i = some pending →
    names.genuine pending.requestId pending.nodeName
  request : state.joined = false →
    names.genuine state.joinRequestId state.config.current.nodeName

/-- What the names in a unicast message stand for. -/
def UnicastKnows (names : Names) : UnicastMsg → Prop
  | .joinAccept accept => names.joined accept.beforeName ∧ names.linked accept.newName ∧
      names.joined accept.prevName
  | .joinAck _ fromName => names.joined fromName
  | _ => True

/-- What the names in a broadcast stand for. -/
def BroadcastKnows (names : Names) : BroadcastMsg → Prop
  | .joinRequest request => names.genuine request.requestId request.nodeName
  | .joinCommit requestId newName _ => names.genuine requestId newName ∧ names.joined newName
  | .malformed => True

/-- What the message of an event tells. -/
def EventKnows (names : Names) : Event → Prop
  | .unicastMessage msg _ _ => UnicastKnows names msg
  | .broadcastMessage msg _ _ => BroadcastKnows names msg
  | _ => True

def EffectKnows (names : Names) : Effect → Prop
  | .unicast _ msg _ => UnicastKnows names msg
  | .broadcast msg => BroadcastKnows names msg
  | _ => True

/-- Later names: nobody leaves. -/
structure Names.Grows (names names' : Names) : Prop where
  joined : ∀ name, names.joined name → names'.joined name
  linked : ∀ name, names.linked name → names'.linked name
  genuine : ∀ requestId name, names.genuine requestId name ↔ names'.genuine requestId name

theorem Names.Grows.refl (names : Names) : names.Grows names :=
  ⟨fun _ => id, fun _ => id, fun _ _ => Iff.rfl⟩

section Step

variable {names names' : Names} {state state' : RingState} {event : Event} {out : List Effect}

/-- The joiner of a join that ends in this step has joined. -/
theorem Transition.joiner_joined (h : Transition state event state' out)
    (hknows : NodeKnows names state) (hevent : EventKnows names event)
    (hactive : state.joinInflight.active = true) (hidle : state'.joinInflight.active = false) :
    names.joined state.joinInflight.joiner.nodeName := by
  have hstays : state'.joinInflight.active = state.joinInflight.active → False := by
    intro heq
    rw [heq, hactive] at hidle
    cases hidle
  cases h with
  | completed event hquiet mid answers hactive hmid hprev hjoiner hanswers =>
      rcases hmid with rfl | ⟨fromName, now, ok, rfl, rfl⟩
      · exact hknows.confirmed hactive hjoiner
      · simp only [recordConfirm, Bool.or_eq_true, decide_eq_true_eq] at hjoiner
        rcases hjoiner with hold | hfrom
        · exact hknows.confirmed hactive hold
        · rw [← hfrom]
          exact hevent
  | commitCompleted newName topoVersion ip now joinState sender hshrinks hempty hsender hactive =>
      obtain ⟨hgenuine, hjoined⟩ := hevent
      rw [names.genuine_unique _ _ _ (hknows.inflight hactive).2 hgenuine]
      exact hjoined
  | joinStarted now ok pending joinState hjoined htoken hnone hpop =>
      rw [hnone] at hactive
      cases hactive
  | forwarded now ok hjoined htoken hnone hcount =>
      rw [hnone] at hactive
      cases hactive
  | _ => exact (hstays rfl).elim

/-- A transition that leaves the routes, `joined` and the join in flight alone
keeps what the node knows, as far as its queue and confirmations do. -/
theorem NodeKnows.carry (hknows : NodeKnows names state) (hgrows : names.Grows names')
    (hcoordinator : CoordinatorInv state')
    (hself : state'.joined = true ↔ names'.joined state'.config.current.nodeName)
    (hconfig : state'.config = state.config) (hjoined : state'.joined = state.joined)
    (hrequest : state'.joinRequestId = state.joinRequestId)
    (hsender : state'.ackSender.active = true → state.ackSender.active = true)
    (hactive : state'.joinInflight.active = state.joinInflight.active)
    (hid : state'.joinInflight.requestId = state.joinInflight.requestId)
    (hjoiner : state'.joinInflight.joiner = state.joinInflight.joiner)
    (hconfirmed : state.joinInflight.active = true →
      state'.joinInflight.gotConfirmJoiner = true →
      names'.joined state.joinInflight.joiner.nodeName)
    (hqueue : ∀ i pending, state'.joinState.joins i = some pending →
      names.genuine pending.requestId pending.nodeName) : NodeKnows names' state' where
  coordinator := hcoordinator
  self := hself
  next := by
    rw [hjoined, hconfig]
    exact fun h => hgrows.linked _ (hknows.next h)
  prev := by
    rw [hjoined, hconfig]
    exact fun h => hgrows.joined _ (hknows.prev h)
  sender := by
    rw [hjoined]
    exact fun h => hknows.sender (hsender h)
  confirmed := by
    rw [hactive, hjoiner]
    exact hconfirmed
  inflight := by
    rw [hactive, hid, hjoiner]
    exact fun h => ⟨(hknows.inflight h).1, (hgrows.genuine _ _).mp (hknows.inflight h).2⟩
  queue := fun i pending hslot => (hgrows.genuine _ _).mp (hqueue i pending hslot)
  request := by
    rw [hjoined, hrequest, hconfig]
    exact fun h => (hgrows.genuine _ _).mp (hknows.request h)

/-- The accepts that a coordinator sends out name nodes that have joined and
the joiner. -/
theorem inflightSends_know (ok : Nat → Bool)
    (hcurrent : names'.joined state.config.current.nodeName)
    (hprev : names'.joined state.config.prev.nodeName)
    (hjoiner : names'.linked state.joinInflight.joiner.nodeName) :
    ∀ effect ∈ inflightSends state ok, EffectKnows names' effect := by
  intro effect member
  rcases mem_inflightSends member with ⟨_, rfl⟩ | ⟨_, rfl⟩
  · exact ⟨hcurrent, hjoiner, hprev⟩
  · exact ⟨hcurrent, hjoiner, hprev⟩

theorem OnlyAckAcks.know {answers : List Effect} (h : OnlyAckAcks answers) :
    ∀ effect ∈ answers, EffectKnows names' effect := by
  intro effect member
  obtain ⟨_, _, _, _, rfl⟩ := h effect member
  trivial

theorem NodeKnows.recordConfirm {fromName : NodeName} (hknows : NodeKnows names state)
    (hfrom : names.joined fromName) : NodeKnows names (recordConfirm state fromName) := by
  refine hknows.carry (.refl names) (recordConfirm_inv hknows.coordinator fromName) hknows.self
    rfl rfl rfl id rfl rfl rfl (fun hactive hgot => ?_) hknows.queue
  simp only [TokenRing.recordConfirm, Bool.or_eq_true, decide_eq_true_eq] at hgot
  rcases hgot with hold | hsame
  · exact hknows.confirmed hactive hold
  · rwa [← hsame]

/-- A completion makes the joiner the predecessor, and possibly the successor,
and announces it. -/
theorem joinFsmComplete_knows (hknows : NodeKnows names state) (hgrows : names.Grows names')
    (hactive : state.joinInflight.active = true)
    (hgot : state.joinInflight.gotConfirmJoiner = true)
    (hself : state.joined = true ↔ names'.joined state.config.current.nodeName) :
    NodeKnows names' (joinFsmComplete state).1 ∧
      ∀ effect ∈ (joinFsmComplete state).2, EffectKnows names' effect := by
  have hjoiner := hgrows.joined _ (hknows.confirmed hactive hgot)
  have hgenuine := (hgrows.genuine _ _).mp (hknows.inflight hactive).2
  refine ⟨⟨joinFsmComplete_inv hknows.coordinator, hself, fun hjoined => ?_, fun _ => hjoiner,
    hknows.sender, nofun, nofun, fun i pending hslot => ?_,
    fun hunjoined => (hgrows.genuine _ _).mp (hknows.request hunjoined)⟩, fun effect member => ?_⟩
  · change names'.linked (if state.joinInflight.expectedPrevName = state.config.current.nodeName
      then state.joinInflight.joiner.route else state.config.next).nodeName
    split
    · exact names'.linked_of_joined _ hjoiner
    · exact hgrows.linked _ (hknows.next hjoined)
  · exact (hgrows.genuine _ _).mp
      ((complete_queue_shrinks _ _).all hknows.queue i pending hslot)
  · rw [List.mem_singleton.mp member]
    exact ⟨hgenuine, hjoiner⟩

/-- A node that joins takes over the neighbours named in its accept. -/
theorem NodeKnows.accept_joined {accept : JoinAccept} {joinState : JoinState}
    {sentAt : Option Int} (hknows : NodeKnows names state) (hgrows : names.Grows names')
    (haccept : UnicastKnows names (.joinAccept accept)) (hunjoined : state.joined = false)
    (hqueue : ∀ i pending, joinState.joins i = some pending →
      names.genuine pending.requestId pending.nodeName)
    (hafter : state' = { state with
      joinState := joinState
      config :=
        { state.config with
          prev := ⟨accept.prevName, accept.prevUnicastPort⟩
          next := ⟨accept.beforeName, accept.beforeUnicastPort⟩ }
      joined := true
      joinRequestLastSent := 0
      joinRequestRetries := 0
      ackSender := JoinAckSender.start accept sentAt })
    (hcoordinator : CoordinatorInv state')
    (hself : state'.joined = true ↔ names'.joined state'.config.current.nodeName) :
    NodeKnows names' state' := by
  obtain ⟨hbefore, _, hprev⟩ := haccept
  have hnone : state.joinInflight.active ≠ true := by
    intro hactive
    have hjoined := hknows.coordinator.token_joined (hknows.coordinator.active_token hactive)
    rw [hunjoined] at hjoined
    cases hjoined
  subst hafter
  constructor
  · exact hcoordinator
  · exact hself
  · intro _
    exact hgrows.linked _ (names.linked_of_joined _ hbefore)
  · intro _
    exact hgrows.joined _ hprev
  · intro _
    rfl
  · intro hactive
    exact absurd hactive hnone
  · intro hactive
    exact absurd hactive hnone
  · intro i pending hslot
    exact (hgrows.genuine _ _).mp (hqueue i pending hslot)
  · nofun

/-- A node that is named as the predecessor has joined, and takes over the
joiner as its successor. -/
theorem NodeKnows.accept_linked {accept : JoinAccept} {joinState : JoinState}
    {sentAt : Option Int} (hknows : NodeKnows names state) (hgrows : names.Grows names')
    (haccept : UnicastKnows names (.joinAccept accept))
    (hname : state.config.current.nodeName = accept.prevName)
    (hqueue : ∀ i pending, joinState.joins i = some pending →
      names.genuine pending.requestId pending.nodeName)
    (hafter : state' = { state with
      joinState := joinState
      config := { state.config with next := ⟨accept.newName, accept.newUnicastPort⟩ }
      joined := true
      ackSender := JoinAckSender.start accept sentAt })
    (hcoordinator : CoordinatorInv state')
    (hself : state'.joined = true ↔ names'.joined state'.config.current.nodeName) :
    NodeKnows names' state' := by
  obtain ⟨_, hnew, hprev⟩ := haccept
  have hjoined : state.joined = true := by
    apply hknows.self.mpr
    rw [hname]
    exact hprev
  subst hafter
  constructor
  · exact hcoordinator
  · exact hself
  · intro _
    exact hgrows.linked _ hnew
  · intro _
    exact hgrows.joined _ (hknows.prev hjoined)
  · intro _
    rfl
  · intro hactive hgot
    exact hgrows.joined _ (hknows.confirmed hactive hgot)
  · intro hactive
    obtain ⟨hid, hgenuine⟩ := hknows.inflight hactive
    exact ⟨hid, (hgrows.genuine _ _).mp hgenuine⟩
  · intro i pending hslot
    exact (hgrows.genuine _ _).mp (hqueue i pending hslot)
  · nofun

/-- A join is started for a node that waits. -/
theorem NodeKnows.join_started {pending : PendingJoin} {joinState : JoinState} {now : Int}
    (hknows : NodeKnows names state) (hgrows : names.Grows names') (hjoined : state.joined = true)
    (hpop : state.joinState.popOldestPendingJoin = some (pending, joinState))
    (hafter : state' = { state with
      joinState := joinState
      joinInflight :=
        { (joinFsmStartInflight state pending).joinInflight with
          lastSent := now, retries := 1 } })
    (hcoordinator : CoordinatorInv state')
    (hself : state'.joined = true ↔ names'.joined state'.config.current.nodeName) :
    NodeKnows names' state' := by
  obtain ⟨i, hslot, _⟩ := JoinState.popOldestPendingJoin_some hpop
  have hshrinks := JoinState.popOldestPendingJoin_shrinks hpop
  subst hafter
  constructor
  · exact hcoordinator
  · exact hself
  · intro _
    exact hgrows.linked _ (hknows.next hjoined)
  · intro _
    exact hgrows.joined _ (hknows.prev hjoined)
  · exact hknows.sender
  · nofun
  · intro _
    exact ⟨rfl, (hgrows.genuine _ _).mp (hknows.queue i pending hslot)⟩
  · intro j other hother
    exact (hgrows.genuine _ _).mp (hshrinks.all hknows.queue j other hother)
  · intro hunjoined
    exact (hgrows.genuine _ _).mp (hknows.request hunjoined)

/-- Along a transition the node goes on knowing joined names only, and so do
the messages it sends. -/
theorem Transition.knows (h : Transition state event state' out)
    (hknows : NodeKnows names state) (hevent : EventKnows names event)
    (hgrows : names.Grows names')
    (hself : state'.joined = true ↔ names'.joined state'.config.current.nodeName)
    (hjoiner : state'.joinInflight.active = true →
      names'.linked state'.joinInflight.joiner.nodeName) :
    NodeKnows names' state' ∧ ∀ effect ∈ out, EffectKnows names' effect := by
  have hcoordinator := (h.keeps hknows.coordinator).inv
  have hconfirmed : state.joinInflight.active = true →
      state.joinInflight.gotConfirmJoiner = true →
      names'.joined state.joinInflight.joiner.nodeName :=
    fun hactive hgot => hgrows.joined _ (hknows.confirmed hactive hgot)
  have hended : state.joinInflight.active = true → state'.joinInflight.active = false →
      names'.joined state.joinInflight.joiner.nodeName :=
    fun hactive hidle => hgrows.joined _ (h.joiner_joined hknows hevent hactive hidle)
  cases h with
  | idle =>
      exact ⟨hknows.carry hgrows hcoordinator hself rfl rfl rfl id rfl rfl rfl hconfirmed
        hknows.queue, by simp⟩
  | requestSent now retries hunjoined =>
      refine ⟨hknows.carry hgrows hcoordinator hself rfl rfl rfl id rfl rfl rfl hconfirmed
        hknows.queue, fun effect member => ?_⟩
      rw [List.mem_singleton.mp member]
      exact (hgrows.genuine _ _).mp (hknows.request hunjoined)
  | queueShrunk event hquiet joinState hshrinks =>
      exact ⟨hknows.carry hgrows hcoordinator hself rfl rfl rfl id rfl rfl rfl hconfirmed
        (hshrinks.all hknows.queue), by simp⟩
  | senderChanged event hquiet sender hsender =>
      exact ⟨hknows.carry hgrows hcoordinator hself rfl rfl rfl hsender.active rfl rfl rfl
        hconfirmed hknows.queue, by simp⟩
  | ackSent now ok sender hactive hgot hretries hsender =>
      refine ⟨hknows.carry hgrows hcoordinator hself rfl rfl rfl (fun _ => hactive) rfl rfl rfl
        hconfirmed hknows.queue, fun effect member => ?_⟩
      rw [List.mem_singleton.mp member]
      exact hself.mp (hknows.sender hactive)
  | acceptsSent now ok retries hactive =>
      have hjoined := hknows.coordinator.token_joined (hknows.coordinator.active_token hactive)
      exact ⟨hknows.carry hgrows hcoordinator hself rfl rfl rfl id rfl rfl rfl hconfirmed
        hknows.queue, inflightSends_know ok (hself.mp hjoined)
        (hgrows.joined _ (hknows.prev hjoined)) (hjoiner hactive)⟩
  | completed event hquiet mid answers hactive hmid hprev hgot hanswers =>
      have hmidknows : NodeKnows names mid := by
        rcases hmid with rfl | ⟨fromName, _, _, rfl, rfl⟩
        · exact hknows
        · exact hknows.recordConfirm hevent
      have hmidactive : mid.joinInflight.active = true := by
        rcases hmid with rfl | ⟨_, _, _, _, rfl⟩ <;> exact hactive
      obtain ⟨hafter, hcommit⟩ := joinFsmComplete_knows hmidknows hgrows hmidactive hgot hself
      refine ⟨hafter, fun effect member => ?_⟩
      rcases List.mem_append.mp member with hsent | hanswer
      · exact hcommit effect hsent
      · exact hanswers.know effect hanswer
  | ackAnswered requestId fromName now ok answers hanswers =>
      exact ⟨hknows.carry hgrows hcoordinator hself rfl rfl rfl id rfl rfl rfl hconfirmed
        hknows.queue, hanswers.know⟩
  | confirmed fromName now ok answers hactive hanswers =>
      refine ⟨hknows.carry hgrows hcoordinator hself rfl rfl rfl id rfl rfl rfl
        (fun hactive hgot => ?_) hknows.queue, hanswers.know⟩
      simp only [recordConfirm, Bool.or_eq_true, decide_eq_true_eq] at hgot
      rcases hgot with hold | hfrom
      · exact hconfirmed hactive hold
      · rw [← hfrom]
        exact hgrows.joined _ hevent
  | tokenStored token now ok hunjoined =>
      exact ⟨hknows.carry hgrows hcoordinator hself rfl rfl rfl id rfl rfl rfl hconfirmed
        hknows.queue, by simp⟩
  | tokenTaken token now ok joinState hjoined hshrinks hempty =>
      exact ⟨hknows.carry hgrows hcoordinator hself rfl rfl rfl id rfl rfl rfl hconfirmed
        (hshrinks.all hknows.queue), by simp⟩
  | acceptJoined accept now ok joinState sentAt hshrinks hname hunjoined hid =>
      refine ⟨hknows.accept_joined hgrows hevent hunjoined (hshrinks.all hknows.queue) rfl
        hcoordinator hself, fun effect member => ?_⟩
      rw [List.mem_singleton.mp member]
      exact hself.mp rfl
  | acceptLinked accept now ok joinState sentAt hshrinks hother hname hnext =>
      refine ⟨hknows.accept_linked hgrows hevent hname (hshrinks.all hknows.queue) rfl
        hcoordinator hself, fun effect member => ?_⟩
      rw [List.mem_singleton.mp member]
      exact hself.mp rfl
  | enqueued request ip now joinState hother hnotjoiner hcompleted hadd =>
      refine ⟨hknows.carry hgrows hcoordinator hself rfl rfl rfl id rfl rfl rfl hconfirmed
        (fun i pending hslot => ?_), by simp⟩
      rcases JoinState.addPendingJoin_entry hadd i pending hslot with rfl | hold
      · exact hevent
      · exact hknows.queue i pending hold
  | commitSeen requestId newName topoVersion ip now joinState sender hshrinks hempty hsender
      hmatch =>
      exact ⟨hknows.carry hgrows hcoordinator hself rfl rfl rfl hsender.active rfl rfl rfl
        hconfirmed (hshrinks.all hknows.queue), by simp⟩
  | commitCompleted newName topoVersion ip now joinState sender hshrinks hempty hsender hactive =>
      have hjoined := hended hactive rfl
      exact ⟨⟨hcoordinator, hself, fun hself' => hgrows.linked _ (hknows.next hself'),
        fun _ => hjoined, fun hsending => hknows.sender (hsender.active hsending),
        by simp [JoinInflight.finish], by simp [JoinInflight.finish],
        fun i pending hslot => (hgrows.genuine _ _).mp (hshrinks.all hknows.queue i pending hslot),
        fun hself' => (hgrows.genuine _ _).mp (hknows.request hself')⟩, by simp⟩
  | recordRead record hempty =>
      refine ⟨hknows.carry hgrows hcoordinator hself rfl rfl rfl id rfl rfl rfl hconfirmed
        hknows.queue, fun effect member => ?_⟩
      rw [List.mem_singleton.mp member]
      trivial
  | joinStarted now ok pending joinState hjoined htoken hidle hpop =>
      refine ⟨hknows.join_started hgrows hjoined hpop rfl hcoordinator hself, ?_⟩
      exact inflightSends_know ok (hself.mp hjoined) (hgrows.joined _ (hknows.prev hjoined))
        (hjoiner rfl)
  | forwarded now ok hjoined htoken hidle hcount =>
      obtain ⟨reports, sent, cliPending, haveCliPending, hreports, _, heq⟩ :=
        ringOnToken_cases state ok
      rw [heq] at hcoordinator hself ⊢
      refine ⟨hknows.carry hgrows hcoordinator hself rfl rfl rfl id rfl rfl rfl hconfirmed
        hknows.queue, fun effect member => ?_⟩
      rcases List.mem_append.mp member with hreport | hsend
      · rcases hreports effect hreport with ⟨_, rfl⟩ | ⟨_, rfl⟩ <;> trivial
      · rw [List.mem_singleton.mp hsend]
        trivial

theorem NodeKnows.grow (hknows : NodeKnows names state) (hgrows : names.Grows names')
    (hself : state.joined = true ↔ names'.joined state.config.current.nodeName) :
    NodeKnows names' state :=
  hknows.carry hgrows hknows.coordinator hself rfl rfl rfl id rfl rfl rfl
    (fun hactive hgot => hgrows.joined _ (hknows.confirmed hactive hgot)) hknows.queue

theorem UnicastKnows.grow {msg : UnicastMsg} (hknows : UnicastKnows names msg)
    (hgrows : names.Grows names') : UnicastKnows names' msg := by
  cases msg with
  | joinAccept accept =>
      exact ⟨hgrows.joined _ hknows.1, hgrows.linked _ hknows.2.1, hgrows.joined _ hknows.2.2⟩
  | joinAck requestId fromName => exact hgrows.joined _ hknows
  | _ => trivial

theorem BroadcastKnows.grow {msg : BroadcastMsg} (hknows : BroadcastKnows names msg)
    (hgrows : names.Grows names') : BroadcastKnows names' msg := by
  cases msg with
  | joinRequest request => exact (hgrows.genuine _ _).mp hknows
  | joinCommit requestId newName topoVersion =>
      exact ⟨(hgrows.genuine _ _).mp hknows.1, hgrows.joined _ hknows.2⟩
  | malformed => trivial

end Step

section World

variable {ι : Type*} {d : Deployment ι} {w w' : World ι}

/-- The names in a state of the whole system. -/
def World.names (w : World ι) (d : Deployment ι) : Names where
  joined name := ∀ i, (d.self i).nodeName = name → (w.state i).joined = true
  linked name := (∀ i, (d.self i).nodeName = name → (w.state i).joined = true) ∨
    ∃ i, (w.state i).joinInflight.active = true ∧
      (w.state i).joinInflight.joiner.nodeName = name
  genuine requestId name := ∃ i, d.member i = false ∧ d.requestId i = requestId ∧
    (d.self i).nodeName = name
  linked_of_joined _ h := .inl h
  genuine_unique := by
    rintro requestId a b ⟨i, hi, hiid, rfl⟩ ⟨j, hj, hjid, rfl⟩
    rw [d.ids_distinct i j hi hj (hiid.trans hjid.symm)]

structure World.Knows (w : World ι) (d : Deployment ι) : Prop where
  nodes : ∀ i, NodeKnows (w.names d) (w.state i)
  inboxes : ∀ i, ∀ msg ∈ w.inbox i, UnicastKnows (w.names d) msg
  announced : ∀ msg ∈ w.announced, BroadcastKnows (w.names d) msg

/-- The only node with the name of `i` is `i`. -/
theorem World.names_joined_self (i : ι) :
    (w.names d).joined (d.self i).nodeName ↔ (w.state i).joined = true := by
  constructor
  · intro h
    exact h i rfl
  · intro h j hname
    rwa [d.names_distinct j i hname]

theorem Deployment.next_member {i : ι} (h : d.member i = true) : d.member (d.next i) = true :=
  d.ring.apply_mem_iff.mpr h

theorem Deployment.prev_member {i : ι} (h : d.member i = true) :
    d.member (d.next.symm i) = true := by
  have hback : d.next (d.next.symm i) ∈ {j | d.member j = true} := by simpa using h
  exact d.ring.apply_mem_iff.mp hback

theorem Deployment.start_knows [DecidableEq ι] (d : Deployment ι) : d.start.Knows d := by
  have hjoined : ∀ i, (d.start.state i).joined = d.member i := by
    intro i
    obtain ⟨tokenIn, _, hstart⟩ := d.start_state i
    rw [hstart]
    rfl
  refine ⟨fun i => ?_, by simp [Deployment.start], by simp [Deployment.start]⟩
  have hself := World.names_joined_self (d := d) (w := d.start) i
  have hcoordinator : CoordinatorInv (d.start.state i) := coordinatorInv_start _ _ _ _
  have hmember := hjoined i
  obtain ⟨tokenIn, _, hstart⟩ := d.start_state i
  rw [hstart] at hself hcoordinator hmember ⊢
  have hfalse : ∀ {p : Prop}, false = true → p := Bool.noConfusion
  cases h : d.member i with
  | true =>
      simp only [RingState.init, Deployment.config, h, if_true] at hself hcoordinator ⊢
      refine ⟨hcoordinator, by simpa using hself, fun _ => .inl ?_, fun _ => ?_,
        hfalse, hfalse, hfalse,
        fun _ pending hslot => absurd hslot.symm (Option.some_ne_none pending),
        fun hnot => Bool.noConfusion hnot⟩
      · exact World.names_joined_self _ |>.mpr ((hjoined _).trans (d.next_member h))
      · exact World.names_joined_self _ |>.mpr ((hjoined _).trans (d.prev_member h))
  | false =>
      simp only [RingState.init, Deployment.config, h] at hself hcoordinator ⊢
      exact ⟨hcoordinator, by simpa using hself, hfalse, hfalse, hfalse, hfalse, hfalse,
        fun _ pending hslot => absurd hslot.symm (Option.some_ne_none pending),
        fun _ => ⟨i, h, by simp, rfl⟩⟩

variable {i : ι} {event : Event} {out : List Effect}

/-- Nobody leaves: a step of the world lets the joined and linked names
grow. -/
theorem World.Moves.grows (h : w.Moves i event out w') (hknows : w.Knows d)
    (hevent : EventKnows (w.names d) event) : (w.names d).Grows (w'.names d) := by
  have hjoined : ∀ j, (w.state j).joined = true → (w'.state j).joined = true := by
    intro j hj
    by_cases hji : j = i
    · rw [hji] at hj ⊢
      exact h.transition.identity.2.2 hj
    · rwa [h.others j hji]
  refine ⟨fun name hname j hj => hjoined j (hname j hj), ?_, fun _ _ => Iff.rfl⟩
  rintro name (hname | ⟨j, hactive, hjoiner⟩)
  · exact .inl fun j hj => hjoined j (hname j hj)
  · by_cases hji : j = i
    · subst hji
      cases hactive' : (w'.state j).joinInflight.active with
      | true =>
          have hsame := (h.transition.keeps (hknows.nodes j).coordinator).same_joiner hactive
            hactive'
          exact .inr ⟨j, hactive', by rw [hsame]; exact hjoiner⟩
      | false =>
          have hended := h.transition.joiner_joined (hknows.nodes j) hevent hactive hactive'
          rw [hjoiner] at hended
          exact .inl fun k hk => hjoined k (hended k hk)
    · exact .inr ⟨j, by rw [h.others j hji]; exact ⟨hactive, hjoiner⟩⟩

theorem World.Knows.received (hknows : w.Knows d) (hoffers : w.Offers i event) :
    EventKnows (w.names d) event := by
  cases event with
  | unicastMessage msg now ok => exact hknows.inboxes i msg hoffers
  | broadcastMessage msg ip now => exact hknows.announced msg hoffers
  | _ => trivial

theorem World.Moves.knows (h : w.Moves i event out w') (hknows : w.Knows d)
    (hcurrent : ∀ j, (w'.state j).config.current = d.self j) : w'.Knows d := by
  have hevent := hknows.received h.offers
  have hgrows := h.grows hknows hevent
  have hself : ∀ j, (w'.state j).joined = true ↔
      (w'.names d).joined (w'.state j).config.current.nodeName := by
    intro j
    rw [hcurrent j]
    exact (World.names_joined_self j).symm
  obtain ⟨hnode, heffects⟩ := h.transition.knows (hknows.nodes i) hevent hgrows (hself i)
    (fun hactive => .inr ⟨i, hactive, rfl⟩)
  refine ⟨fun j => ?_, fun j msg hmsg => ?_, fun msg hmsg => ?_⟩
  · by_cases hji : j = i
    · rw [hji]
      exact hnode
    · have hsame := h.others j hji
      rw [hsame]
      refine (hknows.nodes j).grow hgrows ?_
      rw [← hsame]
      exact hself j
  · rcases h.mem_inbox hmsg with hold | hsent
    · exact (hknows.inboxes j msg hold).grow hgrows
    · exact heffects _ hsent
  · rcases h.mem_announced.mp hmsg with hold | hsent
    · exact (hknows.announced msg hold).grow hgrows
    · exact heffects _ hsent

theorem reachable_knows [Fintype ι] [DecidableEq ι]
    (h : Lts.Reachable World.step d.start w) : w.Knows d := by
  refine h.invariant_on (fun w => w.Knows d) d.start_knows ?_
  intro w label w' hreach hknows _ hstep
  obtain ⟨out, hmoves⟩ := World.moves_of_step hstep
  exact hmoves.knows hknows fun j => (reachable_identity (hreach.tail trivial hstep) j).1

end World

end TokenRing
