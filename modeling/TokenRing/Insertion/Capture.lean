import TokenRing.Insertion.Insert

/-!
Whether a join can still be finished. The two partners of the coordinator
confirm when they apply the accept, and repeat that confirmation a bounded
number of times; an accept that they have applied before is not answered.
-/

namespace TokenRing

/-- The record repeats its acknowledgement once more. -/
def JoinAckSender.Live (sender : JoinAckSender) : Prop :=
  sender.active = true ∧ sender.gotAckAck = false ∧ sender.retries < joinAckMaxRetries

instance (sender : JoinAckSender) : Decidable sender.Live :=
  inferInstanceAs (Decidable (_ ∧ _ ∧ _))

theorem JoinAckSender.Wanes.live {before after : JoinAckSender} (h : before.Wanes after)
    (hlive : after.Live) : before.Live :=
  ⟨h.active hlive.1, h.gotAckAck hlive.2.1, lt_of_le_of_lt h.retries hlive.2.2⟩

/-- The event hands the node an accept that it can apply. -/
def AppliesAccept (state : RingState) (event : Event) : Prop :=
  ∃ accept now ok, event = .unicastMessage (.joinAccept accept) now ok ∧
    ((state.joined = false ∧ state.config.current.nodeName = accept.newName) ∨
      (state.config.current.nodeName = accept.prevName ∧
        state.config.next.nodeName = accept.beforeName))

section Steps

variable {state state' : RingState} {event : Event} {out : List Effect}

theorem inflightSends_no_ack {ok : Nat → Bool} {effect : Effect}
    (hmem : effect ∈ inflightSends state ok) {dst : Route} {requestId : UInt32}
    {fromName : NodeName} : effect.packet ≠ some (.unicast dst (.joinAck requestId fromName)) := by
  rcases mem_inflightSends hmem with ⟨_, rfl⟩ | ⟨_, rfl⟩ <;> nofun

theorem OnlyAckAcks.no_ack (h : OnlyAckAcks out) {effect : Effect} (hmem : effect ∈ out)
    {dst : Route} {requestId : UInt32} {fromName : NodeName} :
    effect.packet ≠ some (.unicast dst (.joinAck requestId fromName)) := by
  obtain ⟨_, _, _, _, rfl⟩ := h effect hmem
  nofun

/-- A node acknowledges in its own name, for an accept that it applies or out
of a live record. -/
theorem Transition.ack_sent (h : Transition state event state' out)
    (hjoin : event.ofJoin = true) {effect : Effect} (hmem : effect ∈ out) {dst : Route}
    {requestId : UInt32} {fromName : NodeName}
    (hpacket : effect.packet = some (.unicast dst (.joinAck requestId fromName))) :
    fromName = state.config.current.nodeName ∧
      (AppliesAccept state event ∨
        (state.ackSender.Live ∧ state.ackSender.requestId = requestId)) := by
  cases h with
  | idle | queueShrunk | senderChanged | tokenStored | tokenTaken | enqueued | commitSeen
  | commitCompleted => cases hmem
  | recordRead | joinStarted | forwarded => cases hjoin
  | requestSent =>
      cases List.mem_singleton.mp hmem
      cases hpacket
  | ackSent now ok sender hactive hgot hretries hsender =>
      cases List.mem_singleton.mp hmem
      cases hpacket
      exact ⟨rfl, .inr ⟨⟨hactive, hgot, hretries⟩, rfl⟩⟩
  | acceptsSent => exact absurd hpacket (inflightSends_no_ack hmem)
  | completed _ _ _ _ _ _ _ _ hanswers =>
      rcases List.mem_append.mp hmem with hcommit | hanswer
      · cases List.mem_singleton.mp hcommit
        cases hpacket
      · exact absurd hpacket (hanswers.no_ack hanswer)
  | ackAnswered _ _ _ _ _ hanswers => exact absurd hpacket (hanswers.no_ack hmem)
  | confirmed _ _ _ _ _ hanswers => exact absurd hpacket (hanswers.no_ack hmem)
  | acceptJoined accept now ok _ _ _ hself hunjoined _ =>
      cases List.mem_singleton.mp hmem
      cases hpacket
      exact ⟨rfl, .inl ⟨accept, now, ok, rfl, .inl ⟨hunjoined, hself⟩⟩⟩
  | acceptLinked accept now ok _ _ _ _ hself hnext =>
      cases List.mem_singleton.mp hmem
      cases hpacket
      exact ⟨rfl, .inl ⟨accept, now, ok, rfl, .inr ⟨hself, hnext⟩⟩⟩

/-- What a node that applies no accept leaves as it was. -/
theorem Transition.no_accept (h : Transition state event state' out)
    (hjoin : event.ofJoin = true) (hnone : ¬ AppliesAccept state event)
    (hidle : state.joinInflight.active = false) :
    state'.config = state.config ∧ state'.joined = state.joined ∧
      state.ackSender.Wanes state'.ackSender := by
  cases h with
  | recordRead | joinStarted | forwarded => cases hjoin
  | idle | requestSent | queueShrunk | acceptsSent | ackAnswered | confirmed | tokenStored
  | tokenTaken | enqueued => exact ⟨rfl, rfl, .refl _⟩
  | senderChanged _ _ _ hsender => exact ⟨rfl, rfl, hsender⟩
  | ackSent _ _ _ _ _ _ hsender => exact ⟨rfl, rfl, hsender⟩
  | commitSeen _ _ _ _ _ _ _ _ _ hsender _ => exact ⟨rfl, rfl, hsender⟩
  | completed _ _ _ _ hactive => simp [hidle] at hactive
  | commitCompleted _ _ _ _ _ _ _ _ _ hactive => simp [hidle] at hactive
  | acceptJoined accept now ok _ _ _ hself hunjoined _ =>
      exact absurd ⟨accept, now, ok, rfl, .inl ⟨hunjoined, hself⟩⟩ hnone
  | acceptLinked accept now ok _ _ _ _ hself hnext =>
      exact absurd ⟨accept, now, ok, rfl, .inr ⟨hself, hnext⟩⟩ hnone

/-- What can happen to the join in flight. -/
theorem Transition.inflight_cases (h : Transition state event state' out)
    (hjoin : event.ofJoin = true) (hactive : state.joinInflight.active = true) :
    (state'.joinInflight.active = true ∧
      state'.joinInflight.gotConfirmPrev = state.joinInflight.gotConfirmPrev ∧
      state'.joinInflight.gotConfirmJoiner = state.joinInflight.gotConfirmJoiner) ∨
    (state.joinInflight.gotConfirmPrev = true ∧ state.joinInflight.gotConfirmJoiner = true) ∨
    (∃ fromName now ok,
      event = .unicastMessage (.joinAck state.joinInflight.requestId fromName) now ok ∧
      (state'.joinInflight = (recordConfirm state fromName).joinInflight ∨
        ((recordConfirm state fromName).joinInflight.gotConfirmPrev = true ∧
          (recordConfirm state fromName).joinInflight.gotConfirmJoiner = true))) ∨
    ∃ newName topoVersion ip now, event =
      .broadcastMessage (.joinCommit state.joinInflight.requestId newName topoVersion) ip now := by
  cases h with
  | recordRead | joinStarted | forwarded => cases hjoin
  | idle | requestSent | queueShrunk | senderChanged | ackSent | acceptsSent | ackAnswered
  | tokenStored | tokenTaken | acceptJoined | acceptLinked | enqueued | commitSeen =>
      exact .inl ⟨hactive, rfl, rfl⟩
  | completed _ _ mid _ _ hmid hprev hjoiner _ =>
      rcases hmid with rfl | ⟨fromName, now, ok, rfl, rfl⟩
      · exact .inr (.inl ⟨hprev, hjoiner⟩)
      · exact .inr (.inr (.inl ⟨fromName, now, ok, rfl, .inr ⟨hprev, hjoiner⟩⟩))
  | confirmed fromName now ok _ _ _ =>
      exact .inr (.inr (.inl ⟨fromName, now, ok, rfl, .inl rfl⟩))
  | commitCompleted newName topoVersion ip now =>
      exact .inr (.inr (.inr ⟨newName, topoVersion, ip, now, rfl⟩))

/-- A tick that is due sends the accept to every partner still missing. -/
theorem joinFsmInflightTick_due (state : RingState) (ok : Nat → Bool)
    (hactive : state.joinInflight.active = true)
    (hmissing :
      (state.joinInflight.gotConfirmPrev && state.joinInflight.gotConfirmJoiner) = false) :
    ∃ retries, joinFsmInflightTick state (state.joinInflight.lastSent + 1) ok =
      ({ state with
          joinInflight :=
            { state.joinInflight with
              lastSent := state.joinInflight.lastSent + 1, retries := retries } },
        inflightSends state ok) := by
  refine ⟨(if state.joinInflight.retries ≥ joinAcceptRetries then 0
      else state.joinInflight.retries) + 1, ?_⟩
  simp [joinFsmInflightTick, hactive, hmissing, joinAcceptTimeoutS]

theorem joinAckSenderTick_due (state : RingState) (ok : Nat → Bool)
    (hlive : state.ackSender.Live) :
    ∃ after, joinAckSenderTick state (state.ackSender.lastSent + 1) ok =
      (after, [.unicast ⟨state.ackSender.coordName, state.ackSender.coordUnicastPort⟩
        (.joinAck state.ackSender.requestId state.config.current.nodeName) (ok 0)]) := by
  obtain ⟨hactive, hgot, hretries⟩ := hlive
  have hbudget : ¬ joinAckMaxRetries ≤ state.ackSender.retries := by omega
  simp [joinAckSenderTick, hactive, hgot, hbudget, joinAckResendS]

/-- An accept that a node applies is answered. -/
theorem handleJoinAcceptU_answers (state : RingState) (accept : JoinAccept) (now : Int)
    (ok : Nat → Bool)
    (h : (state.config.current.nodeName = accept.newName ∧ state.joined = false ∧
        accept.requestId = state.joinRequestId) ∨
      (state.config.current.nodeName ≠ accept.newName ∧
        state.config.current.nodeName = accept.prevName ∧
        state.config.next.nodeName = accept.beforeName)) :
    ∃ after, handleJoinAcceptU state accept now ok =
      (after, [.unicast ⟨accept.beforeName, accept.beforeUnicastPort⟩
        (.joinAck accept.requestId state.config.current.nodeName) (ok 0)]) := by
  rcases h with ⟨hself, hunjoined, hid⟩ | ⟨hother, hself, hnext⟩
  · simp [handleJoinAcceptU, applyAcceptIfRelevant, hself, hunjoined, hid]
  · have hne : accept.prevName ≠ accept.newName := hself ▸ hother
    simp [handleJoinAcceptU, applyAcceptIfRelevant, hself, hne, hnext]

/-- A join leaves the token where it is. -/
theorem Transition.token_stays (h : Transition state event state' out)
    (hjoin : event.ofJoin = true) (htoken : state.haveToken = true) :
    state'.haveToken = true := by
  cases h with
  | recordRead | joinStarted | forwarded => cases hjoin
  | completed _ _ mid _ _ hmid _ _ _ =>
      rcases hmid with rfl | ⟨_, _, _, _, rfl⟩ <;> exact htoken
  | tokenTaken => rfl
  | _ => exact htoken

end Steps

/-- The two nodes that the coordinator waits for. -/
inductive Partner where
  | joiner
  | pred

/-- The confirmation that is recorded for a partner. -/
def JoinInflight.got (inflight : JoinInflight) : Partner → Bool
  | .joiner => inflight.gotConfirmJoiner
  | .pred => inflight.gotConfirmPrev

namespace Scene

variable {ι : Type*}

def node (scene : Scene ι) : Partner → ι
  | .joiner => scene.joiner
  | .pred => scene.pred

theorem node_injective (scene : Scene ι) {partner other : Partner}
    (h : scene.node partner = scene.node other) : partner = other := by
  cases partner <;> cases other
  · rfl
  · exact absurd h.symm scene.pred_member
  · exact absurd h scene.pred_member
  · rfl

/-- The acknowledgement of a node, under way to the coordinator. -/
def ack (scene : Scene ι) (requestId : UInt32) (i : ι) : Packet :=
  .unicast (scene.self scene.coord) (.joinAck requestId (scene.name i))

/-- The partner has not applied the accept yet. -/
def Open (scene : Scene ι) (net : Net ι) : Partner → Prop
  | .joiner => (net.state scene.joiner).joined = false
  | .pred => (net.state scene.pred).config.next.nodeName = scene.name scene.coord

/-- The confirmation of the partner is recorded, or it can still come: the
partner has not applied the accept, or its acknowledgement is under way, or it
repeats it once more. -/
def CanConfirm (scene : Scene ι) (requestId : UInt32) (net : Net ι) (partner : Partner) : Prop :=
  (net.state scene.coord).joinInflight.got partner = true ∨ scene.Open net partner ∨
    scene.ack requestId (scene.node partner) ∈ net.flight ∨
    ((net.state (scene.node partner)).ackSender.Live ∧
      (net.state (scene.node partner)).ackSender.requestId = requestId)

/-- No confirmation of the partner is recorded, and none can come. -/
structure Blocked (scene : Scene ι) (requestId : UInt32) (partner : Partner)
    (net : Net ι) : Prop where
  missing : (net.state scene.coord).joinInflight.got partner = false
  closed : ¬ scene.Open net partner
  silent : scene.ack requestId (scene.node partner) ∉ net.flight
  spent : (net.state (scene.node partner)).ackSender.Live →
    (net.state (scene.node partner)).ackSender.requestId ≠ requestId

section Facts

variable {scene : Scene ι} {requestId : UInt32} {joinerDone predDone coordDone : Bool}

theorem not_canConfirm {net : Net ι} {partner : Partner} :
    ¬ scene.CanConfirm requestId net partner ↔ scene.Blocked requestId partner net := by
  constructor
  · intro h
    simp only [CanConfirm, not_or, not_and, Bool.not_eq_true] at h
    exact ⟨h.1, h.2.1, h.2.2.1, h.2.2.2⟩
  · rintro ⟨hmissing, hclosed, hsilent, hspent⟩ (hgot | hopen | hack | ⟨hlive, hid⟩)
    · rw [hmissing] at hgot
      cases hgot
    · exact hclosed hopen
    · exact hsilent hack
    · exact hspent hlive hid

variable [DecidableEq ι] {net net' : Net ι} {partner : Partner}

/-- A partner whose confirmation is missing is not the coordinator. -/
theorem Phase.node_ne_coord (h : scene.Phase requestId joinerDone predDone coordDone net)
    (hactive : (net.state scene.coord).joinInflight.active = true)
    (hmissing : (net.state scene.coord).joinInflight.got partner = false) :
    scene.node partner ≠ scene.coord := by
  cases partner with
  | joiner => exact scene.coord_member.symm
  | pred =>
      intro halone
      have hdone := (h.coord_of_active hactive).2
      rw [JoinInflight.got, (h.inflight hdone).2.2.2 halone] at hmissing
      cases hmissing

/-- Only a partner that has not applied the accept applies one. -/
theorem Phase.applies (h : scene.Phase requestId joinerDone predDone coordDone net)
    {i : ι} {event : Event} {out : List Effect} (hrun : net.Runs i event out net')
    (happlies : AppliesAccept (net.state i) event) :
    ∃ partner, i = scene.node partner ∧ scene.Open net partner := by
  obtain ⟨accept, now, ok, rfl, ⟨hunjoined, hself⟩ | ⟨hself, hnext⟩⟩ := happlies
  · obtain ⟨rfl, _⟩ := h.accept_for_joiner hunjoined hself (hrun.received _ _ _ rfl)
    exact ⟨.joiner, rfl, hunjoined⟩
  · obtain ⟨rfl, _, _, rfl⟩ := h.accept_for_pred hself hnext (hrun.received _ _ _ rfl)
    exact ⟨.pred, rfl, hnext⟩

/-- The confirmation that another acknowledgement records is not the one that
is missing. -/
theorem Phase.missing_recorded (h : scene.Phase requestId joinerDone predDone coordDone net)
    (hactive : (net.state scene.coord).joinInflight.active = true) {fromName : NodeName}
    (hother : fromName ≠ scene.name (scene.node partner)) :
    (recordConfirm (net.state scene.coord) fromName).joinInflight.got partner =
      (net.state scene.coord).joinInflight.got partner := by
  obtain ⟨haccept, hroute, hprev⟩ := h.built hactive
  have hexpected := (h.inflight (h.coord_of_active hactive).2).2.2.1
  cases partner with
  | joiner =>
      have hname : (net.state scene.coord).joinInflight.joiner.nodeName =
          scene.name scene.joiner := congrArg Route.nodeName hroute
      have hne : fromName ≠ scene.name scene.joiner := hother
      simp [JoinInflight.got, recordConfirm, hname, hne]
  | pred =>
      have hname : (net.state scene.coord).config.prev.nodeName = scene.name scene.pred :=
        congrArg Route.nodeName hprev
      have hne : fromName ≠ scene.name scene.pred := hother
      simp [JoinInflight.got, recordConfirm, hexpected, hname, hne]

/-- The coordinator keeps waiting for a blocked partner. -/
theorem Phase.blocked_coord (h : scene.Phase requestId joinerDone predDone coordDone net)
    (hactive : (net.state scene.coord).joinInflight.active = true)
    (hblocked : scene.Blocked requestId partner net) {event : Event} {out : List Effect}
    (hrun : net.Runs scene.coord event out net') :
    (net'.state scene.coord).joinInflight.active = true ∧
      (net'.state scene.coord).joinInflight.got partner = false := by
  have hdone := (h.coord_of_active hactive).2
  have hid := (h.inflight hdone).1
  have hmissing := hblocked.missing
  rcases hrun.transition.inflight_cases hrun.ofJoin hactive with
    ⟨hactive', hprev, hjoiner⟩ | ⟨hprev, hjoiner⟩ | ⟨fromName, now, ok, rfl, hrecorded⟩ |
    ⟨newName, topoVersion, ip, now, rfl⟩
  · refine ⟨hactive', ?_⟩
    cases partner with
    | joiner => exact hjoiner.trans hmissing
    | pred => exact hprev.trans hmissing
  · cases partner with
    | joiner => exact absurd (hjoiner.symm.trans hmissing) nofun
    | pred => exact absurd (hprev.symm.trans hmissing) nofun
  · have hother : fromName ≠ scene.name (scene.node partner) := by
      rintro rfl
      have hreceived := hrun.received _ _ _ rfl
      rw [h.current, hid] at hreceived
      exact hblocked.silent hreceived
    have hsame := h.missing_recorded hactive hother
    rcases hrecorded with heq | ⟨hprev, hjoiner⟩
    · rw [heq]
      exact ⟨hactive, hsame.trans hmissing⟩
    · cases partner with
      | joiner => exact absurd (hjoiner.symm.trans (hsame.trans hmissing)) nofun
      | pred => exact absurd (hprev.symm.trans (hsame.trans hmissing)) nofun
  · have hheard := h.packets _ (hrun.heard _ _ _ rfl) hid
    rw [hdone] at hheard
    cases hheard

/-- A blocked partner stays blocked, whatever happens. -/
theorem Phase.blocked_step {e : NetEvent ι}
    (h : scene.Phase requestId joinerDone predDone coordDone net)
    (hactive : (net.state scene.coord).joinInflight.active = true)
    (hblocked : scene.Blocked requestId partner net) (hstep : net.step e = some net') :
    (net'.state scene.coord).joinInflight.active = true ∧
      scene.Blocked requestId partner net' := by
  rcases Net.step_cases hstep with ⟨k, event, out, _, hrun⟩ | ⟨hstate, hflight⟩
  · have hapart := h.node_ne_coord hactive hblocked.missing
    have hcoord : (net'.state scene.coord).joinInflight.active = true ∧
        (net'.state scene.coord).joinInflight.got partner = false := by
      by_cases hk : k = scene.coord
      · subst hk
        exact h.blocked_coord hactive hblocked hrun
      · rw [hrun.others _ (Ne.symm hk)]
        exact ⟨hactive, hblocked.missing⟩
    have hnone : k = scene.node partner → ¬ AppliesAccept (net.state k) event := by
      intro hk happlies
      obtain ⟨other, hother, hopen⟩ := h.applies hrun happlies
      obtain rfl := scene.node_injective (hk.symm.trans hother)
      exact hblocked.closed hopen
    have hnode : (net'.state (scene.node partner)).config =
          (net.state (scene.node partner)).config ∧
        (net'.state (scene.node partner)).joined = (net.state (scene.node partner)).joined ∧
        (net.state (scene.node partner)).ackSender.Wanes
          (net'.state (scene.node partner)).ackSender := by
      by_cases hk : k = scene.node partner
      · subst hk
        exact hrun.transition.no_accept hrun.ofJoin (hnone rfl) (h.idle _ hapart)
      · rw [hrun.others _ (Ne.symm hk)]
        exact ⟨rfl, rfl, .refl _⟩
    obtain ⟨hconfig, hjoined, hwanes⟩ := hnode
    refine ⟨hcoord.1, hcoord.2, ?_, fun hmem => ?_, fun hlive => ?_⟩
    · have hclosed := hblocked.closed
      cases partner with
      | joiner => exact fun hopen => hclosed (hjoined.symm.trans hopen)
      | pred =>
          intro hopen
          have hnext : (net'.state scene.pred).config = (net.state scene.pred).config := hconfig
          rw [Open, hnext] at hopen
          exact hclosed hopen
    · have hnew : ∀ effect ∈ out, ∀ packet, effect.packet = some packet →
          packet ≠ scene.ack requestId (scene.node partner) := by
        rintro effect hsent _ hpacket rfl
        obtain ⟨hfrom, hcause⟩ := hrun.transition.ack_sent hrun.ofJoin hsent hpacket
        rw [h.current] at hfrom
        obtain rfl := scene.eq_of_name hfrom
        rcases hcause with happlies | ⟨hlive, hid⟩
        · exact hnone rfl happlies
        · exact hblocked.spent hlive hid
      rcases hrun.sent hnew _ hmem with hold | hne
      · exact hblocked.silent hold
      · exact hne rfl
    · rw [hwanes.requestId]
      exact hblocked.spent (hwanes.live hlive)
  · rw [hstate]
    refine ⟨hactive, ?_, ?_, fun hmem => ?_, ?_⟩
    · rw [hstate]
      exact hblocked.missing
    · have hclosed := hblocked.closed
      cases partner <;> simpa [Open, hstate] using hclosed
    · exact hblocked.silent (hflight _ hmem)
    · rw [hstate]
      exact hblocked.spent

/-- While a partner is blocked the join never completes. -/
theorem reaches_blocked {guard : Net ι → NetEvent ι → Prop}
    (h : ∃ joinerDone predDone coordDone,
      scene.Phase requestId joinerDone predDone coordDone net)
    (hactive : (net.state scene.coord).joinInflight.active = true)
    (hblocked : scene.Blocked requestId partner net)
    (hreach : Lts.Reaches Net.step guard net net') :
    (net'.state scene.coord).joinInflight.active = true := by
  refine (hreach.invariant
    (fun net => (∃ joinerDone predDone coordDone,
        scene.Phase requestId joinerDone predDone coordDone net) ∧
      (net.state scene.coord).joinInflight.active = true ∧
      scene.Blocked requestId partner net)
    ⟨h, hactive, hblocked⟩ ?_).2.1
  rintro x e y ⟨⟨_, _, _, hphase⟩, hactive, hblocked⟩ _ hstep
  exact ⟨hphase.step hstep, hphase.blocked_step hactive hblocked hstep⟩

/-- A run without losses that keeps what the partners have done or can do. -/
structure Continues (scene : Scene ι) (requestId : UInt32) (net net' : Net ι) : Prop where
  reaches : Lts.Reaches Net.step (fun _ e => e.isLoss = false) net net'
  phase : ∃ joinerDone predDone coordDone,
    scene.Phase requestId joinerDone predDone coordDone net'
  active : (net'.state scene.coord).joinInflight.active = true
  got : ∀ partner, (net.state scene.coord).joinInflight.got partner = true →
    (net'.state scene.coord).joinInflight.got partner = true
  canConfirm : ∀ partner, scene.CanConfirm requestId net partner →
    scene.CanConfirm requestId net' partner

theorem Continues.trans {net'' : Net ι} (first : scene.Continues requestId net net')
    (second : scene.Continues requestId net' net'') :
    scene.Continues requestId net net'' :=
  ⟨first.reaches.trans second.reaches, second.phase, second.active,
    fun partner hgot => second.got partner (first.got partner hgot),
    fun partner hcan => second.canConfirm partner (first.canConfirm partner hcan)⟩

/-- The net after a handler call with this result. -/
def after (net : Net ι) (i : ι) (state : RingState) (left : List Packet)
    (out : List Effect) : Net ι :=
  ⟨Function.update net.state i state, left ++ out.filterMap Effect.packet⟩

/-- A handler call continues the join when the coordinator goes on waiting,
the node that runs can confirm afterwards, and no acknowledgement is taken
without being recorded. -/
theorem Phase.continues {i : ι} {event : Event} {left : List Packet} {state : RingState}
    {out : List Effect} (h : scene.Phase requestId joinerDone predDone coordDone net)
    (hleft : packetsLeft net.flight (net.state i).config.current event = some left)
    (hhandle : event.handle (net.state i) = some (state, out))
    (hactive : ((after net i state left out).state scene.coord).joinInflight.active = true)
    (hgot : ∀ partner, (net.state scene.coord).joinInflight.got partner = true →
      ((after net i state left out).state scene.coord).joinInflight.got partner = true)
    (hself : ∀ partner, scene.node partner = i →
      (net.state scene.coord).joinInflight.got partner = false →
      scene.CanConfirm requestId (after net i state left out) partner)
    (hkeep : ∀ partner, scene.ack requestId (scene.node partner) ∈ net.flight →
      ((after net i state left out).state scene.coord).joinInflight.got partner = true ∨
        scene.ack requestId (scene.node partner) ∈ left) :
    scene.Continues requestId net (after net i state left out) := by
  have hstep : net.step (.run i event) = some (after net i state left out) :=
    Net.step_run hleft hhandle
  refine ⟨.tail .refl rfl hstep, h.step hstep, hactive, hgot, fun partner hcan => ?_⟩
  cases hknown : (net.state scene.coord).joinInflight.got partner with
  | true => exact .inl (hgot partner hknown)
  | false =>
      by_cases hnode : scene.node partner = i
      · exact hself partner hnode hknown
      · have hsame : (after net i state left out).state (scene.node partner) =
            net.state (scene.node partner) := Function.update_of_ne hnode _ _
        rcases hcan with hrecorded | hopen | hack | hlive
        · exact .inl (hgot partner hrecorded)
        · refine .inr (.inl ?_)
          cases partner with
          | joiner => exact (congrArg RingState.joined hsame).trans hopen
          | pred =>
              have hnext := congrArg (fun state => state.config.next.nodeName) hsame
              exact hnext.trans hopen
        · rcases hkeep partner hack with hrecorded | hleft
          · exact .inl hrecorded
          · exact .inr (.inr (.inl (List.mem_append_left _ hleft)))
        · rw [CanConfirm, hsame]
          exact .inr (.inr (.inr hlive))

/-- The coordinator resends the accept. -/
theorem Phase.resends (h : scene.Phase requestId joinerDone predDone coordDone net)
    (hactive : (net.state scene.coord).joinInflight.active = true)
    (hmissing : (net.state scene.coord).joinInflight.got partner = false) :
    ∃ net', scene.Continues requestId net net' ∧
      .unicast (scene.self (scene.node partner)) (.joinAccept (scene.accept requestId)) ∈
        net'.flight ∧
      ∀ j, j ≠ scene.coord → net'.state j = net.state j := by
  have hboth : ((net.state scene.coord).joinInflight.gotConfirmPrev &&
      (net.state scene.coord).joinInflight.gotConfirmJoiner) = false := by
    cases partner with
    | joiner =>
        have hfalse : (net.state scene.coord).joinInflight.gotConfirmJoiner = false := hmissing
        rw [hfalse, Bool.and_false]
    | pred =>
        have hfalse : (net.state scene.coord).joinInflight.gotConfirmPrev = false := hmissing
        rw [hfalse, Bool.false_and]
  obtain ⟨retries, htick⟩ :=
    joinFsmInflightTick_due (net.state scene.coord) (fun _ => true) hactive hboth
  have hleft : packetsLeft net.flight (net.state scene.coord).config.current
      (.joinFsmInflightTick ((net.state scene.coord).joinInflight.lastSent + 1) fun _ => true) =
        some net.flight := rfl
  refine ⟨_, h.continues hleft (congrArg some htick) ?_ ?_ ?_ ?_, ?_, ?_⟩
  · simp [after, hactive]
  · intro other hgot
    have hkept : (net.state scene.coord).joinInflight.got other = true := hgot
    cases other <;> simpa [after, JoinInflight.got] using hkept
  · intro other hnode hfalse
    exact absurd hnode (h.node_ne_coord hactive hfalse)
  · exact fun other hack => .inr hack
  · obtain ⟨haccept, hroute, hprev⟩ := h.built hactive
    refine List.mem_append_right _ (List.mem_filterMap.mpr ?_)
    cases partner with
    | joiner =>
        have hfalse : (net.state scene.coord).joinInflight.gotConfirmJoiner = false := hmissing
        refine ⟨.unicast (scene.self scene.joiner) (.joinAccept (scene.accept requestId)) true,
          ?_, rfl⟩
        simp [inflightSends, hfalse, haccept, hroute]
    | pred =>
        have hfalse : (net.state scene.coord).joinInflight.gotConfirmPrev = false := hmissing
        refine ⟨.unicast (scene.self scene.pred) (.joinAccept (scene.accept requestId)) true,
          ?_, rfl⟩
        simp [inflightSends, hfalse, haccept, hprev]
  · exact fun j hj => Function.update_of_ne hj _ _

/-- A partner puts its acknowledgement under way. -/
theorem Phase.acknowledges {event : Event} {left : List Packet} {state : RingState} {ok : Bool}
    (h : scene.Phase requestId joinerDone predDone coordDone net)
    (hactive : (net.state scene.coord).joinInflight.active = true)
    (hmissing : (net.state scene.coord).joinInflight.got partner = false)
    (hleft : packetsLeft net.flight (net.state (scene.node partner)).config.current event =
      some left)
    (hhandle : event.handle (net.state (scene.node partner)) =
      some (state, [.unicast (scene.self scene.coord)
        (.joinAck requestId (net.state (scene.node partner)).config.current.nodeName) ok]))
    (hkeep : ∀ other, scene.ack requestId other ∈ net.flight →
      scene.ack requestId other ∈ left) :
    ∃ net', scene.Continues requestId net net' ∧
      scene.ack requestId (scene.node partner) ∈ net'.flight := by
  have hapart := h.node_ne_coord hactive hmissing
  rw [h.current] at hhandle
  have hsame : ∀ out, (after net (scene.node partner) state left out).state scene.coord =
      net.state scene.coord := fun out => Function.update_of_ne (Ne.symm hapart) _ _
  have hack : ∀ packets : List Packet, scene.ack requestId (scene.node partner) ∈ packets ++
      [Effect.unicast (scene.self scene.coord)
        (.joinAck requestId (scene.self (scene.node partner)).nodeName) ok].filterMap
          Effect.packet := by
    intro packets
    refine List.mem_append_right _ ?_
    simp [ack, Effect.packet, name]
  refine ⟨_, h.continues hleft hhandle ?_ ?_ ?_ ?_, hack left⟩
  · rw [hsame]
    exact hactive
  · intro other hgot
    rw [hsame]
    exact hgot
  · intro other hnode _
    obtain rfl := scene.node_injective hnode
    exact .inr (.inr (.inl (hack left)))
  · exact fun other hmem => .inr (hkeep _ hmem)

/-- A partner that has not applied the accept applies the one under way. -/
theorem Phase.applies_accept (h : scene.Phase requestId joinerDone predDone coordDone net)
    (hactive : (net.state scene.coord).joinInflight.active = true)
    (hmissing : (net.state scene.coord).joinInflight.got partner = false)
    (hopen : scene.Open net partner)
    (hmem : .unicast (scene.self (scene.node partner)) (.joinAccept (scene.accept requestId)) ∈
      net.flight) :
    ∃ net', scene.Continues requestId net net' ∧
      scene.ack requestId (scene.node partner) ∈ net'.flight := by
  have hcurrent := h.current (scene.node partner)
  have happlicable : ((net.state (scene.node partner)).config.current.nodeName =
        (scene.accept requestId).newName ∧
        (net.state (scene.node partner)).joined = false ∧
        (scene.accept requestId).requestId =
          (net.state (scene.node partner)).joinRequestId) ∨
      ((net.state (scene.node partner)).config.current.nodeName ≠
          (scene.accept requestId).newName ∧
        (net.state (scene.node partner)).config.current.nodeName =
          (scene.accept requestId).prevName ∧
        (net.state (scene.node partner)).config.next.nodeName =
          (scene.accept requestId).beforeName) := by
    rw [hcurrent]
    cases partner with
    | joiner => exact .inl ⟨rfl, hopen, h.request.symm⟩
    | pred =>
        refine .inr ⟨fun heq => ?_, rfl, hopen⟩
        exact scene.pred_member (scene.eq_of_name heq)
  obtain ⟨state, hhandle⟩ := handleJoinAcceptU_answers (net.state (scene.node partner))
    (scene.accept requestId) 0 (fun _ => true) happlicable
  have hleft : packetsLeft net.flight (net.state (scene.node partner)).config.current
      (.unicastMessage (.joinAccept (scene.accept requestId)) 0 fun _ => true) =
        some (net.flight.erase (.unicast (scene.self (scene.node partner))
          (.joinAccept (scene.accept requestId)))) := by
    rw [hcurrent]
    exact if_pos hmem
  refine h.acknowledges hactive hmissing hleft (congrArg some hhandle) fun other hother => ?_
  exact (List.mem_erase_of_ne (by simp [ack])).mpr hother

/-- A live record repeats the acknowledgement. -/
theorem Phase.repeats (h : scene.Phase requestId joinerDone predDone coordDone net)
    (hactive : (net.state scene.coord).joinInflight.active = true)
    (hmissing : (net.state scene.coord).joinInflight.got partner = false)
    (hlive : (net.state (scene.node partner)).ackSender.Live)
    (hid : (net.state (scene.node partner)).ackSender.requestId = requestId) :
    ∃ net', scene.Continues requestId net net' ∧
      scene.ack requestId (scene.node partner) ∈ net'.flight := by
  obtain ⟨state, hhandle⟩ :=
    joinAckSenderTick_due (net.state (scene.node partner)) (fun _ => true) hlive
  rw [(h.senders _ hlive.1 hid).2, hid] at hhandle
  have hleft : packetsLeft net.flight (net.state (scene.node partner)).config.current
      (.joinAckSenderTick ((net.state (scene.node partner)).ackSender.lastSent + 1)
        fun _ => true) = some net.flight := rfl
  exact h.acknowledges hactive hmissing hleft (congrArg some hhandle) fun other hmem => hmem

theorem recordConfirm_got (state : RingState) (fromName : NodeName) {partner : Partner}
    (h : state.joinInflight.got partner = true) :
    (recordConfirm state fromName).joinInflight.got partner = true := by
  cases partner with
  | joiner =>
      have hgot : state.joinInflight.gotConfirmJoiner = true := h
      simp [JoinInflight.got, recordConfirm, hgot]
  | pred =>
      have hgot : state.joinInflight.gotConfirmPrev = true := h
      simp [JoinInflight.got, recordConfirm, hgot]

theorem Phase.recorded (h : scene.Phase requestId joinerDone predDone coordDone net)
    (hactive : (net.state scene.coord).joinInflight.active = true) (partner : Partner) :
    (recordConfirm (net.state scene.coord)
      (scene.name (scene.node partner))).joinInflight.got partner = true := by
  obtain ⟨_, hroute, hprev⟩ := h.built hactive
  cases partner with
  | joiner =>
      have hname : (net.state scene.coord).joinInflight.joiner.nodeName =
          scene.name scene.joiner := congrArg Route.nodeName hroute
      simp [JoinInflight.got, recordConfirm, hname, node]
  | pred =>
      have hname : (net.state scene.coord).config.prev.nodeName = scene.name scene.pred :=
        congrArg Route.nodeName hprev
      simp [JoinInflight.got, recordConfirm, hname, node]

/-- The coordinator reads an acknowledgement: it completes the join, or it
waits for the other partner. -/
theorem Phase.hears (h : scene.Phase requestId joinerDone predDone coordDone net)
    (hactive : (net.state scene.coord).joinInflight.active = true)
    (hmem : scene.ack requestId (scene.node partner) ∈ net.flight) :
    ∃ net', (Lts.Reaches Net.step (fun _ e => e.isLoss = false) net net' ∧
        (net'.state scene.coord).joinInflight.active = false) ∨
      (scene.Continues requestId net net' ∧
        (net'.state scene.coord).joinInflight.got partner = true) := by
  have hid := (h.inflight (h.coord_of_active hactive).2).1
  have hleft : packetsLeft net.flight (net.state scene.coord).config.current
      (.unicastMessage (.joinAck requestId (scene.name (scene.node partner))) 0 fun _ => true) =
        some (net.flight.erase (scene.ack requestId (scene.node partner))) := by
    rw [h.current]
    exact if_pos hmem
  obtain ⟨state, out, heq, ⟨_, _, hmismatch⟩ | ⟨_, _, htry⟩⟩ := handleJoinAckU_cases
    (net.state scene.coord) requestId (scene.name (scene.node partner)) (fun _ => true)
  · exact absurd ⟨hactive, hid⟩ hmismatch
  have hhandle := congrArg some heq
  have hstate : ∀ out, (after net scene.coord state
      (net.flight.erase (scene.ack requestId (scene.node partner))) out).state scene.coord =
        state := fun out => Function.update_self _ _ _
  have hrecorded := h.recorded hactive partner
  rcases joinFsmTryComplete_cases (recordConfirm (net.state scene.coord)
    (scene.name (scene.node partner))) with hsame | ⟨_, _, _, hdone⟩
  · rw [hsame] at htry
    cases htry
    refine ⟨_, .inr ⟨h.continues hleft hhandle ?_ ?_ ?_ ?_, ?_⟩⟩
    · rw [hstate]
      exact hactive
    · intro other hgot
      rw [hstate]
      exact recordConfirm_got _ _ hgot
    · exact fun other hnode hfalse => absurd hnode (h.node_ne_coord hactive hfalse)
    · intro other hother
      by_cases hsame : other = partner
      · subst hsame
        rw [hstate]
        exact .inl hrecorded
      · refine .inr ((List.mem_erase_of_ne fun heq => hsame ?_).mpr hother)
        have hname : scene.name (scene.node other) = scene.name (scene.node partner) := by
          simpa [ack] using heq
        exact scene.node_injective (scene.eq_of_name hname)
    · rw [hstate]
      exact hrecorded
  · rw [hdone] at htry
    refine ⟨_, .inl ⟨.tail .refl rfl (Net.step_run hleft hhandle), ?_⟩⟩
    have hstate' : state = (joinFsmComplete (recordConfirm (net.state scene.coord)
      (scene.name (scene.node partner)))).1 := (congrArg Prod.fst htry).symm
    simp [hstate', joinFsmComplete, JoinInflight.finish]

theorem Phase.continues_refl (h : scene.Phase requestId joinerDone predDone coordDone net)
    (hactive : (net.state scene.coord).joinInflight.active = true) :
    scene.Continues requestId net net :=
  ⟨.refl, ⟨_, _, _, h⟩, hactive, fun _ => id, fun _ => id⟩

/-- A partner that can confirm has been recorded or gets its acknowledgement
under way. -/
theorem Phase.answers (h : scene.Phase requestId joinerDone predDone coordDone net)
    (hactive : (net.state scene.coord).joinInflight.active = true)
    (hcan : scene.CanConfirm requestId net partner) :
    ∃ net', scene.Continues requestId net net' ∧
      ((net'.state scene.coord).joinInflight.got partner = true ∨
        scene.ack requestId (scene.node partner) ∈ net'.flight) := by
  cases hmissing : (net.state scene.coord).joinInflight.got partner with
  | true => exact ⟨net, h.continues_refl hactive, .inl hmissing⟩
  | false =>
      rcases hcan with hgot | hopen | hack | ⟨hlive, hid⟩
      · exact ⟨net, h.continues_refl hactive, .inl hgot⟩
      · obtain ⟨sent, hfirst, haccept, hothers⟩ := h.resends hactive hmissing
        obtain ⟨_, _, _, hphase⟩ := hfirst.phase
        have hopen' : scene.Open sent partner := by
          have hsame := hothers _ (h.node_ne_coord hactive hmissing)
          cases partner with
          | joiner => exact (congrArg RingState.joined hsame).trans hopen
          | pred =>
              have hnext := congrArg (fun state => state.config.next.nodeName) hsame
              exact hnext.trans hopen
        cases hstill : (sent.state scene.coord).joinInflight.got partner with
        | true => exact ⟨sent, hfirst, .inl hstill⟩
        | false =>
            obtain ⟨net', hsecond, hack⟩ :=
              hphase.applies_accept hfirst.active hstill hopen' haccept
            exact ⟨net', hfirst.trans hsecond, .inr hack⟩
      · exact ⟨net, h.continues_refl hactive, .inr hack⟩
      · obtain ⟨net', hfirst, hack⟩ := h.repeats hactive hmissing hlive hid
        exact ⟨net', hfirst, .inr hack⟩

/-- A partner that can confirm gets its confirmation recorded, if the join is
not completed by then. -/
theorem Phase.confirms (h : scene.Phase requestId joinerDone predDone coordDone net)
    (hactive : (net.state scene.coord).joinInflight.active = true)
    (hcan : scene.CanConfirm requestId net partner) :
    ∃ net', (Lts.Reaches Net.step (fun _ e => e.isLoss = false) net net' ∧
        (net'.state scene.coord).joinInflight.active = false) ∨
      (scene.Continues requestId net net' ∧
        (net'.state scene.coord).joinInflight.got partner = true) := by
  obtain ⟨sent, hfirst, hgot | hack⟩ := h.answers hactive hcan
  · exact ⟨sent, .inr ⟨hfirst, hgot⟩⟩
  · obtain ⟨_, _, _, hphase⟩ := hfirst.phase
    obtain ⟨net', ⟨hreach, hdone⟩ | ⟨hsecond, hgot⟩⟩ := hphase.hears hfirst.active hack
    · exact ⟨net', .inl ⟨hfirst.reaches.trans hreach, hdone⟩⟩
    · exact ⟨net', .inr ⟨hfirst.trans hsecond, hgot⟩⟩

/-- With both confirmations recorded, the next tick completes the join. -/
theorem tick_completes (hactive : (net.state scene.coord).joinInflight.active = true)
    (hgot : ∀ partner, (net.state scene.coord).joinInflight.got partner = true) :
    ∃ net', Lts.Reaches Net.step (fun _ e => e.isLoss = false) net net' ∧
      (net'.state scene.coord).joinInflight.active = false := by
  have hprev : (net.state scene.coord).joinInflight.gotConfirmPrev = true := hgot .pred
  have hjoiner : (net.state scene.coord).joinInflight.gotConfirmJoiner = true := hgot .joiner
  have htick : joinFsmInflightTick (net.state scene.coord) 0 (fun _ => true) =
      joinFsmComplete (net.state scene.coord) := by
    simp [joinFsmInflightTick, hactive, hprev, hjoiner,
      joinFsmTryComplete_of_confirmed hactive hprev hjoiner]
  have hleft : packetsLeft net.flight (net.state scene.coord).config.current
      (.joinFsmInflightTick 0 fun _ => true) = some net.flight := rfl
  refine ⟨_, .tail .refl rfl (Net.step_run hleft (congrArg some htick)), ?_⟩
  simp [JoinInflight.finish]

/-- A join whose partners can both confirm can be completed without losses. -/
theorem Phase.finishes (h : scene.Phase requestId joinerDone predDone coordDone net)
    (hactive : (net.state scene.coord).joinInflight.active = true)
    (hcan : ∀ partner, scene.CanConfirm requestId net partner) :
    ∃ net', Lts.Reaches Net.step (fun _ e => e.isLoss = false) net net' ∧
      (net'.state scene.coord).joinInflight.active = false := by
  obtain ⟨first, ⟨hreach, hdone⟩ | ⟨hfirst, hjoiner⟩⟩ := h.confirms hactive (hcan .joiner)
  · exact ⟨first, hreach, hdone⟩
  obtain ⟨_, _, _, hphase⟩ := hfirst.phase
  obtain ⟨second, ⟨hreach, hdone⟩ | ⟨hsecond, hpred⟩⟩ :=
    hphase.confirms hfirst.active (hfirst.canConfirm .pred (hcan .pred))
  · exact ⟨second, hfirst.reaches.trans hreach, hdone⟩
  have hboth : ∀ partner, (second.state scene.coord).joinInflight.got partner = true := by
    intro partner
    cases partner with
    | joiner => exact hsecond.got .joiner hjoiner
    | pred => exact hpred
  obtain ⟨last, hreach, hdone⟩ := tick_completes hsecond.active hboth
  exact ⟨last, (hfirst.trans hsecond).reaches.trans hreach, hdone⟩

theorem reaches_token {guard : Net ι → NetEvent ι → Prop} {i : ι}
    (htoken : (net.state i).haveToken = true) (hreach : Lts.Reaches Net.step guard net net') :
    (net'.state i).haveToken = true := by
  refine hreach.invariant (fun net => (net.state i).haveToken = true) htoken ?_
  intro x e y hx _ hstep
  rcases Net.step_cases hstep with ⟨k, event, out, _, hrun⟩ | ⟨hstate, _⟩
  · by_cases hk : i = k
    · subst hk
      exact hrun.transition.token_stays hrun.ofJoin hx
    · rw [hrun.others i hk]
      exact hx
  · rw [hstate]
    exact hx

/-- From a state in which the join is in flight a run without losses frees the
token exactly when both partners can still confirm. -/
theorem token_freed_iff_partners_can_confirm {before : Net ι} {pending : PendingJoin}
    (hready : scene.Ready before pending)
    (htoken : (before.state scene.coord).haveToken = true)
    (hrun : Lts.Reachable Net.step (scene.begin before pending) net)
    (hactive : (net.state scene.coord).joinInflight.active = true) :
    (∃ net', Lts.Reaches Net.step (fun _ e => e.isLoss = false) net net' ∧
      (net'.state scene.coord).joinInflight.active = false ∧
      (net'.state scene.coord).haveToken = true) ↔
    ∀ partner, scene.CanConfirm pending.requestId net partner := by
  have hphase := reachable_phase hready hrun
  have hholds : (net.state scene.coord).haveToken = true := by
    refine reaches_token ?_ hrun
    simpa [begin, joinFsmStartInflight] using htoken
  constructor
  · rintro ⟨net', hreach, hdone, _⟩ partner
    by_contra hnot
    have hblocked := not_canConfirm.mp hnot
    rw [reaches_blocked hphase hactive hblocked hreach] at hdone
    cases hdone
  · intro hcan
    obtain ⟨_, _, _, h⟩ := hphase
    obtain ⟨net', hreach, hdone⟩ := h.finishes hactive hcan
    exact ⟨net', hreach, hdone, reaches_token hholds hreach⟩

end Facts

/-- `B` has applied its accept and its acknowledgement is lost, and so is the
accept of `C`. -/
theorem trio_first_messages_lost :
    ∃ net, Lts.Reachable Net.step (trio.begin trioBefore trioPending) net ∧
      net.flight = [] ∧ (net.state 0).joinInflight.active = true ∧
      ∃ net', Lts.Reaches Net.step (fun _ e => e.isLoss = false) net net' ∧
        (net'.state 0).joinInflight.active = false ∧ (net'.state 0).haveToken = true := by
  have hrun : (Lts.exec Net.step (trio.begin trioBefore trioPending)
      [.run 0 (.joinFsmInflightTick 10 fun _ => false),
        .run 1 (.unicastMessage (.joinAccept (trio.accept 7)) 10 fun _ => false),
        .lose (trio.ack 7 1), .lose (.unicast (trio.self 2) (.joinAccept (trio.accept 7)))]).map
      (fun net => (net.flight, (net.state 0).joinInflight.active, (net.state 2).joined,
        decide (net.state 1).ackSender.Live, (net.state 1).ackSender.requestId)) =
        some ([], true, false, true, 7) := by decide +kernel
  obtain ⟨net, hexec, hfacts⟩ := Option.map_eq_some_iff.mp hrun
  simp only [Prod.mk.injEq] at hfacts
  obtain ⟨hflight, hactive, hjoined, hlive, hid⟩ := hfacts
  have hreach := Lts.reachable_of_exec hexec
  refine ⟨net, hreach, hflight, hactive,
    (token_freed_iff_partners_can_confirm trio_ready rfl hreach hactive).mpr ?_⟩
  intro partner
  cases partner with
  | joiner => exact .inr (.inl hjoined)
  | pred => exact .inr (.inr (.inr ⟨of_decide_eq_true hlive, hid⟩))

/-- Node `A`, alone in its ring, takes in node `B`. -/
def couple : Scene (Fin 2) where
  self := letterNode
  next := 1
  coord := 0
  joiner := 1
  names_distinct := twoLetters_distinct
  ring := Equiv.Perm.isCycleOn_one.mpr (by
    intro i hi j hj
    simp only [Set.mem_ofPred_eq] at hi hj
    omega)
  coord_member := by decide

/-- `A` has the token, `B` waits for an answer to its request 7. -/
def coupleBefore : Net (Fin 2) where
  state i :=
    let node := RingState.init ⟨couple.self i, couple.self i, couple.self i⟩ (i = 0)
    if i = 0 then { node with haveToken := true } else { node with joinRequestId := 7 }
  flight := []

def couplePending : PendingJoin := ⟨7, NodeName.ofBytes [66], 5002, 0, 10⟩

theorem couple_ready : couple.Ready coupleBefore couplePending where
  current := by decide +kernel
  member_joined := by decide +kernel
  next_entry := by decide +kernel
  prev_entry := by decide +kernel
  joiner_unjoined := by decide +kernel
  pending_route := by decide +kernel
  pending_id := by decide +kernel
  idle := by decide +kernel
  no_sender := by decide +kernel
  no_packet := nofun

/-- `B` applies the accept, and each of its acknowledgements is lost. -/
def acksLost : List (NetEvent (Fin 2)) :=
  [.run 0 (.joinFsmInflightTick 10 fun _ => true),
    .run 1 (.unicastMessage (.joinAccept (couple.accept 7)) 10 fun _ => false),
    .lose (couple.ack 7 1)] ++
  (List.range joinAckMaxRetries).flatMap fun k =>
    [.run 1 (.joinAckSenderTick (11 + k) fun _ => false), .lose (couple.ack 7 1)]

/-- After that the join never completes, and the token never moves on. -/
theorem token_captured :
    ∃ net, Lts.Reachable Net.step (couple.begin coupleBefore couplePending) net ∧
      ∀ net', Lts.Reachable Net.step net net' →
        (net'.state 0).joinInflight.active = true := by
  have hrun : (Lts.exec Net.step (couple.begin coupleBefore couplePending) acksLost).map
      (fun net => ((net.state 0).joinInflight.active,
        (net.state 0).joinInflight.gotConfirmJoiner, (net.state 1).joined, net.flight,
        (net.state 1).ackSender.retries)) = some (true, false, true, [], 30) := by
    decide +kernel
  obtain ⟨net, hexec, hfacts⟩ := Option.map_eq_some_iff.mp hrun
  simp only [Prod.mk.injEq] at hfacts
  obtain ⟨hactive, hmissing, hjoined, hflight, hretries⟩ := hfacts
  have hreach := Lts.reachable_of_exec hexec
  have hblocked : couple.Blocked 7 .joiner net := by
    refine ⟨hmissing, fun hopen => ?_, ?_, fun hlive => ?_⟩
    · exact absurd (hjoined.symm.trans hopen) nofun
    · rw [hflight]
      exact List.not_mem_nil
    · have hless : (net.state 1).ackSender.retries < 30 := hlive.2.2
      omega
  exact ⟨net, hreach, fun net' hmore =>
    reaches_blocked (reachable_phase couple_ready hreach) hactive hblocked hmore⟩

end Scene

end TokenRing
