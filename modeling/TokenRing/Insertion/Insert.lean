import TokenRing.Insertion.Net
import TokenRing.LetterNodes
import TokenRing.Lib.CycleInsert

/-!
One join in a ring. Three nodes change their routes: the joiner and the old
predecessor of the coordinator when they apply the accept, and the coordinator
when it completes. How far each of them is tells every route, and a
confirmation tells that its sender has done its part.
-/

namespace TokenRing

/-- A ring in which `coord` joins the one node that is not in it. The ring may
consist of `coord` alone. -/
structure Scene (ι : Type*) where
  self : ι → Route
  next : Equiv.Perm ι
  coord : ι
  joiner : ι
  names_distinct : ∀ i j, (self i).nodeName = (self j).nodeName → i = j
  ring : next.IsCycleOn {i | i ≠ joiner}
  coord_member : coord ≠ joiner

namespace Scene

variable {ι : Type*}

/-- The predecessor of the coordinator when the join starts. -/
def pred (scene : Scene ι) : ι := scene.next.symm scene.coord

def name (scene : Scene ι) (i : ι) : NodeName := (scene.self i).nodeName

theorem next_pred (scene : Scene ι) : scene.next scene.pred = scene.coord :=
  scene.next.apply_symm_apply scene.coord

theorem pred_member (scene : Scene ι) : scene.pred ≠ scene.joiner := by
  have hback : scene.next scene.pred ∈ {i | i ≠ scene.joiner} := by
    rw [scene.next_pred]
    exact scene.coord_member
  exact scene.ring.apply_mem_iff.mp hback

theorem next_joiner (scene : Scene ι) : scene.next scene.joiner = scene.joiner := by
  by_contra hmoved
  have hmem : scene.next scene.joiner ∈ {i | i ≠ scene.joiner} := hmoved
  exact scene.ring.apply_mem_iff.mp hmem rfl

/-- The accept that the coordinator builds for this join. -/
def accept (scene : Scene ι) (requestId : UInt32) : JoinAccept where
  requestId := requestId
  newName := scene.name scene.joiner
  newUnicastPort := (scene.self scene.joiner).unicastPort
  beforeName := scene.name scene.coord
  beforeUnicastPort := (scene.self scene.coord).unicastPort
  prevName := scene.name scene.pred
  prevUnicastPort := (scene.self scene.pred).unicastPort

/-- An accept left over from a join that is finished: it is about members, and
the predecessor it names has another successor since. -/
def Leftover (scene : Scene ι) (accept : JoinAccept) : Prop :=
  accept.newName ≠ scene.name scene.joiner ∧ accept.prevName ≠ scene.name scene.joiner ∧
    accept.beforeName ≠ scene.name scene.joiner ∧
    ∀ i, scene.name i = accept.prevName → scene.name (scene.next i) ≠ accept.beforeName

/-- A packet that has nothing to do with the request. -/
def Unrelated (scene : Scene ι) (requestId : UInt32) : Packet → Prop
  | .unicast _ (.joinAccept accept) => accept.requestId ≠ requestId ∧ scene.Leftover accept
  | .unicast _ (.joinAck id _) | .unicast _ (.joinAckAck id _) => id ≠ requestId
  | .broadcast (.joinCommit id _ _) => id ≠ requestId
  | _ => True

/-- The ring before the coordinator takes up the entry: routed as `next` says,
without a join in flight, and without a trace of the request. -/
structure Ready (scene : Scene ι) (before : Net ι) (pending : PendingJoin) : Prop where
  current : ∀ i, (before.state i).config.current = scene.self i
  member_joined : ∀ i, i ≠ scene.joiner → (before.state i).joined = true
  next_entry : ∀ i, i ≠ scene.joiner →
    (before.state i).config.next = scene.self (scene.next i)
  prev_entry : ∀ i, i ≠ scene.joiner →
    (before.state i).config.prev = scene.self (scene.next.symm i)
  joiner_unjoined : (before.state scene.joiner).joined = false
  pending_route : pending.route = scene.self scene.joiner
  pending_id : pending.requestId = (before.state scene.joiner).joinRequestId
  idle : ∀ i, (before.state i).joinInflight.active = false
  no_sender : ∀ i, (before.state i).ackSender.active = true →
    (before.state i).ackSender.requestId ≠ pending.requestId
  no_packet : ∀ packet ∈ before.flight, scene.Unrelated pending.requestId packet

/-- The net in which the coordinator has just started the join. -/
def begin [DecidableEq ι] (scene : Scene ι) (before : Net ι) (pending : PendingJoin) : Net ι :=
  { before with
    state := Function.update before.state scene.coord
      (joinFsmStartInflight (before.state scene.coord) pending) }

/-- The node has done its part of the join: the joiner has applied the accept
(`joinerDone`), and so has the predecessor (`predDone`). -/
def Confirmed (scene : Scene ι) (joinerDone predDone : Bool) (i : ι) : Prop :=
  (i = scene.joiner → joinerDone = true) ∧
    (i = scene.pred → scene.pred = scene.coord ∨ predDone = true)

/-- What a packet under way tells of the join. -/
def PacketTells (scene : Scene ι) (requestId : UInt32)
    (joinerDone predDone coordDone : Bool) : Packet → Prop
  | .unicast dst (.joinAccept accept) =>
      (accept = scene.accept requestId ∧
        (dst = scene.self scene.joiner ∨
          (dst = scene.self scene.pred ∧ scene.pred ≠ scene.coord))) ∨
      scene.Leftover accept
  | .unicast _ (.joinAck id fromName) => id = requestId →
      ∀ i, scene.name i = fromName → scene.Confirmed joinerDone predDone i
  | .broadcast (.joinCommit id _ _) => id = requestId → coordDone = true
  | _ => True

/-- The state of the join when the joiner, the predecessor and the coordinator
have done their parts or not. -/
structure Phase [DecidableEq ι] (scene : Scene ι) (requestId : UInt32)
    (joinerDone predDone coordDone : Bool) (net : Net ι) : Prop where
  current : ∀ i, (net.state i).config.current = scene.self i
  member_joined : ∀ i, i ≠ scene.joiner → (net.state i).joined = true
  joiner_joined : (net.state scene.joiner).joined = joinerDone
  request : (net.state scene.joiner).joinRequestId = requestId
  next_entry : ∀ i, i ≠ scene.joiner → (net.state i).config.next = scene.self
    (if i = scene.pred ∧ predDone = true then scene.joiner else scene.next i)
  prev_entry : ∀ i, i ≠ scene.joiner → (net.state i).config.prev = scene.self
    (if i = scene.coord ∧ coordDone = true then scene.joiner else scene.next.symm i)
  joiner_entries : joinerDone = true →
    (net.state scene.joiner).config.next = scene.self scene.coord ∧
      (net.state scene.joiner).config.prev = scene.self scene.pred
  done : coordDone = true → joinerDone = true ∧ predDone = true
  alone : scene.pred = scene.coord → predDone = coordDone
  idle : ∀ i, i ≠ scene.coord → (net.state i).joinInflight.active = false
  active : (net.state scene.coord).joinInflight.active = !coordDone
  inflight : coordDone = false →
    (net.state scene.coord).joinInflight.requestId = requestId ∧
      (net.state scene.coord).joinInflight.joiner.route = scene.self scene.joiner ∧
      (net.state scene.coord).joinInflight.expectedPrevName = scene.name scene.pred ∧
      (scene.pred = scene.coord →
        (net.state scene.coord).joinInflight.gotConfirmPrev = true)
  got_joiner : coordDone = false →
    (net.state scene.coord).joinInflight.gotConfirmJoiner = true → joinerDone = true
  got_prev : coordDone = false →
    (net.state scene.coord).joinInflight.gotConfirmPrev = true →
    scene.pred = scene.coord ∨ predDone = true
  senders : ∀ i, (net.state i).ackSender.active = true →
    (net.state i).ackSender.requestId = requestId →
    scene.Confirmed joinerDone predDone i ∧
      (⟨(net.state i).ackSender.coordName, (net.state i).ackSender.coordUnicastPort⟩ : Route) =
        scene.self scene.coord
  packets : ∀ packet ∈ net.flight,
    scene.PacketTells requestId joinerDone predDone coordDone packet

theorem eq_of_name (scene : Scene ι) {i j : ι} (h : scene.name i = scene.name j) : i = j :=
  scene.names_distinct i j h

section Facts

variable {scene : Scene ι} {requestId : UInt32} {joinerDone predDone coordDone : Bool}

theorem Confirmed.mono {joinerDone' predDone' : Bool} {i : ι}
    (h : scene.Confirmed joinerDone predDone i)
    (hjoiner : joinerDone = true → joinerDone' = true)
    (hpred : predDone = true → predDone' = true) : scene.Confirmed joinerDone' predDone' i :=
  ⟨fun hi => hjoiner (h.1 hi), fun hi => (h.2 hi).imp_right hpred⟩

theorem PacketTells.mono {joinerDone' predDone' coordDone' : Bool} {packet : Packet}
    (h : scene.PacketTells requestId joinerDone predDone coordDone packet)
    (hjoiner : joinerDone = true → joinerDone' = true)
    (hpred : predDone = true → predDone' = true)
    (hcoord : coordDone = true → coordDone' = true) :
    scene.PacketTells requestId joinerDone' predDone' coordDone' packet := by
  cases packet with
  | unicast dst msg =>
      cases msg with
      | joinAck id fromName => exact fun hid i hi => (h hid i hi).mono hjoiner hpred
      | joinAccept accept => exact h
      | _ => trivial
  | broadcast msg =>
      cases msg with
      | joinCommit id newName topoVersion => exact fun hid => hcoord (h hid)
      | _ => trivial

theorem tells_of_onlyAckAcks {out : List Effect} (h : OnlyAckAcks out) {effect : Effect}
    (hsent : effect ∈ out) {packet : Packet} (hpacket : effect.packet = some packet) :
    scene.PacketTells requestId joinerDone predDone coordDone packet := by
  obtain ⟨_, _, _, _, rfl⟩ := h effect hsent
  cases hpacket
  trivial

/-- What a new sender tells: it was started by the accept of this join. -/
theorem Confirmed.of_start {sentAt : Option Int} {sender : JoinAckSender} {i : ι}
    (hstart : sender = JoinAckSender.start (scene.accept requestId) sentAt)
    (h : scene.Confirmed joinerDone predDone i) :
    scene.Confirmed joinerDone predDone i ∧
      (⟨sender.coordName, sender.coordUnicastPort⟩ : Route) = scene.self scene.coord := by
  rw [hstart]
  exact ⟨h, rfl⟩

variable [DecidableEq ι] {net net' : Net ι}

/-- Just started, nobody has done a part. -/
theorem Ready.begin_phase {before : Net ι} {pending : PendingJoin}
    (h : scene.Ready before pending) :
    scene.Phase pending.requestId false false false (scene.begin before pending) := by
  have hother : ∀ i, i ≠ scene.coord → (scene.begin before pending).state i = before.state i :=
    fun i hi => Function.update_of_ne hi _ _
  have hcoord : (scene.begin before pending).state scene.coord =
      joinFsmStartInflight (before.state scene.coord) pending := Function.update_self _ _ _
  have hconfig : ∀ i, ((scene.begin before pending).state i).config = (before.state i).config ∧
      ((scene.begin before pending).state i).joined = (before.state i).joined ∧
      ((scene.begin before pending).state i).joinRequestId = (before.state i).joinRequestId ∧
      ((scene.begin before pending).state i).ackSender = (before.state i).ackSender := by
    intro i
    by_cases hi : i = scene.coord
    · rw [hi, hcoord]
      exact ⟨rfl, rfl, rfl, rfl⟩
    · rw [hother i hi]
      exact ⟨rfl, rfl, rfl, rfl⟩
  have hpred : (before.state scene.coord).config.prev.nodeName = scene.name scene.pred := by
    rw [h.prev_entry _ scene.coord_member]
    rfl
  refine ⟨fun i => ?_, fun i hi => ?_, ?_, ?_, fun i hi => ?_, fun i hi => ?_, nofun, nofun,
    fun _ => rfl, fun i hi => ?_, ?_, fun _ => ?_, fun _ hgot => ?_, fun _ hgot => ?_,
    fun i hactive hid => ?_, fun packet hmem => ?_⟩
  · rw [(hconfig i).1, h.current i]
  · rw [(hconfig i).2.1, h.member_joined i hi]
  · rw [(hconfig _).2.1, h.joiner_unjoined]
  · rw [(hconfig _).2.2.1, h.pending_id]
  · rw [(hconfig i).1, h.next_entry i hi]
    simp
  · rw [(hconfig i).1, h.prev_entry i hi]
    simp
  · rw [hother i hi, h.idle i]
  · rw [hcoord]
    rfl
  · rw [hcoord]
    refine ⟨rfl, h.pending_route, hpred, fun halone => ?_⟩
    simp [joinFsmStartInflight, hpred, halone, name, h.current]
  · rw [hcoord] at hgot
    cases hgot
  · rw [hcoord] at hgot
    refine .inl (scene.eq_of_name ?_)
    rw [← hpred]
    simpa [joinFsmStartInflight, name, h.current] using hgot
  · rw [(hconfig i).2.2.2] at hactive hid
    exact absurd hid (h.no_sender i hactive)
  · have hunrelated := h.no_packet packet hmem
    cases packet with
    | unicast dst msg =>
        cases msg with
        | joinAccept accept => exact .inr hunrelated.2
        | joinAck id fromName => exact fun hid => absurd hid hunrelated
        | _ => trivial
    | broadcast msg =>
        cases msg with
        | joinCommit id newName topoVersion => exact fun hid => absurd hid hunrelated
        | _ => trivial

/-- A state with the same routes and the same part in the join. -/
structure SameRole (before after : RingState) : Prop where
  config : after.config = before.config
  joined : after.joined = before.joined
  request : after.joinRequestId = before.joinRequestId
  sender : before.ackSender.Wanes after.ackSender
  active : after.joinInflight.active = before.joinInflight.active
  requestId : after.joinInflight.requestId = before.joinInflight.requestId
  joiner : after.joinInflight.joiner = before.joinInflight.joiner
  expected : after.joinInflight.expectedPrevName = before.joinInflight.expectedPrevName
  got_prev : after.joinInflight.gotConfirmPrev = before.joinInflight.gotConfirmPrev
  got_joiner : after.joinInflight.gotConfirmJoiner = before.joinInflight.gotConfirmJoiner

theorem SameRole.refl (state : RingState) : SameRole state state :=
  ⟨rfl, rfl, rfl, .refl _, rfl, rfl, rfl, rfl, rfl, rfl⟩

theorem Phase.senders_wane (h : scene.Phase requestId joinerDone predDone coordDone net)
    {i : ι} {after : JoinAckSender} (hwanes : (net.state i).ackSender.Wanes after)
    (hactive : after.active = true) (hid : after.requestId = requestId) :
    scene.Confirmed joinerDone predDone i ∧
      (⟨after.coordName, after.coordUnicastPort⟩ : Route) = scene.self scene.coord := by
  rw [hwanes.coordName, hwanes.coordUnicastPort]
  exact h.senders i (hwanes.active hactive) (hwanes.requestId.symm.trans hid)

/-- A step in which nobody does a part. -/
theorem Phase.quiet (h : scene.Phase requestId joinerDone predDone coordDone net)
    (hsame : ∀ i, SameRole (net.state i) (net'.state i))
    (hflight : ∀ packet ∈ net'.flight, packet ∈ net.flight ∨
      scene.PacketTells requestId joinerDone predDone coordDone packet) :
    scene.Phase requestId joinerDone predDone coordDone net' := by
  refine ⟨fun i => ?_, fun i hi => ?_, ?_, ?_, fun i hi => ?_, fun i hi => ?_, ?_, h.done,
    h.alone, fun i hi => ?_, ?_, ?_, ?_, ?_, fun i hactive hid => ?_, fun packet hmem => ?_⟩
  · rw [(hsame i).config, h.current i]
  · rw [(hsame i).joined, h.member_joined i hi]
  · rw [(hsame _).joined, h.joiner_joined]
  · rw [(hsame _).request, h.request]
  · rw [(hsame i).config, h.next_entry i hi]
  · rw [(hsame i).config, h.prev_entry i hi]
  · rw [(hsame _).config]
    exact h.joiner_entries
  · rw [(hsame i).active, h.idle i hi]
  · rw [(hsame _).active, h.active]
  · rw [(hsame _).requestId, (hsame _).joiner, (hsame _).expected, (hsame _).got_prev]
    exact h.inflight
  · rw [(hsame _).got_joiner]
    exact h.got_joiner
  · rw [(hsame _).got_prev]
    exact h.got_prev
  · exact h.senders_wane (hsame i).sender hactive hid
  · rcases hflight packet hmem with hold | htells
    · exact h.packets packet hold
    · exact htells

theorem Phase.quiet_run {i : ι} {event : Event} {out : List Effect}
    (h : scene.Phase requestId joinerDone predDone coordDone net)
    (hrun : net.Runs i event out net') (hsame : SameRole (net.state i) (net'.state i))
    (hout : ∀ effect ∈ out, ∀ packet, effect.packet = some packet →
      scene.PacketTells requestId joinerDone predDone coordDone packet) :
    scene.Phase requestId joinerDone predDone coordDone net' := by
  refine h.quiet (fun k => ?_) (hrun.sent hout)
  by_cases hk : k = i
  · rw [hk]
    exact hsame
  · rw [hrun.others k hk]
    exact .refl _

/-- The accept that the coordinator builds is the one of this join. -/
theorem Phase.built (h : scene.Phase requestId joinerDone predDone coordDone net)
    (hactive : (net.state scene.coord).joinInflight.active = true) :
    buildJoinAcceptHost (net.state scene.coord) = scene.accept requestId ∧
      (net.state scene.coord).joinInflight.joiner.route = scene.self scene.joiner ∧
      (net.state scene.coord).config.prev = scene.self scene.pred := by
  have hcoord : coordDone = false := by simpa [h.active] using hactive
  obtain ⟨hid, hroute, _⟩ := h.inflight hcoord
  have hprev : (net.state scene.coord).config.prev = scene.self scene.pred := by
    rw [h.prev_entry _ scene.coord_member, hcoord]
    simp [pred]
  have hname : (net.state scene.coord).joinInflight.joiner.nodeName =
      scene.name scene.joiner := congrArg Route.nodeName hroute
  have hport : (net.state scene.coord).joinInflight.joiner.unicastPort =
      (scene.self scene.joiner).unicastPort := congrArg Route.unicastPort hroute
  exact ⟨by simp [buildJoinAcceptHost, accept, hid, hname, hport, h.current, hprev, name],
    hroute, hprev⟩

/-- The accept goes to the joiner, and to the predecessor when that is another
node. -/
theorem Phase.accepts_tell (h : scene.Phase requestId joinerDone predDone coordDone net)
    (hactive : (net.state scene.coord).joinInflight.active = true) {ok : Nat → Bool}
    {effect : Effect} (hsent : effect ∈ inflightSends (net.state scene.coord) ok)
    {packet : Packet} (hpacket : effect.packet = some packet) :
    scene.PacketTells requestId joinerDone predDone coordDone packet := by
  have hcoord : coordDone = false := by simpa [h.active] using hactive
  obtain ⟨haccept, hroute, hprev⟩ := h.built hactive
  rcases mem_inflightSends hsent with ⟨_, rfl⟩ | ⟨hmissing, rfl⟩
  · cases hpacket
    rw [haccept, hroute]
    exact .inl ⟨rfl, .inl rfl⟩
  · cases hpacket
    rw [haccept, hprev]
    refine .inl ⟨rfl, .inr ⟨rfl, fun hself => ?_⟩⟩
    rw [(h.inflight hcoord).2.2.2 hself] at hmissing
    cases hmissing

/-- The joiner applies the accept. -/
theorem Phase.joiner_done (h : scene.Phase requestId false predDone coordDone net)
    (hothers : ∀ k, k ≠ scene.joiner → net'.state k = net.state k)
    {joinState : JoinState} {sentAt : Option Int}
    (hafter : net'.state scene.joiner =
      { net.state scene.joiner with
        joinState := joinState
        config :=
          { (net.state scene.joiner).config with
            prev := scene.self scene.pred
            next := scene.self scene.coord }
        joined := true
        joinRequestLastSent := 0
        joinRequestRetries := 0
        ackSender := JoinAckSender.start (scene.accept requestId) sentAt })
    (hflight : ∀ packet ∈ net'.flight, packet ∈ net.flight ∨
      scene.PacketTells requestId true predDone coordDone packet) :
    scene.Phase requestId true predDone coordDone net' := by
  have hcoord := hothers _ scene.coord_member
  refine ⟨fun k => ?_, fun k hk => ?_, ?_, ?_, fun k hk => ?_, fun k hk => ?_, fun _ => ?_,
    fun hdone => ⟨rfl, (h.done hdone).2⟩, h.alone, fun k hk => ?_, ?_, ?_, fun _ _ => rfl, ?_,
    fun k hactive hid => ?_, fun packet hmem => ?_⟩
  · by_cases hk : k = scene.joiner
    · rw [hk, hafter]
      exact h.current _
    · rw [hothers k hk, h.current k]
  · rw [hothers k hk, h.member_joined k hk]
  · rw [hafter]
  · rw [hafter]
    exact h.request
  · rw [hothers k hk, h.next_entry k hk]
  · rw [hothers k hk, h.prev_entry k hk]
  · rw [hafter]
    exact ⟨rfl, rfl⟩
  · by_cases hk' : k = scene.joiner
    · rw [hk', hafter]
      exact h.idle _ scene.coord_member.symm
    · rw [hothers k hk', h.idle k hk]
  · rw [hcoord, h.active]
  · rw [hcoord]
    exact h.inflight
  · rw [hcoord]
    exact h.got_prev
  · by_cases hk : k = scene.joiner
    · subst hk
      rw [hafter] at hactive hid ⊢
      exact Confirmed.of_start rfl
        ⟨fun _ => rfl, fun hpred => absurd hpred.symm scene.pred_member⟩
    · rw [hothers k hk] at hactive hid ⊢
      obtain ⟨hconfirmed, haddress⟩ := h.senders k hactive hid
      exact ⟨hconfirmed.mono nofun id, haddress⟩
  · rcases hflight packet hmem with hold | htells
    · exact (h.packets packet hold).mono nofun id id
    · exact htells

/-- The predecessor, a node of its own, applies the accept. -/
theorem Phase.pred_done (h : scene.Phase requestId joinerDone false coordDone net)
    (hapart : scene.pred ≠ scene.coord)
    (hothers : ∀ k, k ≠ scene.pred → net'.state k = net.state k)
    {joinState : JoinState} {sentAt : Option Int}
    (hafter : net'.state scene.pred =
      { net.state scene.pred with
        joinState := joinState
        config := { (net.state scene.pred).config with next := scene.self scene.joiner }
        joined := true
        ackSender := JoinAckSender.start (scene.accept requestId) sentAt })
    (hflight : ∀ packet ∈ net'.flight, packet ∈ net.flight ∨
      scene.PacketTells requestId joinerDone true coordDone packet) :
    scene.Phase requestId joinerDone true coordDone net' := by
  have hcoord := hothers _ hapart.symm
  have hjoiner := hothers _ scene.pred_member.symm
  refine ⟨fun k => ?_, fun k hk => ?_, ?_, ?_, fun k hk => ?_, fun k hk => ?_, ?_,
    fun hdone => ⟨(h.done hdone).1, rfl⟩, fun halone => absurd halone hapart, fun k hk => ?_,
    ?_, ?_, ?_, fun _ _ => .inr rfl, fun k hactive hid => ?_, fun packet hmem => ?_⟩
  · by_cases hk : k = scene.pred
    · rw [hk, hafter]
      exact h.current _
    · rw [hothers k hk, h.current k]
  · by_cases hk' : k = scene.pred
    · rw [hk', hafter]
    · rw [hothers k hk', h.member_joined k hk]
  · rw [hjoiner, h.joiner_joined]
  · rw [hjoiner, h.request]
  · by_cases hk' : k = scene.pred
    · rw [hk', hafter]
      simp
    · rw [hothers k hk', h.next_entry k hk]
      simp [hk']
  · by_cases hk' : k = scene.pred
    · rw [hk', hafter]
      exact h.prev_entry _ scene.pred_member
    · rw [hothers k hk', h.prev_entry k hk]
  · rw [hjoiner]
    exact h.joiner_entries
  · by_cases hk' : k = scene.pred
    · rw [hk', hafter]
      exact h.idle _ hapart
    · rw [hothers k hk', h.idle k hk]
  · rw [hcoord, h.active]
  · rw [hcoord]
    exact h.inflight
  · rw [hcoord]
    exact h.got_joiner
  · by_cases hk : k = scene.pred
    · subst hk
      rw [hafter] at hactive hid ⊢
      exact Confirmed.of_start rfl
        ⟨fun hjoins => absurd hjoins scene.pred_member, fun _ => .inr rfl⟩
    · rw [hothers k hk] at hactive hid ⊢
      obtain ⟨hconfirmed, haddress⟩ := h.senders k hactive hid
      exact ⟨hconfirmed.mono id nofun, haddress⟩
  · rcases hflight packet hmem with hold | htells
    · exact (h.packets packet hold).mono id nofun id
    · exact htells

/-- The coordinator records a confirmation whose sender has done its part. -/
theorem Phase.confirm (h : scene.Phase requestId joinerDone predDone false net)
    {fromName : NodeName}
    (hfrom : ∀ k, scene.name k = fromName → scene.Confirmed joinerDone predDone k)
    (hothers : ∀ k, k ≠ scene.coord → net'.state k = net.state k)
    (hafter : net'.state scene.coord = recordConfirm (net.state scene.coord) fromName)
    (hflight : ∀ packet ∈ net'.flight, packet ∈ net.flight ∨
      scene.PacketTells requestId joinerDone predDone false packet) :
    scene.Phase requestId joinerDone predDone false net' := by
  have hjoiner := hothers _ scene.coord_member.symm
  obtain ⟨hid, hroute, hexpected, halone⟩ := h.inflight rfl
  have hconfig : ∀ k, (net'.state k).config = (net.state k).config ∧
      (net'.state k).joined = (net.state k).joined ∧
      (net'.state k).ackSender = (net.state k).ackSender ∧
      (net'.state k).joinInflight.active = (net.state k).joinInflight.active := by
    intro k
    by_cases hk : k = scene.coord
    · rw [hk, hafter]
      exact ⟨rfl, rfl, rfl, rfl⟩
    · rw [hothers k hk]
      exact ⟨rfl, rfl, rfl, rfl⟩
  have hprev : (net.state scene.coord).config.prev.nodeName = scene.name scene.pred := by
    rw [h.prev_entry _ scene.coord_member]
    simp [name, pred]
  refine ⟨fun k => ?_, fun k hk => ?_, ?_, ?_, fun k hk => ?_, fun k hk => ?_, ?_, h.done,
    h.alone, fun k hk => ?_, ?_, fun _ => ?_, fun _ hgot => ?_, fun _ hgot => ?_,
    fun k hactive hsender => ?_, fun packet hmem => ?_⟩
  · rw [(hconfig k).1, h.current k]
  · rw [(hconfig k).2.1, h.member_joined k hk]
  · rw [hjoiner, h.joiner_joined]
  · rw [hjoiner, h.request]
  · rw [(hconfig k).1, h.next_entry k hk]
  · rw [(hconfig k).1, h.prev_entry k hk]
  · rw [hjoiner]
    exact h.joiner_entries
  · rw [(hconfig k).2.2.2, h.idle k hk]
  · rw [(hconfig _).2.2.2, h.active]
  · rw [hafter]
    refine ⟨hid, hroute, hexpected, fun hself => ?_⟩
    simp [recordConfirm, halone hself]
  · rw [hafter] at hgot
    rcases Bool.or_eq_true_iff.mp hgot with hold | hnew
    · exact h.got_joiner rfl hold
    · have hname : fromName = scene.name scene.joiner :=
        (of_decide_eq_true hnew).trans (congrArg Route.nodeName hroute)
      exact (hfrom _ hname.symm).1 rfl
  · rw [hafter] at hgot
    rcases Bool.or_eq_true_iff.mp hgot with hold | hnew
    · exact h.got_prev rfl hold
    · have hname : fromName = scene.name scene.pred := by
        simpa [hexpected, hprev] using hnew
      exact (hfrom _ hname.symm).2 rfl
  · rw [(hconfig k).2.2.1] at hactive hsender ⊢
    exact h.senders k hactive hsender
  · rcases hflight packet hmem with hold | htells
    · exact h.packets packet hold
    · exact htells

/-- The coordinator completes. -/
theorem Phase.coord_done (h : scene.Phase requestId joinerDone predDone false net)
    (hprev : (net.state scene.coord).joinInflight.gotConfirmPrev = true)
    (hjoiner : (net.state scene.coord).joinInflight.gotConfirmJoiner = true)
    (hothers : ∀ k, k ≠ scene.coord → net'.state k = net.state k)
    (hafter : net'.state scene.coord = (joinFsmComplete (net.state scene.coord)).1)
    (hflight : ∀ packet ∈ net'.flight, packet ∈ net.flight ∨
      scene.PacketTells requestId true true true packet) :
    scene.Phase requestId true true true net' := by
  obtain rfl := h.got_joiner rfl hjoiner
  obtain ⟨_, hroute, hexpected, _⟩ := h.inflight rfl
  have hsame := hothers _ scene.coord_member.symm
  have hself : (net.state scene.coord).config.current.nodeName = scene.name scene.coord := by
    rw [h.current]
    rfl
  refine ⟨fun k => ?_, fun k hk => ?_, ?_, ?_, fun k hk => ?_, fun k hk => ?_, ?_,
    fun _ => ⟨rfl, rfl⟩, fun _ => rfl, fun k hk => ?_, ?_, nofun, nofun, nofun,
    fun k hactive hid => ?_, fun packet hmem => ?_⟩
  · by_cases hk : k = scene.coord
    · rw [hk, hafter]
      exact h.current _
    · rw [hothers k hk, h.current k]
  · by_cases hk' : k = scene.coord
    · rw [hk', hafter]
      exact h.member_joined _ scene.coord_member
    · rw [hothers k hk', h.member_joined k hk]
  · rw [hsame, h.joiner_joined]
  · rw [hsame, h.request]
  · have hdone := h.got_prev rfl hprev
    by_cases hk' : k = scene.coord
    · rw [hk', hafter]
      by_cases hpred : scene.pred = scene.coord
      · simp [joinFsmComplete, hexpected, hself, hpred, hroute]
      · have hname : ¬ scene.name scene.pred = scene.name scene.coord :=
          fun heq => hpred (scene.eq_of_name heq)
        simpa [joinFsmComplete, hexpected, hself, hname, Ne.symm hpred] using
          h.next_entry _ scene.coord_member
    · rw [hothers k hk', h.next_entry k hk]
      by_cases hpred : k = scene.pred
      · have hpredDone : predDone = true :=
          hdone.resolve_left fun heq => hk' (hpred.trans heq)
        simp [hpredDone]
      · simp [hpred]
  · by_cases hk' : k = scene.coord
    · rw [hk', hafter]
      simp [joinFsmComplete, hroute]
    · rw [hothers k hk', h.prev_entry k hk]
      simp [hk']
  · rw [hsame]
    exact h.joiner_entries
  · rw [hothers k hk, h.idle k hk]
  · rw [hafter]
    rfl
  · have hsender : (net'.state k).ackSender = (net.state k).ackSender := by
      by_cases hk : k = scene.coord
      · rw [hk, hafter]
        rfl
      · rw [hothers k hk]
    rw [hsender] at hactive hid ⊢
    obtain ⟨hconfirmed, haddress⟩ := h.senders k hactive hid
    exact ⟨hconfirmed.mono id fun _ => rfl, haddress⟩
  · rcases hflight packet hmem with hold | htells
    · exact (h.packets packet hold).mono id (fun _ => rfl) nofun
    · exact htells

/-- An accept that its receiver applies as the joiner is the one of this join. -/
theorem Phase.accept_for_joiner (h : scene.Phase requestId joinerDone predDone coordDone net)
    {i : ι} {accept : JoinAccept} (hi : (net.state i).joined = false)
    (hself : (net.state i).config.current.nodeName = accept.newName)
    (hmem : Packet.unicast (net.state i).config.current (.joinAccept accept) ∈ net.flight) :
    i = scene.joiner ∧ joinerDone = false ∧ accept = scene.accept requestId := by
  obtain rfl : i = scene.joiner := by
    by_contra hmember
    rw [h.member_joined i hmember] at hi
    cases hi
  refine ⟨rfl, h.joiner_joined.symm.trans hi, ?_⟩
  rcases h.packets _ hmem with ⟨haccept, _⟩ | hleftover
  · exact haccept
  · rw [h.current] at hself
    exact absurd hself.symm hleftover.1

/-- An accept that its receiver applies as the predecessor is the one of this
join, and applied for the first time. -/
theorem Phase.accept_for_pred (h : scene.Phase requestId joinerDone predDone coordDone net)
    {i : ι} {accept : JoinAccept}
    (hself : (net.state i).config.current.nodeName = accept.prevName)
    (hnext : (net.state i).config.next.nodeName = accept.beforeName)
    (hmem : Packet.unicast (net.state i).config.current (.joinAccept accept) ∈ net.flight) :
    i = scene.pred ∧ scene.pred ≠ scene.coord ∧ predDone = false ∧
      accept = scene.accept requestId := by
  have htells := h.packets _ hmem
  rw [h.current] at hself htells
  rcases htells with ⟨rfl, haddress⟩ | ⟨_, hprevName, hbefore, hmoved⟩
  · obtain rfl : i = scene.pred := scene.eq_of_name hself
    have hapart : scene.pred ≠ scene.coord := by
      rcases haddress with hjoins | ⟨_, hapart⟩
      · exact absurd (scene.eq_of_name (congrArg Route.nodeName hjoins)) scene.pred_member
      · exact hapart
    refine ⟨rfl, hapart, ?_, rfl⟩
    by_contra hdone
    rw [h.next_entry _ scene.pred_member, if_pos ⟨rfl, by simpa using hdone⟩] at hnext
    exact scene.coord_member (scene.eq_of_name hnext).symm
  · -- nobody takes a leftover accept: its predecessor has another successor
    have hmember : i ≠ scene.joiner := by
      rintro rfl
      exact hprevName hself.symm
    rw [h.next_entry _ hmember] at hnext
    split at hnext
    · exact absurd hnext.symm hbefore
    · exact absurd hnext (hmoved i hself)

/-- An acknowledgement of this join at the coordinator. -/
theorem Phase.ack_confirms (h : scene.Phase requestId joinerDone predDone false net)
    {fromName : NodeName}
    (hmem : .unicast (net.state scene.coord).config.current
      (.joinAck (net.state scene.coord).joinInflight.requestId fromName) ∈ net.flight) :
    ∀ k, scene.name k = fromName → scene.Confirmed joinerDone predDone k :=
  h.packets _ hmem (h.inflight rfl).1

theorem Phase.coord_of_active (h : scene.Phase requestId joinerDone predDone coordDone net)
    {i : ι} (hactive : (net.state i).joinInflight.active = true) :
    i = scene.coord ∧ coordDone = false := by
  obtain rfl : i = scene.coord := by
    by_contra hother
    rw [h.idle i hother] at hactive
    cases hactive
  refine ⟨rfl, ?_⟩
  rw [h.active] at hactive
  simpa using hactive

/-- The coordinator completes the join, perhaps on a confirmation that it has
just recorded. -/
theorem Phase.completed_run {event : Event} {mid : RingState} {answers : List Effect}
    (h : scene.Phase requestId joinerDone predDone false net)
    (hrun : net.Runs scene.coord event ((joinFsmComplete mid).2 ++ answers) net')
    (hmid : mid = net.state scene.coord ∨ ∃ fromName now ok,
      event = .unicastMessage
        (.joinAck (net.state scene.coord).joinInflight.requestId fromName) now ok ∧
      mid = recordConfirm (net.state scene.coord) fromName)
    (hprev : mid.joinInflight.gotConfirmPrev = true)
    (hjoiner : mid.joinInflight.gotConfirmJoiner = true) (hanswers : OnlyAckAcks answers)
    (hafter : net'.state scene.coord = (joinFsmComplete mid).1) :
    scene.Phase requestId true true true net' := by
  -- the net between the recorded confirmation and the completion
  let between : Net ι := { net with state := Function.update net.state scene.coord mid }
  have hbetween : ∀ k, k ≠ scene.coord → between.state k = net.state k :=
    fun k hk => Function.update_of_ne hk _ _
  have hcoord : between.state scene.coord = mid := Function.update_self _ _ _
  have hphase : scene.Phase requestId joinerDone predDone false between := by
    rcases hmid with rfl | ⟨fromName, now, ok, rfl, rfl⟩
    · have hsame : between = net := by simp [between]
      rw [hsame]
      exact h
    · have hfrom := h.ack_confirms (hrun.received _ _ _ rfl)
      exact h.confirm hfrom hbetween hcoord fun packet => .inl
  apply hphase.coord_done
  · rw [hcoord]
    exact hprev
  · rw [hcoord]
    exact hjoiner
  · intro k hk
    rw [hbetween k hk, hrun.others k hk]
  · rw [hcoord, hafter]
  · apply hrun.sent
    intro effect hsent packet hpacket
    rcases List.mem_append.mp hsent with hcommit | hanswer
    · cases List.mem_singleton.mp hcommit
      cases hpacket
      exact fun _ => rfl
    · exact tells_of_onlyAckAcks hanswers hanswer hpacket

/-- A handler call leaves the join in a phase. -/
theorem Phase.step_run {i : ι} {event : Event} {out : List Effect}
    (h : scene.Phase requestId joinerDone predDone coordDone net)
    (hrun : net.Runs i event out net') :
    ∃ joinerDone' predDone' coordDone',
      scene.Phase requestId joinerDone' predDone' coordDone' net' := by
  have htrans := hrun.transition
  generalize hafter : net'.state i = after at htrans
  cases htrans with
  | idle _ _ =>
      refine ⟨_, _, _, h.quiet_run hrun ?_ nofun⟩
      rw [hafter]
      exact .refl _
  | recordRead | joinStarted | forwarded => cases hrun.ofJoin
  | requestSent _ _ _ =>
      refine ⟨_, _, _, h.quiet_run hrun ?_ fun effect hsent packet hpacket => ?_⟩
      · rw [hafter]
        exact { SameRole.refl (net.state i) with }
      · cases List.mem_singleton.mp hsent
        cases hpacket
        trivial
  | queueShrunk _ _ joinState _ | enqueued _ _ _ joinState _ _ _ _ =>
      refine ⟨_, _, _, h.quiet_run hrun ?_ nofun⟩
      rw [hafter]
      exact { SameRole.refl (net.state i) with }
  | senderChanged _ _ sender hsender =>
      refine ⟨_, _, _, h.quiet_run hrun ?_ nofun⟩
      rw [hafter]
      exact { SameRole.refl (net.state i) with sender := hsender }
  | commitSeen _ _ _ _ _ _ sender _ _ hsender _ =>
      refine ⟨_, _, _, h.quiet_run hrun ?_ nofun⟩
      rw [hafter]
      exact { SameRole.refl (net.state i) with sender := hsender }
  | commitCompleted _ _ _ _ _ _ _ _ _ hactive =>
      -- no commit of this join is under way before the join is completed
      obtain ⟨rfl, rfl⟩ := h.coord_of_active hactive
      cases h.packets _ (hrun.heard _ _ _ rfl) (h.inflight rfl).1
  | ackSent now ok sender hactive _ _ hsender =>
      refine ⟨_, _, _, h.quiet_run hrun ?_ fun effect hsent packet hpacket => ?_⟩
      · rw [hafter]
        exact { SameRole.refl (net.state i) with sender := hsender }
      · cases List.mem_singleton.mp hsent
        cases hpacket
        intro hid k hk
        rw [h.current] at hk
        obtain rfl := scene.eq_of_name hk
        exact (h.senders k hactive hid).1
  | acceptsSent now ok retries hactive =>
      obtain ⟨rfl, _⟩ := h.coord_of_active hactive
      refine ⟨_, _, _, h.quiet_run hrun ?_ fun _ hsent _ => h.accepts_tell hactive hsent⟩
      rw [hafter]
      exact { SameRole.refl (net.state scene.coord) with }
  | ackAnswered _ _ _ _ answers hanswers =>
      refine ⟨_, _, _, h.quiet_run hrun ?_ fun _ hsent _ => tells_of_onlyAckAcks hanswers hsent⟩
      rw [hafter]
      exact .refl _
  | tokenStored token now ok _ =>
      refine ⟨_, _, _, h.quiet_run hrun ?_ nofun⟩
      rw [hafter]
      exact { SameRole.refl (net.state i) with }
  | tokenTaken token now ok joinState _ _ _ =>
      refine ⟨_, _, _, h.quiet_run hrun ?_ nofun⟩
      rw [hafter]
      exact { SameRole.refl (net.state i) with }
  | acceptJoined accept now ok joinState sentAt _ hself hunjoined _ =>
      obtain ⟨rfl, rfl, rfl⟩ := h.accept_for_joiner hunjoined hself (hrun.received _ _ _ rfl)
      refine ⟨_, _, _, h.joiner_done hrun.others hafter
        (hrun.sent fun effect hsent packet hpacket => ?_)⟩
      cases List.mem_singleton.mp hsent
      cases hpacket
      intro _ k hk
      rw [h.current] at hk
      obtain rfl := scene.eq_of_name hk
      exact ⟨fun _ => rfl, fun hpred => absurd hpred.symm scene.pred_member⟩
  | acceptLinked accept now ok joinState sentAt _ _ hself hnext =>
      obtain ⟨rfl, hapart, rfl, rfl⟩ :=
        h.accept_for_pred hself hnext (hrun.received _ _ _ rfl)
      refine ⟨_, _, _, h.pred_done hapart hrun.others hafter
        (hrun.sent fun effect hsent packet hpacket => ?_)⟩
      cases List.mem_singleton.mp hsent
      cases hpacket
      intro _ k hk
      rw [h.current] at hk
      obtain rfl := scene.eq_of_name hk
      exact ⟨fun hjoins => absurd hjoins scene.pred_member, fun _ => .inr rfl⟩
  | confirmed fromName now ok answers hactive hanswers =>
      obtain ⟨rfl, rfl⟩ := h.coord_of_active hactive
      have hfrom := h.ack_confirms (hrun.received _ _ _ rfl)
      exact ⟨_, _, _, h.confirm hfrom hrun.others hafter
        (hrun.sent fun _ hsent _ => tells_of_onlyAckAcks hanswers hsent)⟩
  | completed event _ mid answers hactive hmid hprev hjoiner hanswers =>
      obtain ⟨rfl, rfl⟩ := h.coord_of_active hactive
      exact ⟨_, _, _, h.completed_run hrun hmid hprev hjoiner hanswers hafter⟩

theorem Phase.step {e : NetEvent ι} (h : scene.Phase requestId joinerDone predDone coordDone net)
    (hstep : net.step e = some net') :
    ∃ joinerDone' predDone' coordDone',
      scene.Phase requestId joinerDone' predDone' coordDone' net' := by
  rcases Net.step_cases hstep with ⟨i, event, out, _, hrun⟩ | ⟨hstate, hflight⟩
  · exact h.step_run hrun
  · refine ⟨_, _, _, h.quiet (fun k => ?_) fun packet hmem => .inl (hflight packet hmem)⟩
    rw [hstate]
    exact .refl _

/-- Every state that a join reaches is in a phase of it. -/
theorem reachable_phase {before : Net ι} {pending : PendingJoin}
    (hready : scene.Ready before pending)
    (hrun : Lts.Reachable Net.step (scene.begin before pending) net) :
    ∃ joinerDone predDone coordDone,
      scene.Phase pending.requestId joinerDone predDone coordDone net := by
  refine hrun.invariant
    (fun net => ∃ joinerDone predDone coordDone,
      scene.Phase pending.requestId joinerDone predDone coordDone net)
    ⟨_, _, _, hready.begin_phase⟩ ?_
  rintro x e y ⟨_, _, _, hphase⟩ _ hstep
  exact hphase.step hstep

/-- The cycle after the join. -/
def inserted (scene : Scene ι) : Equiv.Perm ι :=
  CycleInsert.insertAfter scene.next scene.pred scene.joiner

theorem inserted_cycle : scene.inserted.IsCycleOn Set.univ := by
  have hcycle := CycleInsert.isCycleOn_insertAfter scene.ring
    (show scene.pred ∈ {i | i ≠ scene.joiner} from scene.pred_member)
    (fun hmem => hmem rfl) scene.next_joiner
  have hall : insert scene.joiner {i | i ≠ scene.joiner} = Set.univ := by
    ext i
    simp [em]
  rwa [hall] at hcycle

/-- When everybody has done a part, all entries follow the new cycle. -/
theorem Phase.entries_done (h : scene.Phase requestId true true true net) (i : ι) :
    (net.state i).config.next = scene.self (scene.inserted i) ∧
      (net.state i).config.prev = scene.self (scene.inserted.symm i) := by
  by_cases hi : i = scene.joiner
  · subst hi
    obtain ⟨hnext, hprev⟩ := h.joiner_entries rfl
    constructor
    · rw [hnext, inserted, CycleInsert.insertAfter_new, scene.next_pred]
    · rw [hprev, inserted, CycleInsert.insertAfter_symm_new scene.next_joiner]
  · constructor
    · rw [h.next_entry i hi]
      by_cases hpred : i = scene.pred
      · rw [hpred, inserted, CycleInsert.insertAfter_pred scene.next_joiner]
        simp
      · rw [inserted, CycleInsert.insertAfter_of_ne hpred hi]
        simp [hpred]
    · rw [h.prev_entry i hi]
      by_cases hcoord : i = scene.coord
      · have hback : scene.inserted.symm scene.coord = scene.joiner := by
          rw [← scene.next_pred]
          exact CycleInsert.insertAfter_symm_next
        rw [hcoord, hback]
        simp
      · rw [inserted, CycleInsert.insertAfter_symm_of_ne (by rwa [scene.next_pred]) hi
          scene.next_joiner]
        simp [hcoord]

/-- The nodes apart from the three keep their entries in every phase. -/
theorem Phase.config_kept {before : Net ι} {pending : PendingJoin}
    (hready : scene.Ready before pending)
    (h : scene.Phase requestId joinerDone predDone coordDone net) {i : ι}
    (hcoord : i ≠ scene.coord) (hpred : i ≠ scene.pred) (hjoiner : i ≠ scene.joiner) :
    (net.state i).config = (before.state i).config := by
  have hcurrent : (net.state i).config.current = (before.state i).config.current := by
    rw [h.current, hready.current]
  have hprev : (net.state i).config.prev = (before.state i).config.prev := by
    rw [h.prev_entry i hjoiner, hready.prev_entry i hjoiner]
    simp [hcoord]
  have hnext : (net.state i).config.next = (before.state i).config.next := by
    rw [h.next_entry i hjoiner, hready.next_entry i hjoiner]
    simp [hpred]
  generalize (net.state i).config = after at *
  generalize (before.state i).config = start at *
  cases after
  cases start
  simp_all

/-- A join inserts the joiner between the old predecessor and the coordinator,
whatever the network does, and touches no other node. -/
theorem join_inserts_joiner {before : Net ι} {pending : PendingJoin}
    (hready : scene.Ready before pending)
    (hrun : Lts.Reachable Net.step (scene.begin before pending) net) :
    (∀ i, i ≠ scene.coord → i ≠ scene.pred → i ≠ scene.joiner →
      (net.state i).config = (before.state i).config) ∧
    ((net.state scene.coord).joinInflight.active = false →
      (net.state scene.joiner).joined = true ∧
      ∃ next' : Equiv.Perm ι, next'.IsCycleOn Set.univ ∧ next' scene.pred = scene.joiner ∧
        next' scene.joiner = scene.coord ∧
        ∀ i, (net.state i).config.next = scene.self (next' i) ∧
          (net.state i).config.prev = scene.self (next'.symm i)) := by
  obtain ⟨joinerDone, predDone, coordDone, hphase⟩ := reachable_phase hready hrun
  refine ⟨fun i hcoord hpred hjoiner => hphase.config_kept hready hcoord hpred hjoiner,
    fun hinactive => ?_⟩
  obtain rfl : coordDone = true := by
    rw [hphase.active] at hinactive
    simpa using hinactive
  obtain ⟨rfl, rfl⟩ := hphase.done rfl
  refine ⟨hphase.joiner_joined, scene.inserted, inserted_cycle, ?_, ?_, hphase.entries_done⟩
  · exact CycleInsert.insertAfter_pred scene.next_joiner
  · rw [inserted, CycleInsert.insertAfter_new, scene.next_pred]

end Facts

/-- The ring of `A` and `B`, in which `A` takes in node `C`. -/
def trio : Scene (Fin 3) where
  self := letterNode
  next := Equiv.swap 0 1
  coord := 0
  joiner := 2
  names_distinct := threeLetters_distinct
  ring := by
    have hmembers : {i : Fin 3 | i ≠ 2} = {0, 1} := by
      ext i
      have hthree : ∀ i : Fin 3, i ≠ 2 ↔ i = 0 ∨ i = 1 := by decide
      simpa using hthree i
    rw [hmembers]
    exact Equiv.Perm.isCycleOn_swap (by decide)
  coord_member := by decide

/-- `A` has the token, `C` waits for an answer to its request 7. -/
def trioBefore : Net (Fin 3) where
  state i :=
    let node := RingState.init
      ⟨trio.self i, trio.self (trio.next.symm i), trio.self (trio.next i)⟩ (i ≠ 2)
    if i = 0 then { node with haveToken := true }
    else if i = 2 then { node with joinRequestId := 7 }
    else node
  flight := []

def trioPending : PendingJoin := ⟨7, NodeName.ofBytes [67], 5003, 0, 10⟩

theorem trio_ready : trio.Ready trioBefore trioPending where
  current := by decide +kernel
  member_joined := by decide +kernel
  next_entry := by decide +kernel
  prev_entry := by decide +kernel
  joiner_unjoined := by decide +kernel
  pending_route := by decide +kernel
  pending_id := by decide +kernel
  idle := by decide +kernel
  no_sender := by decide +kernel
  no_packet := nofun

/-- `C` gets its accept twice and `B` gets the other one; both answer, and the
second answer completes the join. -/
theorem trio_join_inserts :
    ∃ net, Lts.Reachable Net.step (trio.begin trioBefore trioPending) net ∧
      (net.state 0).joinInflight.active = false ∧
      (net.state 2).joined = true ∧
      ∃ next' : Equiv.Perm (Fin 3), next'.IsCycleOn Set.univ ∧ next' 1 = 2 ∧ next' 2 = 0 ∧
        ∀ i, (net.state i).config.next = trio.self (next' i) ∧
          (net.state i).config.prev = trio.self (next'.symm i) := by
  have hrun : (Lts.exec Net.step (trio.begin trioBefore trioPending)
      [.run 0 (.joinFsmInflightTick 10 fun _ => true),
        .duplicate (.unicast (trio.self 2) (.joinAccept (trio.accept 7))),
        .run 2 (.unicastMessage (.joinAccept (trio.accept 7)) 10 fun _ => true),
        .run 2 (.unicastMessage (.joinAccept (trio.accept 7)) 10 fun _ => true),
        .run 0 (.unicastMessage (.joinAck 7 (trio.name 2)) 10 fun _ => true),
        .run 1 (.unicastMessage (.joinAccept (trio.accept 7)) 10 fun _ => true),
        .run 0 (.unicastMessage (.joinAck 7 (trio.name 1)) 10 fun _ => true)]).map
      (fun net => (net.state 0).joinInflight.active) = some false := by decide +kernel
  obtain ⟨net, hexec, hinactive⟩ := Option.map_eq_some_iff.mp hrun
  have hreach := Lts.reachable_of_exec hexec
  exact ⟨net, hreach, hinactive, (join_inserts_joiner trio_ready hreach).2 hinactive⟩

end Scene

end TokenRing
