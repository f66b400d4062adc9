import TokenRing.Cluster.RingChange
import TokenRing.Lib.CycleInsert

/-!
The ring as the routes of the nodes draw it. In a run of fresh steps the nodes
whose join is over form one cycle. While a join is in flight, its joiner may
already be the successor of the coordinator's predecessor and may already have
taken over its own two routes; the completion then makes it a part of the
cycle, right before the coordinator.
-/

namespace TokenRing

open CycleInsert

variable {ι : Type*} {d : Deployment ι} {w w' : World ι} {ring : Equiv.Perm ι}

/-- The node has joined, and its join is over. -/
def World.Settled (w : World ι) (d : Deployment ι) (i : ι) : Prop :=
  (w.state i).joined = true ∧ ¬ w.Joining (d.self i).nodeName

/-- The predecessor of coordinator `c` has the joiner as its successor. -/
def World.Linked (w : World ι) (ring : Equiv.Perm ι) (c : ι) : Prop :=
  (w.state (ring.symm c)).config.next = (w.state c).joinInflight.joiner.route

/-- The id is that of a node that has joined or is being joined. -/
def World.Begun (w : World ι) (d : Deployment ι) (requestId : UInt32) : Prop :=
  ∃ j, d.member j = false ∧ d.requestId j = requestId ∧ (w.names d).linked (d.self j).nodeName

/-- An acknowledgement is for a join that has begun, and when it comes from the
predecessor of the coordinator, that one has linked the joiner. -/
def World.Answered (w : World ι) (d : Deployment ι) (ring : Equiv.Perm ι) (requestId : UInt32)
    (fromName : NodeName) : Prop :=
  w.Begun d requestId ∧ ∀ c, (w.state c).joinInflight.active = true →
    (w.state c).joinInflight.requestId = requestId →
    fromName = (d.self (ring.symm c)).nodeName → w.Linked ring c

/-- An accept of a join that is over: no node applies it any more. -/
structure World.Spent (w : World ι) (d : Deployment ι) (accept : JoinAccept) : Prop where
  new : (w.names d).joined accept.newName
  before : ∀ b, (d.self b).nodeName = accept.beforeName → w.Settled d b
  prev : ∀ p, (d.self p).nodeName = accept.prevName →
    (w.state p).joined = true ∧ (w.state p).config.next.nodeName ≠ accept.beforeName

/-- The routes of the settled nodes draw the cycle `ring`, but for the joiner
in flight, which the predecessor of its coordinator may already point to. -/
structure World.RingOf (w : World ι) (d : Deployment ι) (ring : Equiv.Perm ι) : Prop where
  cycle : ring.IsCycleOn {i | w.Settled d i}
  outside : ∀ i, ¬ w.Settled d i → ring i = i
  next : ∀ i, w.Settled d i → (w.state i).config.next = d.self (ring i) ∨
    ((w.state (ring i)).joinInflight.active = true ∧
      (w.state i).config.next = (w.state (ring i)).joinInflight.joiner.route)
  prev : ∀ i, w.Settled d i → (w.state i).config.prev = d.self (ring.symm i)
  joiner : ∀ c j, (w.state c).joinInflight.active = true →
    d.self j = (w.state c).joinInflight.joiner.route → (w.state j).joined = true →
    (w.state j).config.prev = d.self (ring.symm c) ∧ (w.state j).config.next = d.self c

/-- The messages and confirmations of the join in flight. -/
structure World.JoinInv (w : World ι) (d : Deployment ι) (ring : Equiv.Perm ι) : Prop where
  alone : ∀ c, (w.state c).joinInflight.active = true → ring.symm c = c →
    (w.state c).joinInflight.gotConfirmPrev = true
  confirmed : ∀ c, (w.state c).joinInflight.active = true →
    (w.state c).joinInflight.gotConfirmPrev = true → ring.symm c = c ∨ w.Linked ring c
  accepts : ∀ k accept, .joinAccept accept ∈ w.inbox k →
    (∃ c, (w.state c).joinInflight.active = true ∧ k ≠ c ∧
      accept = buildJoinAcceptHost (w.state c)) ∨ w.Spent d accept
  acks : ∀ k requestId fromName, .joinAck requestId fromName ∈ w.inbox k →
    w.Answered d ring requestId fromName
  senders : ∀ k, (w.state k).ackSender.active = true →
    w.Answered d ring (w.state k).ackSender.requestId (d.self k).nodeName

/-- What is known of a state that fresh steps have reached. -/
structure World.Grounded [Fintype ι] (w : World ι) (d : Deployment ι) : Prop where
  current : ∀ i, (w.state i).config.current = d.self i
  knows : w.Knows d
  one : w.OneToken
  versions : w.Versions
  accounted : w.Accounted d
  candidates : w.Candidates d

theorem reaches_grounded [Fintype ι] [DecidableEq ι]
    (h : Lts.Reaches World.step World.RequestsFresh d.start w)
    (hfew : w.commitVersions.length < 2 ^ 32) : w.Grounded d := by
  have hreachable : Lts.Reachable World.step d.start w := h.weaken fun _ _ _ => trivial
  exact ⟨fun i => (reachable_identity hreachable i).1, reachable_knows hreachable,
    reachable_oneToken hreachable, reachable_versions hreachable hfew,
    reaches_accounted h hfew, reachable_candidates hreachable⟩

section Facts

variable {c i j : ι}

/-- The joiner in flight is not settled. -/
theorem World.joiner_not_settled (hactive : (w.state c).joinInflight.active = true)
    (hself : d.self j = (w.state c).joinInflight.joiner.route) : ¬ w.Settled d j := by
  intro hsettled
  refine hsettled.2 ⟨c, hactive, ?_⟩
  rw [hself]
  rfl

theorem World.RingOf.settled_prev (hring : w.RingOf d ring) (hsettled : w.Settled d i) :
    w.Settled d (ring.symm i) := by
  have hback : ring (ring.symm i) ∈ {k | w.Settled d k} := by simpa using hsettled
  exact hring.cycle.apply_mem_iff.mp hback

variable [Fintype ι]

/-- The joiner in flight is a node that was not started as a member. -/
theorem World.Grounded.joiner_node (hg : w.Grounded d)
    (hactive : (w.state c).joinInflight.active = true) :
    ∃ j, d.member j = false ∧ d.self j = (w.state c).joinInflight.joiner.route ∧
      (w.state c).joinInflight.requestId = d.requestId j := by
  obtain ⟨j, hmember, hself, hid⟩ := hg.candidates.joiners c hactive
  refine ⟨j, hmember, hself.symm, ?_⟩
  rw [← ((hg.knows.nodes c).inflight hactive).1, hid]

theorem World.Grounded.begun (hg : w.Grounded d)
    (hactive : (w.state c).joinInflight.active = true) :
    w.Begun d (w.state c).joinInflight.requestId := by
  obtain ⟨j, hmember, hself, hid⟩ := hg.joiner_node hactive
  refine ⟨j, hmember, hid.symm, .inr ⟨c, hactive, ?_⟩⟩
  rw [hself]
  rfl

variable [DecidableEq ι]

/-- At most one node coordinates a join. -/
theorem World.Grounded.unique (hg : w.Grounded d) (hi : (w.state i).joinInflight.active = true)
    (hj : (w.state j).joinInflight.active = true) : i = j :=
  World.place_unique hg.one.one (.inl ((hg.knows.nodes i).coordinator.active_token hi))
    (.inl ((hg.knows.nodes j).coordinator.active_token hj))

/-- Beside the idle holder no node coordinates a join. -/
theorem World.Grounded.none_active (hg : w.Grounded d) (htoken : (w.state i).haveToken = true)
    (hidle : (w.state i).joinInflight.active = false) (c : ι) :
    (w.state c).joinInflight.active = false := by
  cases hactive : (w.state c).joinInflight.active with
  | false => rfl
  | true =>
      have hholds := (hg.knows.nodes c).coordinator.active_token hactive
      rw [World.place_unique hg.one.one (.inl hholds) (.inl htoken), hidle] at hactive
      cases hactive

/-- The coordinator is settled. -/
theorem World.Grounded.coordinator_settled (hg : w.Grounded d)
    (hactive : (w.state c).joinInflight.active = true) : w.Settled d c := by
  have hcoordinator := (hg.knows.nodes c).coordinator
  refine ⟨hcoordinator.token_joined (hcoordinator.active_token hactive), ?_⟩
  rintro ⟨k, hk, hname⟩
  have hself := hcoordinator.joiner_other hactive
  rw [hg.current c] at hself
  rw [hg.unique hk hactive] at hname
  exact hself hname

/-- The coordinator expects its predecessor in the ring. -/
theorem World.RingOf.expected (hring : w.RingOf d ring) (hg : w.Grounded d)
    (hactive : (w.state c).joinInflight.active = true) :
    (w.state c).config.prev = d.self (ring.symm c) ∧
      (w.state c).joinInflight.expectedPrevName = (d.self (ring.symm c)).nodeName := by
  have hprev := hring.prev c (hg.coordinator_settled hactive)
  refine ⟨hprev, ?_⟩
  rw [(hg.knows.nodes c).coordinator.expected_prev hactive, hprev]

/-- A node that gets a current accept as its predecessor is the predecessor of
the coordinator. -/
theorem World.RingOf.of_prevName (hring : w.RingOf d ring) (hg : w.Grounded d)
    (hactive : (w.state c).joinInflight.active = true)
    (hname : (w.state i).config.current.nodeName =
      (buildJoinAcceptHost (w.state c)).prevName) : i = ring.symm c := by
  rw [hg.current i] at hname
  change (d.self i).nodeName = (w.state c).config.prev.nodeName at hname
  rw [(hring.expected hg hactive).1] at hname
  exact d.names_distinct _ _ hname

end Facts

section Steps

variable {i : ι} {event : Event} {out : List Effect}

theorem World.Moves.joined_stays (h : w.Moves i event out w') {j : ι}
    (hjoined : (w.state j).joined = true) : (w'.state j).joined = true := by
  by_cases hji : j = i
  · rw [hji] at hjoined ⊢
    exact h.transition.identity.2.2 hjoined
  · rwa [h.others j hji]

theorem World.Moves.begun (h : w.Moves i event out w') (hknows : w.Knows d)
    {requestId : UInt32} (hbegun : w.Begun d requestId) : w'.Begun d requestId := by
  obtain ⟨j, hmember, hid, hlinked⟩ := hbegun
  exact ⟨j, hmember, hid, (h.grows hknows (hknows.received h.offers)).linked _ hlinked⟩

/-- An acknowledgement stays good if the joins in flight do and their links
stay. -/
theorem World.Moves.answered (h : w.Moves i event out w') (hknows : w.Knows d)
    {requestId : UInt32} {fromName : NodeName} (hanswered : w.Answered d ring requestId fromName)
    (hkeep : ∀ c, (w'.state c).joinInflight.active = true →
      (w.state c).joinInflight.active = true ∧
      (w'.state c).joinInflight.requestId = (w.state c).joinInflight.requestId ∧
      (w.Linked ring c → w'.Linked ring c)) : w'.Answered d ring requestId fromName := by
  refine ⟨h.begun hknows hanswered.1, fun c hactive' hid hfrom => ?_⟩
  obtain ⟨hactive, hsame, hlinks⟩ := hkeep c hactive'
  rw [hsame] at hid
  exact hlinks (hanswered.2 c hactive hid hfrom)

variable [Fintype ι] [DecidableEq ι]

/-- A join that is in flight after a step was so before, or its joiner had not
joined. -/
theorem World.Moves.joining_before (h : w.Moves i event out w') (hg : w.Grounded d)
    {name : NodeName} (hjoining : w'.Joining name) :
    w.Joining name ∨ ¬ (w.names d).joined name := by
  obtain ⟨c, hactive', rfl⟩ := hjoining
  by_cases hc : c = i
  · subst hc
    cases hactive : (w.state c).joinInflight.active with
    | true =>
        have hsame := (h.transition.keeps (hg.knows.nodes c).coordinator).same_joiner hactive
          hactive'
        exact .inl ⟨c, hactive, by rw [hsame]⟩
    | false =>
        obtain ⟨htoken, k, hslot⟩ := h.transition.join_starts hactive hactive'
        exact .inr (hg.accounted.holder_queue hg.knows hg.one hg.versions htoken hactive hslot)
  · rw [h.others c hc] at hactive' ⊢
    exact .inl ⟨c, hactive', rfl⟩

/-- A settled node stays settled. -/
theorem World.Moves.settled (h : w.Moves i event out w') (hg : w.Grounded d) {j : ι}
    (hsettled : w.Settled d j) : w'.Settled d j := by
  refine ⟨h.joined_stays hsettled.1, fun hjoining => ?_⟩
  rcases h.joining_before hg hjoining with hold | hnot
  · exact hsettled.2 hold
  · exact hnot (World.names_joined_self j |>.mpr hsettled.1)

/-- An accept stays spent if no joined node takes a settled node as its new
successor. -/
theorem World.Moves.spent (h : w.Moves i event out w') (hg : w.Grounded d) {accept : JoinAccept}
    (hspent : w.Spent d accept)
    (hnext : (w.state i).joined = true →
      (w'.state i).config.next = (w.state i).config.next ∨
        ∃ b, (d.self b).nodeName = (w'.state i).config.next.nodeName ∧ ¬ w.Settled d b) :
    w'.Spent d accept := by
  refine ⟨fun j hj => h.joined_stays (hspent.new j hj),
    fun b hb => h.settled hg (hspent.before b hb), fun p hp => ?_⟩
  obtain ⟨hjoined, hne⟩ := hspent.prev p hp
  refine ⟨h.joined_stays hjoined, ?_⟩
  by_cases hpi : p = i
  · subst hpi
    rcases hnext hjoined with hsame | ⟨b, hname, hnot⟩
    · rwa [hsame]
    · intro heq
      exact hnot (hspent.before b (hname.trans heq))
  · rwa [h.others p hpi]

end Steps

section Quiet

variable {i : ι} {event : Event} {out : List Effect}

theorem World.Moves.same_ring (h : w.Moves i event out w')
    (hsame : (w.state i).SameRing (w'.state i)) (c : ι) : (w.state c).SameRing (w'.state c) := by
  by_cases hc : c = i
  · rwa [hc]
  · rw [h.others c hc]
    exact .refl _

theorem World.settled_same (hsame : ∀ c, (w.state c).SameRing (w'.state c)) (j : ι) :
    w'.Settled d j ↔ w.Settled d j := by
  have hjoining : w'.Joining (d.self j).nodeName ↔ w.Joining (d.self j).nodeName := by
    simp only [World.Joining, fun c => (hsame c).active, fun c => (hsame c).joiner]
  simp only [World.Settled, (hsame j).joined, hjoining]

theorem World.RingOf.of_same (hring : w.RingOf d ring)
    (hsame : ∀ c, (w.state c).SameRing (w'.state c)) : w'.RingOf d ring := by
  have hsettled := World.settled_same (d := d) hsame
  constructor
  · simpa only [hsettled] using hring.cycle
  · simpa only [hsettled] using hring.outside
  · simpa only [hsettled, fun c => (hsame c).config, fun c => (hsame c).active,
      fun c => (hsame c).joiner] using hring.next
  · simpa only [hsettled, fun c => (hsame c).config] using hring.prev
  · simpa only [fun c => (hsame c).config, fun c => (hsame c).active, fun c => (hsame c).joiner,
      fun c => (hsame c).joined] using hring.joiner

theorem RingState.SameRing.build {state state' : RingState} (h : state.SameRing state') :
    buildJoinAcceptHost state' = buildJoinAcceptHost state := by
  simp only [buildJoinAcceptHost, h.config, h.requestId, h.joiner]

/-- The addressee of an accept is not its coordinator. -/
theorem World.RingOf.accept_target {c k : ι}
    (hprev : (w.state c).config.prev = d.self (ring.symm c))
    (hother : (w.state c).joinInflight.joiner.nodeName ≠ (d.self c).nodeName)
    (halone : ring.symm c = c → (w.state c).joinInflight.gotConfirmPrev = true)
    (hdst : d.self k = (w.state c).joinInflight.joiner.route ∨
      (w.state c).joinInflight.gotConfirmPrev = false ∧ d.self k = (w.state c).config.prev) :
    k ≠ c := by
  rintro rfl
  rcases hdst with hjoiner | ⟨hmissing, hself⟩
  · rw [hjoiner] at hother
    exact hother rfl
  · rw [hprev] at hself
    rw [halone (d.names_distinct _ _ (congrArg Route.nodeName hself.symm))] at hmissing
    cases hmissing

variable [Fintype ι] [DecidableEq ι]

/-- A quiet step changes nothing of the ring or the join in flight. -/
theorem World.Moves.ring_quiet (h : w.Moves i event out w') (hg : w.Grounded d)
    (hring : w.RingOf d ring) (hjoin : w.JoinInv d ring)
    (hquiet : RingQuiet (w.state i) event (w'.state i) out) :
    w'.RingOf d ring ∧ w'.JoinInv d ring := by
  have hsame := h.same_ring hquiet.same
  have hlinked : ∀ c, w.Linked ring c → w'.Linked ring c := by
    intro c hlink
    unfold World.Linked at hlink ⊢
    rw [(hsame _).config, (hsame c).joiner, hlink]
  have hcarry : ∀ requestId fromName, w.Answered d ring requestId fromName →
      w'.Answered d ring requestId fromName := by
    refine fun requestId fromName hanswered => h.answered hg.knows hanswered ?_
    intro c hactive'
    exact ⟨(hsame c).active.symm.trans hactive', (hsame c).requestId, hlinked c⟩
  have hgot : ∀ c, (w.state c).joinInflight.active = true →
      (w'.state c).joinInflight.gotConfirmPrev = true → ring.symm c = c ∨ w.Linked ring c := by
    intro c hactive hgot'
    by_cases hc : c = i
    · subst hc
      rcases hquiet.confirms hactive hgot' with hold | ⟨fromName, now, ok, rfl, hfrom⟩
      · exact hjoin.confirmed c hactive hold
      · obtain ⟨hprev, hexpected⟩ := hring.expected hg hactive
        refine .inr ((hjoin.acks c _ fromName h.offers).2 c hactive rfl ?_)
        rw [hexpected, hprev] at hfrom
        exact hfrom.elim id id
    · rw [h.others c hc] at hgot'
      exact hjoin.confirmed c hactive hgot'
  refine ⟨hring.of_same hsame, ?_, ?_, ?_, ?_, ?_⟩
  · intro c hactive' halone
    have hbefore := hjoin.alone c ((hsame c).active.symm.trans hactive') halone
    by_cases hc : c = i
    · subst hc
      exact hquiet.stays hbefore
    · rwa [h.others c hc]
  · intro c hactive' hgot'
    exact (hgot c ((hsame c).active.symm.trans hactive') hgot').imp id (hlinked c)
  · intro k accept hmsg
    rcases h.mem_inbox hmsg with hold | hsent
    · rcases hjoin.accepts k accept hold with ⟨c, hactive, hk, rfl⟩ | hspent
      · exact .inl ⟨c, (hsame c).active.trans hactive, hk, (hsame c).build.symm⟩
      · exact .inr (h.spent hg hspent fun _ => .inl (by rw [(hsame i).config]))
    · obtain ⟨hactive, rfl, hdst⟩ := hquiet.accepts _ _ _ hsent
      rw [hg.current k] at hdst
      have hother := (hg.knows.nodes i).coordinator.joiner_other hactive
      rw [hg.current i] at hother
      exact .inl ⟨i, (hsame i).active.trans hactive,
        World.RingOf.accept_target (hring.expected hg hactive).1 hother (hjoin.alone i hactive)
          hdst, (hsame i).build.symm⟩
  · intro k requestId fromName hmsg
    rcases h.mem_inbox hmsg with hold | hsent
    · exact hcarry _ _ (hjoin.acks k requestId fromName hold)
    · obtain ⟨hactive, rfl, rfl⟩ := hquiet.acks _ _ _ _ hsent
      rw [hg.current i]
      exact hcarry _ _ (hjoin.senders i hactive)
  · intro k hactive'
    by_cases hk : k = i
    · subst hk
      obtain ⟨hactive, hid⟩ := hquiet.sender hactive'
      rw [hid]
      exact hcarry _ _ (hjoin.senders k hactive)
    · rw [h.others k hk] at hactive' ⊢
      exact hcarry _ _ (hjoin.senders k hactive')

end Quiet

end TokenRing
