import TokenRing.Cluster.Ring

/-!
The steps of a join, one after the other: it starts, the joiner and the
predecessor apply their accepts, and the completion closes the larger cycle.
-/

namespace TokenRing

open CycleInsert

variable {ι : Type*} {d : Deployment ι} {w w' : World ι} {ring : Equiv.Perm ι} {i : ι}
  {event : Event} {out : List Effect} {accept : JoinAccept}

/-- What the two ways of applying an accept have in common. -/
theorem World.Moves.applied_accept (h : w.Moves i event out w') (hjoin : w.JoinInv d ring)
    (happlies : RingApplies (w.state i) event accept (w'.state i) out)
    (hfresh : ¬ w.Spent d accept) :
    ∃ c, (w.state c).joinInflight.active = true ∧ i ≠ c ∧
      accept = buildJoinAcceptHost (w.state c) := by
  obtain ⟨now, ok, rfl⟩ := happlies.event
  exact (hjoin.accepts i accept h.offers).resolve_right hfresh

theorem World.Moves.same_inflight (h : w.Moves i event out w')
    (hsame : (w'.state i).joinInflight = (w.state i).joinInflight) (c : ι) :
    (w'.state c).joinInflight = (w.state c).joinInflight := by
  by_cases hc : c = i
  · rw [hc, hsame]
  · rw [h.others c hc]

section Starts

variable [Fintype ι] [DecidableEq ι] {pending : PendingJoin}

/-- Before a join starts there is none, so all accepts around are spent and no
acknowledgement has its id. -/
theorem World.Moves.ring_starts (h : w.Moves i event out w') (hg : w.Grounded d)
    (hring : w.RingOf d ring) (hjoin : w.JoinInv d ring)
    (hstarts : RingStarts (w.state i) pending (w'.state i) out) :
    w'.RingOf d ring ∧ w'.JoinInv d ring := by
  have hnone := hg.none_active hstarts.holder hstarts.idle
  have hidle : ∀ c, (w.state c).joinInflight.active = true → False := by
    intro c hactive
    rw [hnone c] at hactive
    cases hactive
  have honly : ∀ c, (w'.state c).joinInflight.active = true → c = i := by
    intro c hactive'
    by_contra hc
    rw [h.others c hc] at hactive'
    exact hidle c hactive'
  have hconfig : ∀ c, (w'.state c).config = (w.state c).config := by
    intro c
    by_cases hc : c = i
    · rw [hc, hstarts.config]
    · rw [h.others c hc]
  have hjoined : ∀ c, (w'.state c).joined = (w.state c).joined := by
    intro c
    by_cases hc : c = i
    · rw [hc, hstarts.joined]
    · rw [h.others c hc]
  obtain ⟨k, hslot⟩ := hstarts.waiting
  obtain ⟨j, hmember, hroute, hid⟩ := hg.candidates.queues i k pending hslot
  have hname : pending.nodeName = (d.self j).nodeName := congrArg Route.nodeName hroute
  have hunjoined : (w.state j).joined = false := by
    have hnot := hg.accounted.holder_queue hg.knows hg.one hg.versions hstarts.holder
      hstarts.idle hslot
    rw [hname, World.names_joined_self] at hnot
    simpa using hnot
  have hsettled : ∀ b, w'.Settled d b ↔ w.Settled d b := by
    refine fun b => ⟨fun hb => ⟨(hjoined b).symm.trans hb.1, ?_⟩, h.settled hg⟩
    rintro ⟨c, hactive, _⟩
    exact hidle c hactive
  have hholder : w.Settled d i := by
    refine ⟨(hg.knows.nodes i).coordinator.token_joined hstarts.holder, ?_⟩
    rintro ⟨c, hactive, _⟩
    exact hidle c hactive
  have hring' : w'.RingOf d ring := by
    refine ⟨?_, ?_, fun b hb => ?_, fun b hb => ?_, fun c b hactive' hself hb => ?_⟩
    · simpa only [hsettled] using hring.cycle
    · simpa only [hsettled] using hring.outside
    · rw [hconfig b]
      rcases hring.next b ((hsettled b).mp hb) with hnext | ⟨hactive, _⟩
      · exact .inl hnext
      · exact (hidle _ hactive).elim
    · rw [hconfig b]
      exact hring.prev b ((hsettled b).mp hb)
    · -- the joiner has not joined yet
      rw [honly c hactive', hstarts.joiner, hroute] at hself
      rw [d.names_distinct b j (congrArg Route.nodeName hself), hjoined j, hunjoined] at hb
      cases hb
  -- an id of a join that has begun is not that of the new joiner
  have hfresh : ∀ requestId, w.Begun d requestId →
      (w'.state i).joinInflight.requestId ≠ requestId := by
    rintro requestId ⟨b, hb, rfl, hlinked⟩ heq
    rw [hstarts.requestId, hid] at heq
    rw [← d.ids_distinct j b hmember hb heq] at hlinked
    rcases hlinked with hdone | ⟨c, hactive, _⟩
    · rw [hdone j rfl] at hunjoined
      cases hunjoined
    · exact hidle c hactive
  have hcarry : ∀ requestId fromName, w.Answered d ring requestId fromName →
      w'.Answered d ring requestId fromName := by
    refine fun requestId fromName hanswered =>
      ⟨h.begun hg.knows hanswered.1, fun c hactive' hsame _ => ?_⟩
    rw [honly c hactive'] at hsame
    exact (hfresh requestId hanswered.1 hsame).elim
  have halone : (w'.state i).joinInflight.gotConfirmPrev = true ↔ ring.symm i = i := by
    rw [hstarts.alone, hring.prev i hholder, hg.current i]
    exact ⟨d.names_distinct _ _, fun heq => by rw [heq]⟩
  refine ⟨hring', ?_, ?_, ?_, ?_, ?_⟩
  · intro c hactive' hself
    obtain rfl := honly c hactive'
    exact halone.mpr hself
  · intro c hactive' hgot
    obtain rfl := honly c hactive'
    exact .inl (halone.mp hgot)
  · intro k accept hmsg
    rcases h.mem_inbox hmsg with hold | hsent
    · rcases hjoin.accepts k accept hold with ⟨c, hactive, _⟩ | hspent
      · exact (hidle c hactive).elim
      · exact .inr (h.spent hg hspent fun _ => .inl (by rw [hconfig i]))
    · obtain ⟨hactive', rfl, hdst⟩ := hstarts.accepts _ _ _ hsent
      rw [hg.current k] at hdst
      refine .inl ⟨i, hactive', ?_, rfl⟩
      refine World.RingOf.accept_target ?_ ?_ halone.mpr hdst
      · rw [hconfig i, hring.prev i hholder]
      · rw [hstarts.joiner, hname]
        intro heq
        rw [d.names_distinct j i heq, hholder.1] at hunjoined
        cases hunjoined
  · intro k requestId fromName hmsg
    rcases h.mem_inbox hmsg with hold | hsent
    · exact hcarry _ _ (hjoin.acks k requestId fromName hold)
    · obtain ⟨hactive, rfl, rfl⟩ := hstarts.acks _ _ _ _ hsent
      rw [hg.current i]
      exact hcarry _ _ (hjoin.senders i hactive)
  · intro k hactive'
    have hsame : (w'.state k).ackSender = (w.state k).ackSender := by
      by_cases hk : k = i
      · rw [hk, hstarts.sender]
      · rw [h.others k hk]
    rw [hsame] at hactive' ⊢
    exact hcarry _ _ (hjoin.senders k hactive')

end Starts

section Applies

variable [Fintype ι] [DecidableEq ι]

/-- The messages and the confirmations after an accept of coordinator `c` was
applied at node `i`. -/
theorem World.Moves.join_applied (h : w.Moves i event out w') (hg : w.Grounded d)
    (hjoin : w.JoinInv d ring)
    (happlies : RingApplies (w.state i) event accept (w'.state i) out) {c : ι}
    (hactive : (w.state c).joinInflight.active = true) (hic : i ≠ c)
    (haccept : accept = buildJoinAcceptHost (w.state c))
    (hnext : (w.state i).joined = true → ∃ b,
      (d.self b).nodeName = (w'.state i).config.next.nodeName ∧ ¬ w.Settled d b)
    (hlinks : w.Linked ring c → w'.Linked ring c)
    (hself : (d.self i).nodeName = (d.self (ring.symm c)).nodeName → w'.Linked ring c) :
    w'.JoinInv d ring := by
  have hinflight := h.same_inflight happlies.inflight
  have hcoordinator : w'.state c = w.state c := h.others c hic.symm
  have honly : ∀ b, (w'.state b).joinInflight.active = true → b = c := by
    intro b hb
    rw [hinflight b] at hb
    exact hg.unique hb hactive
  have hcarry : ∀ requestId fromName, w.Answered d ring requestId fromName →
      w'.Answered d ring requestId fromName := by
    refine fun requestId fromName hanswered => h.answered hg.knows hanswered fun b hb => ?_
    rw [hinflight b] at hb ⊢
    rw [hg.unique hb hactive]
    exact ⟨hactive, rfl, hlinks⟩
  -- the acknowledgement of this accept
  have hown : w'.Answered d ring accept.requestId (d.self i).nodeName := by
    refine ⟨h.begun hg.knows ?_, fun b hb _ hfrom => ?_⟩
    · rw [haccept]
      exact hg.begun hactive
    · rw [honly b hb] at hfrom ⊢
      exact hself hfrom
  refine ⟨?_, ?_, ?_, ?_, ?_⟩
  · intro b hb halone
    rw [hinflight b] at hb ⊢
    exact hjoin.alone b hb halone
  · intro b hb hgot
    rw [hinflight b] at hb hgot
    refine (hjoin.confirmed b hb hgot).imp id ?_
    rw [hg.unique hb hactive]
    exact hlinks
  · intro k other hmsg
    rcases h.mem_inbox hmsg with hold | hsent
    · rcases hjoin.accepts k other hold with ⟨b, hb, hk, rfl⟩ | hspent
      · obtain rfl := hg.unique hb hactive
        exact .inl ⟨b, by rw [hcoordinator]; exact ⟨hb, hk, rfl⟩⟩
      · exact .inr (h.spent hg hspent fun hjoined => .inr (hnext hjoined))
    · exact absurd hsent (happlies.accepts _ _ _)
  · intro k requestId fromName hmsg
    rcases h.mem_inbox hmsg with hold | hsent
    · exact hcarry _ _ (hjoin.acks k requestId fromName hold)
    · obtain ⟨rfl, rfl⟩ := happlies.acks _ _ _ _ hsent
      rw [hg.current i]
      exact hown
  · intro k hsending
    by_cases hk : k = i
    · subst hk
      rw [happlies.sender]
      exact hown
    · rw [h.others k hk] at hsending ⊢
      exact hcarry _ _ (hjoin.senders k hsending)

/-- The joiner applies its accept: it knows its neighbours but is not settled
before the join is over. -/
theorem World.Moves.ring_joined (h : w.Moves i event out w') (hg : w.Grounded d)
    (hring : w.RingOf d ring) (hjoin : w.JoinInv d ring)
    (happlies : RingApplies (w.state i) event accept (w'.state i) out)
    (hname : (w.state i).config.current.nodeName = accept.newName)
    (hunjoined : (w.state i).joined = false)
    (hprev : (w'.state i).config.prev = ⟨accept.prevName, accept.prevUnicastPort⟩)
    (hnext : (w'.state i).config.next = ⟨accept.beforeName, accept.beforeUnicastPort⟩) :
    w'.RingOf d ring ∧ w'.JoinInv d ring := by
  rw [hg.current i] at hname
  obtain ⟨c, hactive, hic, haccept⟩ := h.applied_accept hjoin happlies fun hspent => by
    rw [hspent.new i hname] at hunjoined
    cases hunjoined
  have hinflight := h.same_inflight happlies.inflight
  have hnot : ¬ w.Settled d i := fun hsettled => by
    rw [hsettled.1] at hunjoined
    cases hunjoined
  have hjoining : w.Joining (d.self i).nodeName := by
    refine ⟨c, hactive, ?_⟩
    rw [hname, haccept]
    rfl
  have hsettled : ∀ b, w'.Settled d b ↔ w.Settled d b := by
    refine fun b => ⟨fun hb => ?_, h.settled hg⟩
    have hsame : w'.Joining (d.self b).nodeName ↔ w.Joining (d.self b).nodeName := by
      simp only [World.Joining, hinflight]
    by_cases hbi : b = i
    · subst hbi
      exact absurd (hsame.mpr hjoining) hb.2
    · refine ⟨?_, fun hold => hb.2 (hsame.mpr hold)⟩
      rw [← h.others b hbi]
      exact hb.1
  have hother : ∀ b, w.Settled d b → w'.state b = w.state b := by
    refine fun b hb => h.others b ?_
    rintro rfl
    exact hnot hb
  have hpredecessor : w'.state (ring.symm c) = w.state (ring.symm c) :=
    hother _ (hring.settled_prev (hg.coordinator_settled hactive))
  refine ⟨⟨?_, ?_, fun b hb => ?_, fun b hb => ?_, fun b j hb hself hj => ?_⟩, ?_⟩
  · simpa only [hsettled] using hring.cycle
  · simpa only [hsettled] using hring.outside
  · rw [hother b ((hsettled b).mp hb), hinflight]
    exact hring.next b ((hsettled b).mp hb)
  · rw [hother b ((hsettled b).mp hb)]
    exact hring.prev b ((hsettled b).mp hb)
  · rw [hinflight b] at hb hself
    obtain rfl := hg.unique hb hactive
    by_cases hji : j = i
    · subst hji
      rw [hprev, hnext, haccept]
      exact ⟨(hring.expected hg hactive).1, hg.current b⟩
    · rw [h.others j hji] at hj ⊢
      exact hring.joiner b j hactive hself hj
  · refine h.join_applied hg hjoin happlies hactive hic haccept (fun hjoined => ?_) ?_ ?_
    · rw [hjoined] at hunjoined
      cases hunjoined
    · intro hlinked
      unfold World.Linked at hlinked ⊢
      rw [hpredecessor, hinflight, hlinked]
    · intro heq
      have hpred := hring.settled_prev (hg.coordinator_settled hactive)
      rw [← d.names_distinct _ _ heq] at hpred
      exact absurd hpred hnot

/-- The predecessor of the coordinator applies its accept and points to the
joiner. -/
theorem World.Moves.ring_linked (h : w.Moves i event out w') (hg : w.Grounded d)
    (hring : w.RingOf d ring) (hjoin : w.JoinInv d ring)
    (happlies : RingApplies (w.state i) event accept (w'.state i) out)
    (hname : (w.state i).config.current.nodeName = accept.prevName)
    (hbefore : (w.state i).config.next.nodeName = accept.beforeName)
    (hprev : (w'.state i).config.prev = (w.state i).config.prev)
    (hnext : (w'.state i).config.next = ⟨accept.newName, accept.newUnicastPort⟩) :
    w'.RingOf d ring ∧ w'.JoinInv d ring := by
  obtain ⟨c, hactive, hic, haccept⟩ := h.applied_accept hjoin happlies fun hspent => by
    rw [hg.current i] at hname
    exact (hspent.prev i hname).2 hbefore
  have hinflight := h.same_inflight happlies.inflight
  have hpred : i = ring.symm c := hring.of_prevName hg hactive (by rw [hname, haccept])
  have hsettledi : w.Settled d i := by
    rw [hpred]
    exact hring.settled_prev (hg.coordinator_settled hactive)
  obtain ⟨j, _, hself, _⟩ := hg.joiner_node hactive
  have hroute : (w'.state i).config.next = (w.state c).joinInflight.joiner.route := by
    rw [hnext, haccept]
    rfl
  have hlinked : w'.Linked ring c := by
    unfold World.Linked
    rw [← hpred, hroute, hinflight c]
  have hjoined : ∀ b, (w'.state b).joined = (w.state b).joined := by
    intro b
    by_cases hbi : b = i
    · rw [hbi, happlies.joined, hsettledi.1]
    · rw [h.others b hbi]
  have hsettled : ∀ b, w'.Settled d b ↔ w.Settled d b := by
    intro b
    simp only [World.Settled, World.Joining, hjoined, hinflight]
  have hprevs : ∀ b, (w'.state b).config.prev = (w.state b).config.prev := by
    intro b
    by_cases hbi : b = i
    · rw [hbi, hprev]
    · rw [h.others b hbi]
  refine ⟨⟨?_, ?_, fun b hb => ?_, fun b hb => ?_, fun b k hb hk hjoinedk => ?_⟩, ?_⟩
  · simpa only [hsettled] using hring.cycle
  · simpa only [hsettled] using hring.outside
  · rw [hinflight]
    by_cases hbi : b = i
    · rw [hbi, hpred, Equiv.apply_symm_apply, ← hpred, hroute]
      exact .inr ⟨hactive, rfl⟩
    · rw [h.others b hbi]
      exact hring.next b ((hsettled b).mp hb)
  · rw [hprevs b]
    exact hring.prev b ((hsettled b).mp hb)
  · rw [hinflight b] at hb hk
    have hki : k ≠ i := by
      rintro rfl
      exact World.joiner_not_settled hb hk hsettledi
    rw [h.others k hki] at hjoinedk ⊢
    exact hring.joiner b k hb hk hjoinedk
  · refine h.join_applied hg hjoin happlies hactive hic haccept (fun _ => ⟨j, ?_, ?_⟩)
      (fun _ => hlinked) (fun _ => hlinked)
    · rw [hroute, hself]
    · exact World.joiner_not_settled hactive hself

end Applies

end TokenRing
