import TokenRing.Cluster.RingJoins
import TokenRing.Lib.GrowingRing

/-!
The whole system as one growing ring. Whatever the nodes do in a run of fresh
steps, it is a run of the ring: the token goes to the next node, or a joiner
enters right before the node that holds it.
-/

namespace TokenRing

open CycleInsert

variable {ι : Type*} {d : Deployment ι} {w w' : World ι}

/-- The token is held here or is in the inbox. -/
def World.TokenAt (w : World ι) (i : ι) : Prop :=
  (w.state i).haveToken = true ∨ ∃ token, .token token ∈ w.inbox i

/-- The state of the system shows the ring `r`. -/
structure World.Shows [DecidableEq ι] (w : World ι) (d : Deployment ι) (r : GrowingRing ι) :
    Prop where
  nodes : ∀ i, i ∈ r.nodes ↔ w.Settled d i
  ring : w.RingOf d r.next
  join : w.JoinInv d r.next
  place : w.TokenAt r.place

/-- The ring of the members, with the token at the starter. -/
def Deployment.growingRing (d : Deployment ι) : GrowingRing ι :=
  .ofCycle d.next {i | d.member i = true} d.ring d.starter d.starter_member

section Token

variable {i : ι} {event : Event} {out : List Effect}

theorem exists_token_sent (h : tokensSent out ≠ 0) :
    ∃ dst token, .unicast dst (.token token) true ∈ out := by
  obtain ⟨effect, hmem, hsends⟩ := List.countP_pos_iff.mp (Nat.pos_of_ne_zero h)
  unfold Effect.sendsToken UnicastMsg.isToken at hsends
  split at hsends
  · split at hsends
    · exact ⟨_, _, hmem⟩
    · cases hsends
  · cases hsends

variable [Fintype ι] [DecidableEq ι]

/-- The token stays at its node, or the idle holder sends it to its
successor. -/
theorem World.Moves.token_moves (h : w.Moves i event out w') (hg : w.Grounded d) {k : ι}
    (hat : w.TokenAt k) : w'.TokenAt k ∨
      k = i ∧ (w.state k).haveToken = true ∧ (w.state k).joinInflight.active = false ∧
        ∃ j, (w.state k).config.next = d.self j ∧ w'.TokenAt j := by
  by_cases hsent : tokensSent out = 0
  · -- no token leaves, and the one that arrives is held
    left
    have harrival : event.isToken = true →
        (w.state i).joined = true ∧ (w.state i).haveToken = false := by
      intro hevent
      cases event with
      | unicastMessage msg now ok =>
          cases msg with
          | token token =>
              exact ⟨hg.one.arrives i token h.offers, World.not_both hg.one.one h.offers⟩
          | _ => cases hevent
      | _ => cases hevent
    have hbalance := h.transition.token_balance harrival
    rw [hsent, Nat.add_zero] at hbalance
    by_cases hk : k = i
    · subst hk
      rcases hat with hholds | ⟨token, hmsg⟩
      · left
        cases hevent : event.isToken with
        | true =>
            rw [(harrival hevent).2] at hholds
            cases hholds
        | false =>
            rw [hevent, hholds] at hbalance
            exact Bool.toNat_eq_one.mp hbalance
      · cases hevent : event.isToken with
        | true =>
            rw [hevent, (harrival hevent).2] at hbalance
            exact .inl (Bool.toNat_eq_one.mp hbalance)
        | false =>
            refine .inr ⟨token, ?_⟩
            rw [h.inbox_self]
            refine List.mem_append_left _ ?_
            cases event with
            | unicastMessage msg now ok =>
                refine (List.mem_erase_of_ne ?_).mpr hmsg
                rintro rfl
                cases hevent
            | _ => exact hmsg
    · rcases hat with hholds | ⟨token, hmsg⟩
      · left
        rwa [h.others k hk]
      · refine .inr ⟨token, ?_⟩
        rw [h.inbox_other k hk]
        exact List.mem_append_left _ hmsg
  · right
    obtain ⟨dst, token, hmem⟩ := exists_token_sent hsent
    obtain ⟨_, htoken, hidle, hnext, _⟩ := h.transition.token_sender hmem
    obtain rfl : k = i := World.place_unique hg.one.one hat (.inl htoken)
    obtain ⟨j, hj⟩ := h.addressed dst (List.mem_filterMap.mpr ⟨_, hmem, rfl⟩)
    refine ⟨rfl, htoken, hidle, j, ?_, .inr ⟨token, ?_⟩⟩
    · rw [← hnext, ← hj, hg.current j]
    · refine h.mem_inbox_of_sent ?_
      rwa [hj]

end Token

section Completion

variable [Fintype ι] [DecidableEq ι] {r : GrowingRing ι} {i j : ι} {event : Event}
  {out : List Effect}

/-- The predecessor of a coordinator whose join completes has linked the joiner,
unless the coordinator is alone. -/
theorem World.Moves.completes_linked {ring : Equiv.Perm ι} (h : w.Moves i event out w')
    (hg : w.Grounded d) (hring : w.RingOf d ring) (hjoin : w.JoinInv d ring)
    (hcompletes : RingCompletes (w.state i) event (w'.state i) out) :
    ring.symm i = i ∨ w.Linked ring i := by
  rcases hcompletes.confirmed with hgot | ⟨fromName, now, ok, rfl, hfrom⟩
  · exact hjoin.confirmed i hcompletes.active hgot
  · obtain ⟨hprev, hexpected⟩ := hring.expected hg hcompletes.active
    rw [hexpected, hprev] at hfrom
    exact .inr ((hjoin.acks i _ fromName h.offers).2 i hcompletes.active rfl (hfrom.elim id id))

/-- After a completion no join is in flight, and the joiner is settled, too. -/
theorem World.Moves.settled_completed (h : w.Moves i event out w') (hg : w.Grounded d)
    (hcompletes : RingCompletes (w.state i) event (w'.state i) out)
    (hself : d.self j = (w.state i).joinInflight.joiner.route) :
    (w.state j).joined = true ∧ (∀ c, (w'.state c).joinInflight.active = false) ∧
      ∀ b, w'.Settled d b ↔ b = j ∨ w.Settled d b := by
  have hname : (d.self j).nodeName = (w.state i).joinInflight.joiner.nodeName := by
    rw [hself]
    rfl
  have hevent := hg.knows.received h.offers
  have hjoined : (w.state j).joined = true := by
    have hdone := h.transition.joiner_joined (hg.knows.nodes i) hevent hcompletes.active
      hcompletes.idle
    exact hdone j hname
  have hnone : ∀ c, (w'.state c).joinInflight.active = false := by
    intro c
    by_cases hc : c = i
    · rw [hc, hcompletes.idle]
    · rw [h.others c hc]
      cases hactive : (w.state c).joinInflight.active with
      | false => rfl
      | true => exact absurd (hg.unique hactive hcompletes.active) hc
  have hsame : ∀ b, (w'.state b).joined = (w.state b).joined := by
    intro b
    by_cases hb : b = i
    · rw [hb, hcompletes.joined]
    · rw [h.others b hb]
  have hfree : ∀ name, ¬ w'.Joining name := by
    rintro name ⟨c, hactive, _⟩
    rw [hnone c] at hactive
    cases hactive
  refine ⟨hjoined, hnone, fun b => ⟨fun hb => ?_, ?_⟩⟩
  · by_cases hbj : b = j
    · exact .inl hbj
    · refine .inr ⟨(hsame b).symm.trans hb.1, ?_⟩
      rintro ⟨c, hactive, hjoiner⟩
      rw [hg.unique hactive hcompletes.active, ← hname] at hjoiner
      exact hbj (d.names_distinct _ _ hjoiner).symm
  · rintro (rfl | hb)
    · exact ⟨h.joined_stays hjoined, hfree _⟩
    · exact h.settled hg hb

/-- The routes after a completion draw the ring with the joiner right before
its coordinator. -/
theorem World.Moves.ring_completes (h : w.Moves i event out w') (hg : w.Grounded d)
    (hshows : w.Shows d r) (hplace : r.place = i)
    (hcompletes : RingCompletes (w.state i) event (w'.state i) out)
    (hself : d.self j = (w.state i).joinInflight.joiner.route) (hnew : j ∉ r.nodes) :
    w'.RingOf d (r.enter j hnew).next := by
  obtain ⟨hjoined, hnone, hsettled⟩ := h.settled_completed hg hcompletes hself
  have hring := hshows.ring
  have hcoordinator := hg.coordinator_settled hcompletes.active
  obtain ⟨hprevi, hexpected⟩ := hring.expected hg hcompletes.active
  have hji : j ≠ i := by
    rintro rfl
    exact World.joiner_not_settled hcompletes.active hself hcoordinator
  have hfix : r.next j = j := r.outside j hnew
  have hpred : r.next (r.next.symm i) = i := r.next.apply_symm_apply i
  have hstate : ∀ b, b ≠ i → w'.state b = w.state b := fun b hb => h.others b hb
  have hafter : (r.enter j hnew).next = insertAfter r.next (r.next.symm i) j := by
    rw [← hplace]
    rfl
  have hidle : ∀ b c,
      (w.state (r.next b)).joinInflight.active = true ∧ (w.state b).config.next = c →
      b = r.next.symm i := by
    rintro b c ⟨hactive, _⟩
    rw [← hg.unique hactive hcompletes.active, Equiv.symm_apply_apply]
  refine ⟨?_, ?_, fun b hb => .inl ?_, fun b hb => ?_, fun c b hactive => ?_⟩
  · have hcycle := (r.enter j hnew).cycle
    have hnodes : (r.enter j hnew).nodes = {b | w'.Settled d b} := by
      ext b
      change b = j ∨ b ∈ r.nodes ↔ w'.Settled d b
      rw [hsettled, hshows.nodes]
    rwa [hnodes] at hcycle
  · intro b hb
    refine (r.enter j hnew).outside b ?_
    change ¬ (b = j ∨ b ∈ r.nodes)
    rwa [hshows.nodes, ← hsettled]
  · rw [hafter]
    by_cases hbj : b = j
    · -- the joiner itself, which has taken over its routes before
      subst hbj
      rw [insertAfter_new, hpred, hstate b hji]
      exact (hring.joiner i b hcompletes.active hself hjoined).2
    · have hold : w.Settled d b := ((hsettled b).mp hb).resolve_left hbj
      by_cases hbp : b = r.next.symm i
      · subst hbp
        rw [insertAfter_pred hfix, hself]
        rcases h.completes_linked hg hring hshows.join hcompletes with halone | hlinked
        · rw [halone, hcompletes.next, hexpected, halone, hg.current i, if_pos rfl]
        · by_cases halone : r.next.symm i = i
          · rw [halone, hcompletes.next, hexpected, halone, hg.current i, if_pos rfl]
          · rw [hstate _ halone]
            exact hlinked
      · rw [insertAfter_of_ne hbp hbj]
        have hnext : (w.state b).config.next = d.self (r.next b) :=
          (hring.next b hold).resolve_right fun hlinked => hbp (hidle b _ hlinked)
        by_cases hbi : b = i
        · subst hbi
          rw [hcompletes.next, hexpected, hg.current b, if_neg, hnext]
          exact fun heq => hbp (d.names_distinct _ _ heq).symm
        · rw [hstate b hbi, hnext]
  · rw [hafter]
    by_cases hbj : b = j
    · subst hbj
      rw [insertAfter_symm_new hfix, hstate b hji]
      exact (hring.joiner i b hcompletes.active hself hjoined).1
    · have hold : w.Settled d b := ((hsettled b).mp hb).resolve_left hbj
      by_cases hbi : b = i
      · subst hbi
        have hback : (insertAfter r.next (r.next.symm b) j).symm b = j := by
          have hnext := insertAfter_symm_next (f := r.next) (p := r.next.symm b) (b := j)
          rwa [hpred] at hnext
        rw [hback, hcompletes.prev, hself]
      · rw [insertAfter_symm_of_ne (by rwa [hpred]) hbj hfix, hstate b hbi]
        exact hring.prev b hold
  · rw [hnone c] at hactive
    cases hactive

/-- After a completion all accepts around are spent. -/
theorem World.Moves.join_completes (h : w.Moves i event out w') (hg : w.Grounded d)
    (hshows : w.Shows d r) (hcompletes : RingCompletes (w.state i) event (w'.state i) out)
    (hself : d.self j = (w.state i).joinInflight.joiner.route) (ring : Equiv.Perm ι) :
    w'.JoinInv d ring := by
  obtain ⟨hjoined, hnone, hsettled⟩ := h.settled_completed hg hcompletes hself
  have hcoordinator := hg.coordinator_settled hcompletes.active
  obtain ⟨hprev, hexpected⟩ := hshows.ring.expected hg hcompletes.active
  have hidle : ∀ c, (w'.state c).joinInflight.active = true → False := by
    intro c hactive
    rw [hnone c] at hactive
    cases hactive
  have hcarry : ∀ requestId fromName, w.Answered d r.next requestId fromName →
      w'.Answered d ring requestId fromName :=
    fun requestId fromName hanswered =>
      ⟨h.begun hg.knows hanswered.1, fun c hactive => (hidle c hactive).elim⟩
  have hother : (d.self j).nodeName ≠ (d.self i).nodeName := by
    intro heq
    refine World.joiner_not_settled hcompletes.active hself ?_
    rwa [d.names_distinct _ _ heq]
  -- the accept of this join: its predecessor points to the joiner by now
  have hown : w'.Spent d (buildJoinAcceptHost (w.state i)) := by
    refine ⟨fun k hk => ?_, fun b hb => ?_, fun p hp => ?_⟩
    · have hkj : k = j := by
        refine d.names_distinct _ _ (hk.trans ?_)
        rw [hself]
        rfl
      rw [hkj]
      exact h.joined_stays hjoined
    · have hbi : b = i := by
        refine d.names_distinct _ _ (hb.trans ?_)
        rw [← hg.current i]
        rfl
      rw [hbi]
      exact h.settled hg hcoordinator
    · have hpi : p = r.next.symm i := by
        refine d.names_distinct _ _ (hp.trans ?_)
        rw [← hprev]
        rfl
      have hsettledp : w.Settled d p := by
        rw [hpi]
        exact hshows.ring.settled_prev hcoordinator
      refine ⟨h.joined_stays hsettledp.1, ?_⟩
      have hnext : (w'.state p).config.next = d.self j := by
        by_cases halone : p = i
        · have hsymm : r.next.symm i = i := hpi.symm.trans halone
          rw [halone, hcompletes.next, hexpected, hsymm, hg.current i, if_pos rfl, hself]
        · rw [h.others p halone, hself]
          rcases h.completes_linked hg hshows.ring hshows.join hcompletes with hsymm | hlinked
          · exact absurd (hpi.trans hsymm) halone
          · rw [hpi]
            exact hlinked
      rw [hnext]
      change (d.self j).nodeName ≠ (w.state i).config.current.nodeName
      rwa [hg.current i]
  refine ⟨fun c hactive => (hidle c hactive).elim, fun c hactive => (hidle c hactive).elim,
    fun k accept hmsg => .inr ?_, fun k requestId fromName hmsg => ?_, fun k hactive => ?_⟩
  · rcases h.mem_inbox hmsg with hold | hsent
    · rcases hshows.join.accepts k accept hold with ⟨c, hactive, _, rfl⟩ | hspent
      · rwa [hg.unique hactive hcompletes.active]
      · refine h.spent hg hspent fun _ => ?_
        rw [hcompletes.next]
        split
        · exact .inr ⟨j, by rw [hself],
            World.joiner_not_settled hcompletes.active hself⟩
        · exact .inl rfl
    · exact absurd hsent (hcompletes.accepts _ _ _)
  · rcases h.mem_inbox hmsg with hold | hsent
    · exact hcarry _ _ (hshows.join.acks k requestId fromName hold)
    · exact absurd hsent (hcompletes.acks _ _ _ _)
  · have hsame : (w'.state k).ackSender = (w.state k).ackSender := by
      by_cases hk : k = i
      · rw [hk, hcompletes.sender]
      · rw [h.others k hk]
    rw [hsame] at hactive ⊢
    exact hcarry _ _ (hshows.join.senders k hactive)

end Completion

section Refinement

variable [DecidableEq ι] {r : GrowingRing ι} {i : ι} {event : Event} {out : List Effect}

/-- A ring that the routes still draw has the same nodes as before: a new one
would be a fixed point of the cycle. -/
theorem World.Shows.same_nodes (hshows : w.Shows d r) (hring : w'.RingOf d r.next)
    (hmore : ∀ j, w.Settled d j → w'.Settled d j) (j : ι) : j ∈ r.nodes ↔ w'.Settled d j := by
  rw [hshows.nodes]
  refine ⟨hmore j, fun hj => ?_⟩
  by_contra hnot
  have hplace : w.Settled d r.place := (hshows.nodes _).mp r.place_mem
  have hne : j ≠ r.place := by
    rintro rfl
    exact hnot hplace
  have hmoves := hring.cycle.apply_ne ⟨j, hj, r.place, hmore _ hplace, hne⟩ hj
  exact hmoves (r.outside j fun hmem => hnot ((hshows.nodes j).mp hmem))

theorem Deployment.start_shows (d : Deployment ι) : d.start.Shows d d.growingRing := by
  have hstate : ∀ i, (d.start.state i).joined = d.member i ∧
      (d.start.state i).config = d.config i ∧
      (d.start.state i).joinInflight.active = false ∧
      (d.start.state i).ackSender.active = false := by
    intro i
    obtain ⟨_, _, hstart⟩ := d.start_state i
    rw [hstart]
    exact ⟨rfl, rfl, rfl, rfl⟩
  have hidle : ∀ c, (d.start.state c).joinInflight.active = true → False := by
    intro c hactive
    rw [(hstate c).2.2.1] at hactive
    cases hactive
  have hsettled : ∀ i, d.start.Settled d i ↔ d.member i = true := by
    intro i
    unfold World.Settled
    rw [(hstate i).1]
    refine ⟨And.left, fun hmember => ⟨hmember, ?_⟩⟩
    rintro ⟨c, hactive, _⟩
    exact hidle c hactive
  refine ⟨fun i => (hsettled i).symm, ⟨?_, fun i hi => ?_, fun i hi => .inl ?_, fun i hi => ?_,
    fun c j hactive => (hidle c hactive).elim⟩, ⟨fun c hactive => (hidle c hactive).elim,
    fun c hactive => (hidle c hactive).elim, fun k accept hmsg => (by cases hmsg),
    fun k requestId fromName hmsg => (by cases hmsg), fun k hactive => ?_⟩, .inl ?_⟩
  · simp only [hsettled]
    exact d.growingRing.cycle
  · refine d.growingRing.outside i fun hmem => hi ?_
    exact (hsettled i).mpr hmem
  · have hmember := (hsettled i).mp hi
    have hnext : d.growingRing.next i = d.next i := GrowingRing.ofCycle_next hmember
    rw [(hstate i).2.1, hnext]
    simp [Deployment.config, hmember]
  · have hmember := (hsettled i).mp hi
    have hprev : d.growingRing.next.symm i = d.next.symm i := GrowingRing.ofCycle_prev hmember
    rw [(hstate i).2.1, hprev]
    simp [Deployment.config, hmember]
  · rw [(hstate k).2.2.2] at hactive
    cases hactive
  · obtain ⟨_, _, hstart⟩ := d.start_state d.starter
    change (d.start.state d.starter).haveToken = true
    rw [hstart]
    simp [d.starter_member]

variable [Fintype ι]

/-- A step that keeps the ring moves the token at most to the next node. -/
theorem World.Moves.shows_kept (h : w.Moves i event out w') (hg : w.Grounded d)
    (hshows : w.Shows d r) (hkept : w'.RingOf d r.next ∧ w'.JoinInv d r.next) :
    w'.Shows d r ∨ w'.Shows d r.pass := by
  obtain ⟨hring, hjoin⟩ := hkept
  have hnodes := hshows.same_nodes hring fun j hj => h.settled hg hj
  rcases h.token_moves hg hshows.place with hstays | ⟨hplace, htoken, hidle, j, hnext, hat⟩
  · exact .inl ⟨hnodes, hring, hjoin, hstays⟩
  · -- the idle holder: no join is in flight, so its successor is the next node
    have hnone := hg.none_active htoken hidle
    have hsettled : w.Settled d r.place := (hshows.nodes _).mp r.place_mem
    have hsucc : d.self j = d.self (r.next r.place) := by
      rcases hshows.ring.next r.place hsettled with hself | ⟨hactive, _⟩
      · rw [← hnext, hself]
      · rw [hnone] at hactive
        cases hactive
    rw [d.names_distinct _ _ (congrArg Route.nodeName hsucc)] at hat
    exact .inr ⟨hnodes, hring, hjoin, hat⟩

/-- A step of the system is none of the ring, or one that passes the token on
or lets a node enter. -/
theorem World.Moves.refines (h : w.Moves i event out w') (hg : w.Grounded d)
    (hshows : w.Shows d r) : ∃ r', (r' = r ∨ GrowingRing.Step r r') ∧ w'.Shows d r' := by
  have hkept : w'.RingOf d r.next ∧ w'.JoinInv d r.next →
      ∃ r', (r' = r ∨ GrowingRing.Step r r') ∧ w'.Shows d r' := by
    intro hkept
    rcases h.shows_kept hg hshows hkept with hsame | hpass
    · exact ⟨r, .inl rfl, hsame⟩
    · exact ⟨r.pass, .inr (.pass r), hpass⟩
  rcases h.transition.ring_cases with hquiet | ⟨pending, hstarts⟩ | hcompletes |
    ⟨accept, happlies, hname, hunjoined, hprev, hnext⟩ |
    ⟨accept, happlies, hname, hbefore, hprev, hnext⟩ |
    ⟨hactive, newName, topoVersion, ip, now, rfl⟩
  · exact hkept (h.ring_quiet hg hshows.ring hshows.join hquiet)
  · exact hkept (h.ring_starts hg hshows.ring hshows.join hstarts)
  · obtain ⟨j, _, hself, _⟩ := hg.joiner_node hcompletes.active
    have htoken := (hg.knows.nodes i).coordinator.active_token hcompletes.active
    have hplace : r.place = i := World.place_unique hg.one.one hshows.place (.inl htoken)
    have hnew : j ∉ r.nodes := fun hmem =>
      World.joiner_not_settled hcompletes.active hself ((hshows.nodes j).mp hmem)
    refine ⟨r.enter j hnew, .inr (.enter r j hnew), fun b => ?_,
      h.ring_completes hg hshows hplace hcompletes hself hnew,
      h.join_completes hg hshows hcompletes hself _, ?_⟩
    · rw [(h.settled_completed hg hcompletes hself).2.2 b, ← hshows.nodes b]
      exact Iff.rfl
    · rcases h.token_moves hg hshows.place with hstays | ⟨_, _, hidle, _⟩
      · exact hstays
      · rw [hplace, hcompletes.active] at hidle
        cases hidle
  · exact hkept (h.ring_joined hg hshows.ring hshows.join happlies hname hunjoined hprev hnext)
  · exact hkept (h.ring_linked hg hshows.ring hshows.join happlies hname hbefore hprev hnext)
  · exact (hg.accounted.no_own_commit hg.knows hactive h.offers).elim

theorem reaches_shows (h : Lts.Reaches World.step World.RequestsFresh d.start w)
    (hfew : w.commitVersions.length < 2 ^ 32) :
    ∃ r, GrowingRing.Steps d.growingRing r ∧ w.Shows d r := by
  refine h.invariant_on (fun w => w.commitVersions.length < 2 ^ 32 →
    ∃ r, GrowingRing.Steps d.growingRing r ∧ w.Shows d r)
    (fun _ => ⟨d.growingRing, .refl, d.start_shows⟩) ?_ hfew
  intro w label w' hreach hshows _ hstep hroom
  obtain ⟨out, hmoves⟩ := World.moves_of_step hstep
  have hbefore : w.commitVersions.length < 2 ^ 32 := by
    rw [hmoves.commitVersions, List.length_append] at hroom
    omega
  obtain ⟨r, hsteps, hr⟩ := hshows hbefore
  obtain ⟨r', rfl | hmore, hr'⟩ := hmoves.refines (reaches_grounded hreach hbefore) hr
  · exact ⟨r', hsteps, hr'⟩
  · exact ⟨r', hsteps.tail hmore, hr'⟩

omit [DecidableEq ι] [Fintype ι] in
/-- With no join in flight the ring is that of all joined nodes. -/
theorem World.RingOf.of_none_active {ring : Equiv.Perm ι} (hring : w.RingOf d ring)
    (hnone : ∀ c, (w.state c).joinInflight.active = false) :
    ring.IsCycleOn {i | (w.state i).joined = true} ∧
      ∀ i, (w.state i).joined = true → (w.state i).config.prev = d.self (ring.symm i) ∧
        (w.state i).config.next = d.self (ring i) := by
  have hsettled : ∀ i, w.Settled d i ↔ (w.state i).joined = true := by
    refine fun i => ⟨And.left, fun hjoined => ⟨hjoined, ?_⟩⟩
    rintro ⟨c, hactive, _⟩
    rw [hnone c] at hactive
    cases hactive
  refine ⟨by simpa only [hsettled] using hring.cycle, fun i hjoined => ?_⟩
  refine ⟨hring.prev i ((hsettled i).mpr hjoined), ?_⟩
  rcases hring.next i ((hsettled i).mpr hjoined) with hnext | ⟨hactive, _⟩
  · exact hnext
  · rw [hnone] at hactive
    cases hactive

/-- In every run of fresh steps with fewer than 2^32 completed joins the routes
of the nodes whose join is over draw one cycle in both directions. Only the
predecessor of a coordinator may point past it to the joiner in flight, and the
joiner, once it has joined, has the coordinator and its predecessor as
neighbours. With no join in flight the cycle is that of all joined nodes. -/
theorem routes_form_one_ring (d : Deployment ι) (w : World ι)
    (h : Lts.Reaches World.step World.RequestsFresh d.start w)
    (hfew : w.commitVersions.length < 2 ^ 32) :
    ∃ ring : Equiv.Perm ι, ring.IsCycleOn {i | w.Settled d i} ∧
      (∀ i, w.Settled d i → (w.state i).config.prev = d.self (ring.symm i) ∧
        ((w.state i).config.next = d.self (ring i) ∨
          ((w.state (ring i)).joinInflight.active = true ∧
            (w.state i).config.next = (w.state (ring i)).joinInflight.joiner.route))) ∧
      (∀ c j, (w.state c).joinInflight.active = true →
        d.self j = (w.state c).joinInflight.joiner.route → (w.state j).joined = true →
        (w.state j).config.prev = d.self (ring.symm c) ∧
          (w.state j).config.next = d.self c) ∧
      ((∀ c, (w.state c).joinInflight.active = false) →
        ring.IsCycleOn {i | (w.state i).joined = true} ∧
        ∀ i, (w.state i).joined = true → (w.state i).config.prev = d.self (ring.symm i) ∧
          (w.state i).config.next = d.self (ring i)) := by
  obtain ⟨r, _, hshows⟩ := reaches_shows h hfew
  have hring := hshows.ring
  exact ⟨r.next, hring.cycle, fun i hi => ⟨hring.prev i hi, hring.next i hi⟩, hring.joiner,
    hring.of_none_active⟩

/-- Every run of fresh steps with fewer than 2^32 completed joins is a run of
the growing ring from the ring of the members on, and each further step is none
of the ring, or the token going to the next node, or a joiner that enters right
before the node with the token. -/
theorem runs_refine_growing_ring (d : Deployment ι) (w : World ι)
    (h : Lts.Reaches World.step World.RequestsFresh d.start w)
    (hfew : w.commitVersions.length < 2 ^ 32) :
    ∃ r, GrowingRing.Steps d.growingRing r ∧ w.Shows d r ∧
      ∀ label w', w.step label = some w' →
        ∃ r', (r' = r ∨ GrowingRing.Step r r') ∧ w'.Shows d r' := by
  obtain ⟨r, hsteps, hshows⟩ := reaches_shows h hfew
  refine ⟨r, hsteps, hshows, fun label w' hstep => ?_⟩
  obtain ⟨out, hmoves⟩ := World.moves_of_step hstep
  exact hmoves.refines (reaches_grounded h hfew) hshows

end Refinement

/-- The run in which `B` joins `A` takes fresh steps only. -/
theorem pairJoins_fresh :
    ∃ w, Lts.Reaches World.step World.RequestsFresh Deployment.pair.start w ∧
      w.commitVersions = [1] ∧ (∀ i, (w.state i).joined = true) ∧
      (∀ i, (w.state i).joinInflight.active = false) ∧
      ∀ i, (w.node i).loc ≠ .stopped ∧ (w.state i).joinState.count = 0 := by
  have hrun : (Lts.exec (Lts.restrict World.looksFresh World.step) Deployment.pair.start
      pairJoins).map (fun w => (w.commitVersions, decide (∀ i, (w.state i).joined = true),
        decide (∀ i, (w.state i).joinInflight.active = false),
        decide (∀ i, (w.node i).loc ≠ .stopped ∧ (w.state i).joinState.count = 0))) =
      some ([1], true, true, true) := by
    decide +kernel
  obtain ⟨w, hexec, hvalues⟩ := Option.map_eq_some_iff.mp hrun
  simp only [Prod.mk.injEq, decide_eq_true_eq] at hvalues
  exact ⟨w, Lts.reaches_of_exec_restrict (fun w _ => World.requestsFresh_of_looks) hexec,
    hvalues⟩

/-- After it the routes of `A` and `B` draw a ring of two. -/
theorem pair_routes_form_one_ring :
    ∃ w, Lts.Reaches World.step World.RequestsFresh Deployment.pair.start w ∧
      (∀ i, (w.state i).joined = true) ∧ ∃ ring : Equiv.Perm (Fin 2),
        ring.IsCycleOn {i | (w.state i).joined = true} ∧
        ∀ i, (w.state i).joined = true →
          (w.state i).config.prev = Deployment.pair.self (ring.symm i) ∧
          (w.state i).config.next = Deployment.pair.self (ring i) := by
  obtain ⟨w, hreach, hcommits, hjoined, hidle, _⟩ := pairJoins_fresh
  have hfew : w.commitVersions.length < 2 ^ 32 := by
    rw [hcommits]
    exact Nat.one_lt_two_pow (by decide)
  obtain ⟨ring, _, _, _, hring⟩ := routes_form_one_ring Deployment.pair w hreach hfew
  exact ⟨w, hreach, hjoined, ring, hring hidle⟩

/-- The join of `B` and the token's way to it are steps of the growing ring. -/
theorem pair_run_refines :
    ∃ w r, Lts.Reaches World.step World.RequestsFresh Deployment.pair.start w ∧
      GrowingRing.Steps Deployment.pair.growingRing r ∧ w.Shows Deployment.pair r ∧
      ∀ i, i ∈ r.nodes := by
  obtain ⟨w, hreach, hcommits, hjoined, hidle, _⟩ := pairJoins_fresh
  have hfew : w.commitVersions.length < 2 ^ 32 := by
    rw [hcommits]
    exact Nat.one_lt_two_pow (by decide)
  obtain ⟨r, hsteps, hshows, _⟩ := runs_refine_growing_ring Deployment.pair w hreach hfew
  refine ⟨w, r, hreach, hsteps, hshows, fun i => (hshows.nodes i).mpr ⟨hjoined i, ?_⟩⟩
  rintro ⟨c, hactive, _⟩
  rw [hidle c] at hactive
  cases hactive

end TokenRing
