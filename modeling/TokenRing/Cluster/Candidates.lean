import TokenRing.Cluster.StaleRequests

/-!
The routes of the nodes that ask to join. A request carries the id and the
route of its sender, a queue passes both on, and so the join in flight is that
of a node with just this id and this route.
-/

namespace TokenRing

section Local

variable {state state' : RingState} {event : Event} {out : List Effect}

/-- What all entries of a queue have in common goes on to hold if it holds of
the entry made for a request. -/
theorem Transition.queue_all (h : Transition state event state' out) {P : PendingJoin → Prop}
    (hold : ∀ k pending, state.joinState.joins k = some pending → P pending)
    (hnew : ∀ request ip now, event = .broadcastMessage (.joinRequest request) ip now →
      P (JoinState.entryOf request ip now)) :
    ∀ k pending, state'.joinState.joins k = some pending → P pending := by
  cases h with
  | queueShrunk event hevent joinState hshrinks => exact hshrinks.all hold
  | completed event hevent mid answers hactive hmid hprev hgot hanswers =>
      have hshrinks := complete_queue_shrinks mid.joinState mid.joinInflight.joiner
      rcases hmid with rfl | ⟨_, _, _, _, rfl⟩ <;> exact hshrinks.all hold
  | tokenTaken token now ok joinState hjoined hshrinks hempty => exact hshrinks.all hold
  | acceptJoined accept now ok joinState sentAt hshrinks hself hunjoined hid =>
      exact hshrinks.all hold
  | acceptLinked accept now ok joinState sentAt hshrinks hother hself hnext =>
      exact hshrinks.all hold
  | enqueued request ip now joinState hother hjoiner hcompleted hadd =>
      intro k pending hslot
      rcases JoinState.addPendingJoin_entry hadd k pending hslot with rfl | hbefore
      · exact hnew request ip now rfl
      · exact hold k pending hbefore
  | commitSeen requestId newName topoVersion ip now joinState sender hshrinks hempty hsender
      hmatch =>
      exact hshrinks.all hold
  | commitCompleted newName topoVersion ip now joinState sender hshrinks hempty hsender hactive =>
      exact hshrinks.all hold
  | joinStarted now ok started joinState hjoined htoken hidle hpop =>
      exact (JoinState.popOldestPendingJoin_shrinks hpop).all hold
  | forwarded now ok hjoined htoken hidle hcount =>
      obtain ⟨_, _, _, _, _, _, heq⟩ := ringOnToken_cases state ok
      rw [heq]
      exact hold
  | _ => exact hold

/-- A request is sent by a node that has not joined, and is its own. -/
theorem Transition.request_sender (h : Transition state event state' out) {request : JoinRequest}
    (hsent : .broadcast (.joinRequest request) ∈ out) :
    state.joined = false ∧ request = ⟨state.joinRequestId, state.config.current.nodeName,
      state.config.current.unicastPort⟩ := by
  cases h with
  | requestSent now retries hunjoined =>
      cases List.mem_singleton.mp hsent
      exact ⟨hunjoined, rfl⟩
  | acceptsSent now ok retries hactive =>
      rcases mem_inflightSends hsent with ⟨_, heq⟩ | ⟨_, heq⟩ <;> cases heq
  | joinStarted now ok pending joinState hjoined htoken hidle hpop =>
      rcases mem_inflightSends hsent with ⟨_, heq⟩ | ⟨_, heq⟩ <;> cases heq
  | completed event hevent mid answers hactive hmid hprev hgot hanswers =>
      rcases List.mem_append.mp hsent with hcommit | hanswer
      · cases List.mem_singleton.mp hcommit
      · obtain ⟨_, _, _, _, heq⟩ := hanswers _ hanswer
        cases heq
  | ackAnswered requestId fromName now ok answers hanswers =>
      obtain ⟨_, _, _, _, heq⟩ := hanswers _ hsent
      cases heq
  | confirmed fromName now ok answers hactive hanswers =>
      obtain ⟨_, _, _, _, heq⟩ := hanswers _ hsent
      cases heq
  | forwarded now ok hjoined htoken hidle hcount =>
      obtain ⟨reports, _, _, _, hreports, _, heq⟩ := ringOnToken_cases state ok
      rw [heq] at hsent
      rcases List.mem_append.mp hsent with hreport | hlast
      · rcases hreports _ hreport with ⟨_, hbad⟩ | ⟨_, hbad⟩ <;> cases hbad
      · cases List.mem_singleton.mp hlast
  | _ => simp at hsent

end Local

section World

variable {ι : Type*} {d : Deployment ι} {w w' : World ι} {i : ι} {event : Event}
  {out : List Effect}

/-- The entry is that of node `j`, which was not started as a member. -/
def Deployment.EntryOf (d : Deployment ι) (pending : PendingJoin) (j : ι) : Prop :=
  d.member j = false ∧ pending.route = d.self j ∧ pending.requestId = d.requestId j

/-- All requests, queue entries and joins in flight are those of nodes that
were not started as members. -/
structure World.Candidates (w : World ι) (d : Deployment ι) : Prop where
  requests : ∀ request, .joinRequest request ∈ w.announced →
    ∃ j, d.member j = false ∧ request = ⟨d.requestId j, (d.self j).nodeName,
      (d.self j).unicastPort⟩
  queues : ∀ i k pending, (w.state i).joinState.joins k = some pending → ∃ j, d.EntryOf pending j
  joiners : ∀ i, (w.state i).joinInflight.active = true →
    ∃ j, d.EntryOf (w.state i).joinInflight.joiner j

theorem Deployment.start_candidates [DecidableEq ι] (d : Deployment ι) :
    d.start.Candidates d := by
  refine ⟨fun request hmem => (by cases hmem), fun i k pending hslot => ?_, fun i hactive => ?_⟩
  · obtain ⟨tokenIn, _, hstart⟩ := d.start_state i
    rw [hstart] at hslot
    cases hslot
  · obtain ⟨tokenIn, _, hstart⟩ := d.start_state i
    rw [hstart] at hactive
    cases hactive

/-- A node that has not joined was not started as a member. -/
theorem World.Knows.not_member (hknows : w.Knows d)
    (hcurrent : ∀ j, (w.state j).config.current = d.self j)
    (hunjoined : (w.state i).joined = false) : d.member i = false := by
  obtain ⟨j, hmember, _, hname⟩ := (hknows.nodes i).request hunjoined
  rw [hcurrent i] at hname
  rwa [d.names_distinct j i hname] at hmember

theorem World.Moves.candidates (h : w.Moves i event out w') (hknows : w.Knows d)
    (hcurrent : ∀ j, (w.state j).config.current = d.self j)
    (hrequest : ∀ j, d.member j = false → (w.state j).joinRequestId = d.requestId j)
    (hcandidates : w.Candidates d) : w'.Candidates d := by
  have hqueue : ∀ k pending, (w'.state i).joinState.joins k = some pending →
      ∃ j, d.EntryOf pending j := by
    refine h.transition.queue_all (hcandidates.queues i) ?_
    rintro request ip now rfl
    obtain ⟨j, hmember, rfl⟩ := hcandidates.requests request h.offers
    exact ⟨j, hmember, rfl, rfl⟩
  refine ⟨fun request hmem => ?_, fun c k pending hslot => ?_, fun c hactive => ?_⟩
  · rcases h.mem_announced.mp hmem with hold | hsent
    · exact hcandidates.requests request hold
    · obtain ⟨hunjoined, rfl⟩ := h.transition.request_sender hsent
      have hmember := hknows.not_member hcurrent hunjoined
      exact ⟨i, hmember, by rw [hrequest i hmember, hcurrent i]⟩
  · by_cases hc : c = i
    · rw [hc] at hslot
      exact hqueue k pending hslot
    · rw [h.others c hc] at hslot
      exact hcandidates.queues c k pending hslot
  · by_cases hc : c = i
    · subst hc
      cases hbefore : (w.state c).joinInflight.active with
      | true =>
          have hsame := (h.transition.keeps (hknows.nodes c).coordinator).same_joiner hbefore
            hactive
          rw [hsame]
          exact hcandidates.joiners c hbefore
      | false =>
          obtain ⟨_, k, hslot⟩ := h.transition.join_starts hbefore hactive
          exact hcandidates.queues c k _ hslot
    · rw [h.others c hc] at hactive ⊢
      exact hcandidates.joiners c hactive

theorem reachable_candidates [Fintype ι] [DecidableEq ι]
    (h : Lts.Reachable World.step d.start w) : w.Candidates d := by
  refine h.invariant_on (fun w => w.Candidates d) d.start_candidates ?_
  intro w label w' hreach hcandidates _ hstep
  obtain ⟨out, hmoves⟩ := World.moves_of_step hstep
  exact hmoves.candidates (reachable_knows hreach) (fun j => (reachable_identity hreach j).1)
    (fun j => (reachable_identity hreach j).2) hcandidates

end World

end TokenRing
