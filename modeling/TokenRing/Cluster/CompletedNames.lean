import TokenRing.Cluster.Candidates
import TokenRing.CommitOrder
import TokenRing.CompletedQueue

/-!
The completed lists against the system. A name gets into the list of a node
when the node hears of its join, from an accept, an acknowledgement or a
commit, and by then its sender has joined or is being joined. A node that still
has to join is in no list, so only a full queue can refuse it.
-/

namespace TokenRing

section Local

variable {state state' : RingState} {out : List Effect} {names : Names}

/-- A `JOIN_COMMIT` records its name and that of the join it completes, also
when it empties the queue. -/
theorem handleJoinCommit_isCompleted {requestId : UInt32} {newName : NodeName}
    {topoVersion : UInt32} {name : NodeName}
    (h : (handleJoinCommit state requestId newName topoVersion).joinState.isCompleted name =
      true) :
    name = newName ∨
      (state.inflightIs requestId = true ∧ name = state.joinInflight.joiner.nodeName) ∨
      state.joinState.isCompleted name = true := by
  let marked := { state with
    joinState := state.joinState.markCompletedAndPrunePending newName requestId }
  have hsame := advanceTopology_completed marked topoVersion
  have hmarked : marked.joinState.isCompleted name = true →
      name = newName ∨ state.joinState.isCompleted name = true := by
    intro hcompleted
    rcases (JoinState.completes_mark state.joinState newName requestId).completed name
      hcompleted with hnew | hold
    · exact .inl (List.mem_singleton.mp hnew)
    · exact .inr hold
  obtain ⟨joinState, _, hadvance, _⟩ := advanceTopology_eq marked topoVersion
  unfold handleJoinCommit at h
  simp only at h
  rw [stopAckSender_joinState] at h
  change (completeViaCommit (advanceTopology marked topoVersion) requestId).joinState.isCompleted
    name = true at h
  unfold completeViaCommit at h
  split at h
  · rename_i hmatch
    have hinflight : (advanceTopology marked topoVersion).joinInflight = state.joinInflight := by
      rw [hadvance]
    simp only [hinflight] at h hmatch
    rcases (JoinState.completes_joiner _ _ _).completed name h with hjoiner | hold
    · refine .inr (.inl ⟨?_, List.mem_singleton.mp hjoiner⟩)
      simpa [RingState.inflightIs] using hmatch
    · rw [JoinState.isCompleted_congr hsame] at hold
      exact (hmarked hold).imp id .inr
  · rw [JoinState.isCompleted_congr hsame] at h
    exact (hmarked h).imp id .inr

/-- A name in the list was there before or is one that the event records. -/
theorem Event.handle_isCompleted {event : Event} (h : event.handle state = some (state', out))
    {name : NodeName} (hcompleted : state'.joinState.isCompleted name = true) :
    name ∈ event.completes state ∨ state.joinState.isCompleted name = true := by
  cases event.handle_queue h with
  | enqueued request ip now hnew hadd =>
      rw [JoinState.isCompleted_congr (JoinState.addPendingJoin_completed hadd)] at hcompleted
      exact .inr hcompleted
  | recorded hkeeps hshrinks hcompletes => exact hcompletes.completed name hcompleted
  | emptied hempties hempty =>
      cases event with
      | broadcastMessage msg ip now =>
          cases msg with
          | joinCommit requestId newName topoVersion =>
              cases h
              rcases handleJoinCommit_isCompleted hcompleted with rfl | ⟨hmatch, rfl⟩ | hold
              · exact .inl (List.mem_cons_self ..)
              · simp [Event.completes, hmatch]
              · exact .inr hold
          | _ => cases hempties
      | _ => cases hempties

/-- The joiner that a node completes has joined. -/
theorem NodeKnows.completing (hknows : NodeKnows names state) {name : NodeName}
    (h : name ∈ state.completing) : names.joined name := by
  unfold RingState.completing RingState.confirmed at h
  split at h
  · rename_i hconfirmed
    simp only [Bool.and_eq_true] at hconfirmed
    rw [List.mem_singleton.mp h]
    exact hknows.confirmed hconfirmed.1.1 hconfirmed.2
  · cases h

/-- The names that an event records are those of nodes that have joined or are
being joined. -/
theorem NodeKnows.completes (hknows : NodeKnows names state) {event : Event}
    (hevent : EventKnows names event) {name : NodeName} (h : name ∈ event.completes state) :
    names.linked name := by
  cases event with
  | joinFsmInflightTick now ok => exact names.linked_of_joined _ (hknows.completing h)
  | joinFsmMaybeComplete morePending => exact names.linked_of_joined _ (hknows.completing h)
  | unicastMessage msg now ok =>
      cases msg with
      | joinAccept accept =>
          rw [List.mem_singleton.mp h]
          exact hevent.2.1
      | joinAck requestId fromName =>
          simp only [Event.completes] at h
          split at h
          · exact names.linked_of_joined _ ((hknows.recordConfirm hevent).completing h)
          · cases h
      | _ => cases h
  | broadcastMessage msg ip now =>
      cases msg with
      | joinCommit requestId newName topoVersion =>
          obtain ⟨hgenuine, hjoined⟩ := hevent
          rcases List.mem_cons.mp h with rfl | hjoiner
          · exact names.linked_of_joined _ hjoined
          · split at hjoiner
            · rename_i hmatch
              simp only [RingState.inflightIs, Bool.and_eq_true, decide_eq_true_eq] at hmatch
              have hinflight := (hknows.inflight hmatch.1).2
              rw [hmatch.2] at hinflight
              rw [List.mem_singleton.mp hjoiner,
                names.genuine_unique _ _ _ hinflight hgenuine]
              exact names.linked_of_joined _ hjoined
            · cases hjoiner
      | _ => cases h
  | _ => cases h

/-- A request that is neither the node's own, nor that of its joiner, nor of a
completed node is put into the queue if that takes it. -/
theorem handleJoinRequest_of_unknown {request : JoinRequest} {ip : UInt32} {now : Int}
    (hother : request.nodeName ≠ state.config.current.nodeName)
    (hjoiner : ¬ (state.joinInflight.active = true ∧
      state.joinInflight.joiner.nodeName = request.nodeName))
    (hcompleted : state.joinState.isCompleted request.nodeName = false) :
    handleJoinRequest state request ip now =
      { state with
        joinState := (state.joinState.addPendingJoin request ip now).getD state.joinState } := by
  unfold handleJoinRequest
  rw [if_neg hother, if_neg hjoiner, hcompleted]
  cases state.joinState.addPendingJoin request ip now with
  | none => rfl
  | some joinState => rfl

end Local

section World

variable {ι : Type*} [Fintype ι] [DecidableEq ι] {d : Deployment ι} {w w' : World ι}

/-- A step of the world is a handler call at its node, or changes no state. -/
theorem World.handled_of_step {label : ι × Event} (h : w.step label = some w') :
    ∃ out, w.Moves label.1 label.2 out w' ∧
      (label.2.handle (w.state label.1) = some (w'.state label.1, out) ∨
        w'.state label.1 = w.state label.1) := by
  obtain ⟨i, event⟩ := label
  cases hnode : (w.node i).step event with
  | none => simp [World.step, hnode] at h
  | some result =>
      obtain ⟨node, out⟩ := result
      have hmoves := World.moves_of_node_step hnode h
      have hstate : w'.state i = node.state := by
        unfold World.step at h
        simp only [hnode] at h
        split at h
        · cases h
          simp [World.state]
        · cases h
      refine ⟨out, hmoves, ?_⟩
      rw [hstate]
      rcases Node.step_cases hnode with hhandle | ⟨_, hsame, _⟩
      · exact .inl hhandle
      · exact .inr hsame

/-- Every name in a completed list is that of a node that has joined or is
being joined. -/
theorem reachable_completed_linked (h : Lts.Reachable World.step d.start w) :
    ∀ i name, (w.state i).joinState.isCompleted name = true → (w.names d).linked name := by
  refine h.invariant_on (fun w => ∀ i name,
    (w.state i).joinState.isCompleted name = true → (w.names d).linked name) ?_ ?_
  · intro i name hcompleted
    obtain ⟨tokenIn, _, hstart⟩ := d.start_state i
    rw [hstart] at hcompleted
    cases hcompleted
  · intro w label w' hreach hlinked _ hstep
    obtain ⟨out, hmoves, hnode⟩ := World.handled_of_step hstep
    have hknows := reachable_knows hreach
    have hevent := hknows.received hmoves.offers
    have hgrows := hmoves.grows hknows hevent
    intro i name hcompleted
    refine hgrows.linked _ ?_
    by_cases hi : i = label.1
    · subst hi
      rcases hnode with hhandle | hsame
      · rcases Event.handle_isCompleted hhandle hcompleted with hnew | hold
        · exact (hknows.nodes label.1).completes hevent hnew
        · exact hlinked _ name hold
      · rw [hsame] at hcompleted
        exact hlinked _ name hcompleted
    · rw [hmoves.others i hi] at hcompleted
      exact hlinked i name hcompleted

/-- A node that has not joined and is not being joined is in no completed list,
so another node that reads its request queues it unless `add_pending_join`
refuses it. -/
theorem waiting_nodes_refused_only_by_queue (h : Lts.Reachable World.step d.start w) {i j : ι}
    (hij : i ≠ j) (hunjoined : (w.state j).joined = false)
    (hwaits : ¬ w.Joining (d.self j).nodeName) {request : JoinRequest}
    (hrequest : request.nodeName = (d.self j).nodeName) (ip : UInt32) (now : Int) :
    (w.state i).joinState.isCompleted (d.self j).nodeName = false ∧
      handleJoinRequest (w.state i) request ip now =
        { w.state i with
          joinState := ((w.state i).joinState.addPendingJoin request ip now).getD
            (w.state i).joinState } := by
  have hcompleted : (w.state i).joinState.isCompleted (d.self j).nodeName = false := by
    by_contra hknown
    rcases reachable_completed_linked h i _ (by simpa using hknown) with hjoined | hjoining
    · rw [hjoined j rfl] at hunjoined
      cases hunjoined
    · exact hwaits hjoining
  refine ⟨hcompleted, handleJoinRequest_of_unknown ?_ ?_ (hrequest ▸ hcompleted)⟩
  · rw [hrequest, (reachable_identity h i).1]
    exact fun heq => hij (d.names_distinct j i heq).symm
  · rintro ⟨hactive, hjoiner⟩
    exact hwaits ⟨i, hactive, hjoiner.trans hrequest⟩

end World

/-- `A` has completed the join of `B`, and reads the request of `C`. -/
theorem newcomer_request_queued :
    ∃ w, Lts.Reachable World.step Deployment.newcomers.start w ∧
      (w.state 0).joinState.isCompleted (NodeName.ofBytes [66]) = true ∧
      .joinRequest ⟨8, NodeName.ofBytes [67], 5003⟩ ∈ w.announced ∧
      (w.state 0).joinState.isCompleted (NodeName.ofBytes [67]) = false ∧
      handleJoinRequest (w.state 0) ⟨8, NodeName.ofBytes [67], 5003⟩ 0 10 =
        { w.state 0 with
          joinState := ((w.state 0).joinState.addPendingJoin ⟨8, NodeName.ofBytes [67], 5003⟩
            0 10).getD (w.state 0).joinState } := by
  have hrun : (Lts.exec World.step Deployment.newcomers.start firstNewcomer).map (fun w =>
      ((w.state 0).joinState.isCompleted (NodeName.ofBytes [66]),
        decide (.joinRequest ⟨8, NodeName.ofBytes [67], 5003⟩ ∈ w.announced),
        (w.state 2).joined, decide (∀ i, (w.state i).joinInflight.active = false))) =
      some (true, true, false, true) := by
    decide +kernel
  obtain ⟨w, hexec, hvalues⟩ := Option.map_eq_some_iff.mp hrun
  simp only [Prod.mk.injEq, decide_eq_true_eq] at hvalues
  obtain ⟨hcompleted, hannounced, hunjoined, hidle⟩ := hvalues
  have hreach := Lts.reachable_of_exec hexec
  have hwaits : ¬ w.Joining (Deployment.newcomers.self 2).nodeName := by
    rintro ⟨c, hactive, _⟩
    rw [hidle c] at hactive
    cases hactive
  exact ⟨w, hreach, hcompleted, hannounced,
    waiting_nodes_refused_only_by_queue hreach (by decide) hunjoined hwaits rfl 0 10⟩

end TokenRing
