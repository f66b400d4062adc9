import TokenRing.Cluster.Topology

/-!
Requests of nodes that have joined since they sent them. A waiting entry of a
joined node is harmless while the node's join is still in flight, or while its
commit is newer than the version last seen, for the token will then empty the
queue first. The entries that escape come from a request read after its
commit, at a node that does not remember the joiner.
-/

namespace TokenRing

section Local

variable {state state' : RingState} {event : Event} {out : List Effect}

/-- A waiting entry was waiting before, or its request has just been taken. -/
theorem Transition.queue_entry (h : Transition state event state' out) {k : Fin 32}
    {pending : PendingJoin} (hslot : state'.joinState.joins k = some pending) :
    state.joinState.joins k = some pending ∨
    ∃ request ip now, event = .broadcastMessage (.joinRequest request) ip now ∧
      pending.nodeName = request.nodeName ∧
      request.nodeName ≠ state.config.current.nodeName ∧
      ¬ (state.joinInflight.active = true ∧
        state.joinInflight.joiner.nodeName = request.nodeName) ∧
      state.joinState.isCompleted request.nodeName = false ∧
      state'.lastSeenTopoVersion = state.lastSeenTopoVersion := by
  cases h with
  | queueShrunk event hevent joinState hshrinks => exact .inl (hshrinks.within k pending hslot)
  | completed event hevent mid answers hactive hmid hprev hgot hanswers =>
      have hbefore := (complete_queue_shrinks _ _).within k pending hslot
      rcases hmid with rfl | ⟨_, _, _, _, rfl⟩ <;> exact .inl hbefore
  | tokenTaken token now ok joinState hjoined hshrinks hempty =>
      exact .inl (hshrinks.within k pending hslot)
  | acceptJoined accept now ok joinState sentAt hshrinks hself hunjoined hid =>
      exact .inl (hshrinks.within k pending hslot)
  | acceptLinked accept now ok joinState sentAt hshrinks hother hself hnext =>
      exact .inl (hshrinks.within k pending hslot)
  | enqueued request ip now joinState hother hjoiner hcompleted hadd =>
      rcases JoinState.addPendingJoin_entry hadd k pending hslot with rfl | hold
      · exact .inr ⟨request, ip, now, rfl, rfl, hother, hjoiner, hcompleted, rfl⟩
      · exact .inl hold
  | commitSeen requestId newName topoVersion ip now joinState sender hshrinks hempty hsender
      hmatch =>
      exact .inl (hshrinks.within k pending hslot)
  | commitCompleted newName topoVersion ip now joinState sender hshrinks hempty hsender hactive =>
      exact .inl (hshrinks.within k pending hslot)
  | joinStarted now ok started joinState hjoined htoken hidle hpop =>
      exact .inl ((JoinState.popOldestPendingJoin_shrinks hpop).within k pending hslot)
  | forwarded now ok hjoined htoken hidle hcount =>
      obtain ⟨_, _, _, _, _, _, heq⟩ := ringOnToken_cases state ok
      rw [heq] at hslot
      exact .inl hslot
  | _ => exact .inl hslot

/-- A version seen for the first time empties the queue, unless it is that of
a join completed in this very step. -/
theorem Transition.seen_or_empty (h : Transition state event state' out)
    (hcount : JoinState.CountExact state.joinState) :
    state'.lastSeenTopoVersion = state.lastSeenTopoVersion ∨
      (∀ k, state'.joinState.joins k = none) ∨
      (state.joinInflight.active = true ∧ state'.joinInflight.active = false) := by
  cases h with
  | completed event hevent mid answers hactive hmid hprev hgot hanswers =>
      exact .inr (.inr ⟨hactive, rfl⟩)
  | tokenTaken token now ok joinState hjoined hshrinks hempty =>
      by_cases hle : token.topoVersion ≤ state.lastSeenTopoVersion
      · exact .inl (by simp [hle])
      · exact .inr (.inl (hempty hle hcount))
  | commitSeen requestId newName topoVersion ip now joinState sender hshrinks hempty hsender
      hmatch =>
      by_cases hnewer : topoVersion > state.lastSeenTopoVersion
      · exact .inr (.inl (hempty hnewer hcount))
      · exact .inl (by simp [hnewer])
  | commitCompleted newName topoVersion ip now joinState sender hshrinks hempty hsender hactive =>
      exact .inr (.inr ⟨hactive, rfl⟩)
  | forwarded now ok hjoined htoken hidle hcount' =>
      obtain ⟨_, _, _, _, _, _, heq⟩ := ringOnToken_cases state ok
      rw [heq]
      exact .inl rfl
  | _ => exact .inl rfl

/-- The join in flight completes in this step by both confirmations. -/
def Completes (state : RingState) (event : Event) : Prop :=
  state.joinInflight.active = true ∧
    (confirmedBy state event).joinInflight.gotConfirmPrev = true ∧
    (confirmedBy state event).joinInflight.gotConfirmJoiner = true

/-- A join ends by a completion, which announces it and takes the joiner out
of the queue, or by a `JOIN_COMMIT` that carries its id. -/
theorem Transition.join_ends (h : Transition state event state' out)
    (hactive : state.joinInflight.active = true) (hidle : state'.joinInflight.active = false)
    (hone : Completes state event → ∀ k l a b, state.joinState.joins k = some a →
      state.joinState.joins l = some b →
      a.nodeName = state.joinInflight.joiner.nodeName →
      b.nodeName = state.joinInflight.joiner.nodeName → k = l) :
    (∃ newName topoVersion ip now, event =
      .broadcastMessage (.joinCommit state.joinInflight.requestId newName topoVersion) ip now) ∨
    (∃ topoVersion, .broadcast (.joinCommit state.joinInflight.requestId
        state.joinInflight.joiner.nodeName topoVersion) ∈ out ∧
      ∀ k pending, state'.joinState.joins k = some pending →
        pending.nodeName ≠ state.joinInflight.joiner.nodeName) := by
  have hstays : state'.joinInflight.active = state.joinInflight.active → False := by
    intro heq
    rw [heq, hactive] at hidle
    cases hidle
  cases h with
  | completed event hevent mid answers hactive' hmid hprev hgot hanswers =>
      have hcompletes : Completes state event :=
        ⟨hactive, confirmedBy_of_mid hactive hmid hprev hgot⟩
      have hgone : ∀ k pending, (joinFsmComplete mid).1.joinState.joins k = some pending →
          pending.nodeName ≠ state.joinInflight.joiner.nodeName := by
        intro k pending hslot
        simp only [joinFsmComplete, JoinState.recordCompleted_joins] at hslot
        rcases hmid with rfl | ⟨_, _, _, _, rfl⟩ <;>
          exact JoinState.removePendingJoin_gone (hone hcompletes) hslot
      refine .inr ⟨mid.lastSeenTopoVersion + 1, ?_, hgone⟩
      rcases hmid with rfl | ⟨_, _, _, _, rfl⟩ <;>
        exact List.mem_append_left _ (List.mem_singleton.mpr rfl)
  | commitCompleted newName topoVersion ip now joinState sender hshrinks hempty hsender hactive' =>
      exact .inl ⟨newName, topoVersion, ip, now, rfl⟩
  | joinStarted now ok pending joinState hjoined htoken hnone hpop =>
      rw [hnone] at hactive
      cases hactive
  | forwarded now ok hjoined htoken hnone hcount =>
      rw [hnone] at hactive
      cases hactive
  | _ => exact (hstays rfl).elim

/-- A join starts for a node waiting in the queue, at the idle holder. -/
theorem Transition.join_starts (h : Transition state event state' out)
    (hidle : state.joinInflight.active = false) (hactive : state'.joinInflight.active = true) :
    state.haveToken = true ∧ ∃ k, state.joinState.joins k = some state'.joinInflight.joiner := by
  have hstays : state'.joinInflight.active = state.joinInflight.active → False := by
    intro heq
    rw [heq, hidle] at hactive
    cases hactive
  cases h with
  | joinStarted now ok pending joinState hjoined htoken hnone hpop =>
      obtain ⟨k, hslot, _⟩ := JoinState.popOldestPendingJoin_some hpop
      exact ⟨htoken, k, hslot⟩
  | completed event hevent mid answers hactive' hmid hprev hgot hanswers => cases hactive
  | commitCompleted newName topoVersion ip now joinState sender hshrinks hempty hsender hactive' =>
      cases hactive
  | forwarded now ok hjoined htoken hnone hcount =>
      obtain ⟨_, _, _, _, _, _, heq⟩ := ringOnToken_cases state ok
      rw [heq] at hactive
      simp only at hactive
      rw [hidle] at hactive
      cases hactive
  | _ => exact (hstays rfl).elim

/-- A commit is announced only by the step that ends the join in flight. -/
theorem Transition.commit_sender (h : Transition state event state' out)
    {requestId topoVersion : UInt32} {newName : NodeName}
    (hsent : .broadcast (.joinCommit requestId newName topoVersion) ∈ out) :
    state.joinInflight.active = true ∧ state'.joinInflight.active = false := by
  cases h with
  | acceptsSent now ok retries hactive =>
      exact absurd hsent (inflightSends_no_commit _ ok _ _ _)
  | joinStarted now ok pending joinState hjoined htoken hidle hpop =>
      exact absurd hsent (inflightSends_no_commit _ ok _ _ _)
  | completed event hevent mid answers hactive hmid hprev hgot hanswers => exact ⟨hactive, rfl⟩
  | ackAnswered id fromName now ok answers hanswers =>
      exact absurd hsent (hanswers.no_commit _ _ _)
  | confirmed fromName now ok answers hactive hanswers =>
      exact absurd hsent (hanswers.no_commit _ _ _)
  | forwarded now ok hjoined htoken hidle hcount =>
      obtain ⟨reports, _, _, _, hreports, _, heq⟩ := ringOnToken_cases state ok
      rw [heq] at hsent
      rcases List.mem_append.mp hsent with hreport | hlast
      · rcases hreports _ hreport with ⟨_, hbad⟩ | ⟨_, hbad⟩ <;> cases hbad
      · cases List.mem_singleton.mp hlast
  | _ => simp at hsent

/-- A node joins by an accept that names it. -/
theorem Transition.newly_joined (h : Transition state event state' out)
    (hunjoined : state.joined = false) (hjoined : state'.joined = true) :
    ∃ accept now ok, event = .unicastMessage (.joinAccept accept) now ok ∧
      (state.config.current.nodeName = accept.newName ∨
        state.config.current.nodeName = accept.prevName) := by
  have hstays : state'.joined = state.joined → False := by
    intro heq
    rw [heq, hunjoined] at hjoined
    cases hjoined
  cases h with
  | acceptJoined accept now ok joinState sentAt hshrinks hself _ hid =>
      exact ⟨accept, now, ok, rfl, .inl hself⟩
  | acceptLinked accept now ok joinState sentAt hshrinks hother hself hnext =>
      exact ⟨accept, now, ok, rfl, .inr hself⟩
  | completed event hevent mid answers hactive hmid hprev hgot hanswers =>
      rcases hmid with rfl | ⟨_, _, _, _, rfl⟩ <;> exact (hstays rfl).elim
  | forwarded now ok hjoined htoken hidle hcount =>
      obtain ⟨_, _, _, _, _, _, heq⟩ := ringOnToken_cases state ok
      rw [heq] at hstays
      exact (hstays rfl).elim
  | _ => exact (hstays rfl).elim

end Local

section World

variable {ι : Type*} {d : Deployment ι} {w w' : World ι} {i : ι} {event : Event}
  {out : List Effect}

/-- A join of a node with this name is in flight somewhere. -/
def World.Joining (w : World ι) (name : NodeName) : Prop :=
  ∃ c, (w.state c).joinInflight.active = true ∧
    (w.state c).joinInflight.joiner.nodeName = name

/-- A completed join of this name announced this version. -/
def World.Committed (w : World ι) (name : NodeName) (topoVersion : UInt32) : Prop :=
  ∃ requestId, .joinCommit requestId name topoVersion ∈ w.announced

/-- Why an entry of a joined node does no harm at a node that has seen the
version `seen`: its join is in flight, or its commit is yet to be seen. -/
def World.Account (w : World ι) (name : NodeName) (seen : UInt32) : Prop :=
  w.Joining name ∨ ∃ topoVersion, w.Committed name topoVersion ∧ seen < topoVersion

/-- The condition on one step under which no stale request gets into a queue:
a request read after the commit of its sender finds the sender in the
completed list, and a join completes with its joiner in at most one slot. -/
def World.RequestsFresh (w : World ι) (label : ι × Event) : Prop :=
  (∀ request ip now, label.2 = .broadcastMessage (.joinRequest request) ip now →
    ∀ topoVersion, w.Committed request.nodeName topoVersion →
      topoVersion ≤ (w.state label.1).lastSeenTopoVersion →
      (w.state label.1).joinState.isCompleted request.nodeName = true) ∧
  (Completes (w.state label.1) label.2 → ∀ k l a b,
    (w.state label.1).joinState.joins k = some a →
    (w.state label.1).joinState.joins l = some b →
    a.nodeName = (w.state label.1).joinInflight.joiner.nodeName →
    b.nodeName = (w.state label.1).joinInflight.joiner.nodeName → k = l)

/-- What bounds the waiting entries of joined nodes. -/
structure World.Accounted (w : World ι) (d : Deployment ι) : Prop where
  counts : ∀ i, JoinState.CountExact (w.state i).joinState
  uncommitted : ∀ i, (w.state i).joinInflight.active = true → ∀ topoVersion,
    ¬ w.Committed (w.state i).joinInflight.joiner.nodeName topoVersion
  joined : ∀ j, d.member j = false → (w.state j).joined = true →
    w.Joining (d.self j).nodeName ∨ ∃ topoVersion, w.Committed (d.self j).nodeName topoVersion
  waiting : ∀ i k pending, (w.state i).joinState.joins k = some pending →
    (w.names d).joined pending.nodeName →
    w.Account pending.nodeName (w.state i).lastSeenTopoVersion

theorem World.Moves.committed (h : w.Moves i event out w') {name : NodeName}
    {topoVersion : UInt32} (hold : w.Committed name topoVersion) :
    w'.Committed name topoVersion := by
  obtain ⟨requestId, hmem⟩ := hold
  exact ⟨requestId, h.mem_announced.mpr (.inl hmem)⟩

theorem World.Committed.mem_versions {name : NodeName} {topoVersion : UInt32}
    (h : w.Committed name topoVersion) : topoVersion ∈ w.commitVersions := by
  obtain ⟨requestId, hmem⟩ := h
  exact mem_commitVersions hmem

/-- The joiner of the join in flight was not committed before, so the join
does not end by a commit of its own. -/
theorem World.Accounted.no_own_commit (hacc : w.Accounted d) (hknows : w.Knows d)
    (hactive : (w.state i).joinInflight.active = true) {newName : NodeName}
    {topoVersion ip : UInt32} {now : Int}
    (hoffers : w.Offers i (.broadcastMessage
      (.joinCommit (w.state i).joinInflight.requestId newName topoVersion) ip now)) : False := by
  obtain ⟨hgenuine, _⟩ := hknows.announced _ hoffers
  have hname := (w.names d).genuine_unique _ _ _ ((hknows.nodes i).inflight hactive).2 hgenuine
  refine hacc.uncommitted i hactive topoVersion ?_
  rw [hname]
  exact ⟨_, hoffers⟩

theorem World.Moves.new_version (h : w.Moves i event out w') (hknows : w.Knows d)
    (hversions : w.Versions) (hroom : w'.commitVersions.length < 2 ^ 32)
    {requestId topoVersion : UInt32} {name : NodeName}
    (hsent : .broadcast (.joinCommit requestId name topoVersion) ∈ out) :
    w.commitVersions.length < topoVersion.toNat := by
  have hmem : topoVersion ∈ TokenRing.commitVersions (announcements out) :=
    List.mem_filterMap.mpr ⟨_, mem_announcements.mpr hsent, rfl⟩
  rw [h.commitVersions, List.length_append] at hroom
  rcases h.transition.versions (hknows.nodes i).coordinator (hversions.nodes i)
    (hversions.received h.offers) hroom with ⟨hnone, _⟩ | ⟨_, new, hnew, hvalue, _⟩
  · rw [hnone] at hmem
    cases hmem
  · rw [hnew] at hmem
    rw [List.mem_singleton.mp hmem, hvalue]
    exact Nat.lt_succ_self _

/-- A node that joins in this step is the joiner of a join in flight. -/
theorem World.Moves.newly_joining (h : w.Moves i event out w') (hknows : w.Knows d)
    (hcurrent : ∀ j, (w.state j).config.current = d.self j) {j : ι}
    (hunjoined : (w.state j).joined = false) (hjoined : (w'.state j).joined = true) :
    w.Joining (d.self j).nodeName := by
  have hji : j = i := by
    by_contra hne
    rw [h.others j hne, hunjoined] at hjoined
    cases hjoined
  subst hji
  have hnot : ¬ (w.names d).joined (d.self j).nodeName := by
    rw [World.names_joined_self, hunjoined]
    exact Bool.false_ne_true
  obtain ⟨accept, now, ok, rfl, hname⟩ := h.transition.newly_joined hunjoined hjoined
  obtain ⟨_, hlinked, hprev⟩ := hknows.inboxes j _ h.offers
  rw [hcurrent j] at hname
  rcases hname with hnew | hold
  · rw [← hnew] at hlinked
    exact hlinked.resolve_left hnot
  · rw [← hold] at hprev
    exact absurd hprev hnot

/-- In a fresh step a join in flight goes on, or it completes: then it
announces the greatest version so far and leaves no entry of its joiner. -/
theorem World.Moves.joining (h : w.Moves i event out w') (hknows : w.Knows d)
    (hversions : w.Versions) (hroom : w'.commitVersions.length < 2 ^ 32)
    (hacc : w.Accounted d) (hfresh : w.RequestsFresh (i, event)) {name : NodeName}
    (hjoining : w.Joining name) :
    w'.Joining name ∨
    ((w.state i).joinInflight.active = true ∧
      (∀ k pending, (w'.state i).joinState.joins k = some pending →
        pending.nodeName ≠ name) ∧
      ∃ topoVersion, w'.Committed name topoVersion ∧
        w.commitVersions.length < topoVersion.toNat) := by
  obtain ⟨c, hactive, hname⟩ := hjoining
  by_cases hc : c = i
  · subst hc
    cases hactive' : (w'.state c).joinInflight.active with
    | true =>
        have hsame := (h.transition.keeps (hknows.nodes c).coordinator).same_joiner hactive
          hactive'
        exact .inl ⟨c, hactive', by rw [hsame]; exact hname⟩
    | false =>
        rcases h.transition.join_ends hactive hactive' hfresh.2 with
          ⟨newName, topoVersion, ip, now, rfl⟩ | ⟨topoVersion, hsent, hgone⟩
        · exact (hacc.no_own_commit hknows hactive h.offers).elim
        · rw [hname] at hsent hgone
          exact .inr ⟨hactive, hgone, topoVersion,
            ⟨_, h.mem_announced.mpr (.inr hsent)⟩, h.new_version hknows hversions hroom hsent⟩
  · exact .inl ⟨c, by rw [h.others c hc]; exact ⟨hactive, hname⟩⟩

theorem World.Committed.joined {name : NodeName} {topoVersion : UInt32}
    (h : w.Committed name topoVersion) (hknows : w.Knows d) : (w.names d).joined name := by
  obtain ⟨requestId, hmem⟩ := h
  exact (hknows.announced _ hmem).2

/-- What accounts for an entry at the node that takes the step still does. -/
theorem World.Moves.account_self (h : w.Moves i event out w') (hknows : w.Knows d)
    (hversions : w.Versions) (hroom : w'.commitVersions.length < 2 ^ 32)
    (hacc : w.Accounted d) (hfresh : w.RequestsFresh (i, event)) {k : Fin 32}
    {pending : PendingJoin} (hslot : (w'.state i).joinState.joins k = some pending)
    (haccount : w.Account pending.nodeName (w.state i).lastSeenTopoVersion) :
    w'.Account pending.nodeName (w'.state i).lastSeenTopoVersion := by
  rcases haccount with hinflight | ⟨topoVersion, hcommitted, hnewer⟩
  · rcases h.joining hknows hversions hroom hacc hfresh hinflight with hstill | ⟨_, hgone, _⟩
    · exact .inl hstill
    · exact absurd rfl (hgone k pending hslot)
  · rcases h.transition.seen_or_empty (hacc.counts i) with hsame | hempty | ⟨hactive, _⟩
    · exact .inr ⟨topoVersion, h.committed hcommitted, by rw [hsame]; exact hnewer⟩
    · rw [hempty k] at hslot
      cases hslot
    · -- a coordinator holds the token and has seen every commit
      have htoken := (hknows.nodes i).coordinator.active_token hactive
      have hseen := ((hversions.nodes i).holder htoken).2
      have hle := hversions.announced_le hcommitted.mem_versions
      have hlt : (w.state i).lastSeenTopoVersion.toNat < topoVersion.toNat := hnewer
      omega

/-- Likewise at any other node. -/
theorem World.Moves.account_other (h : w.Moves i event out w') (hknows : w.Knows d)
    (hversions : w.Versions) (hroom : w'.commitVersions.length < 2 ^ 32)
    (hacc : w.Accounted d) (hfresh : w.RequestsFresh (i, event)) {c : ι} {name : NodeName}
    (haccount : w.Account name (w.state c).lastSeenTopoVersion) :
    w'.Account name (w.state c).lastSeenTopoVersion := by
  rcases haccount with hinflight | ⟨topoVersion, hcommitted, hnewer⟩
  · rcases h.joining hknows hversions hroom hacc hfresh hinflight with
      hstill | ⟨_, _, topoVersion, hcommitted, hgreatest⟩
    · exact .inl hstill
    · refine .inr ⟨topoVersion, hcommitted, ?_⟩
      have hle := (hversions.nodes c).seen
      exact UInt32.lt_iff_toNat_lt.mpr (by omega)
  · exact .inr ⟨topoVersion, h.committed hcommitted, hnewer⟩

/-- A fresh request of a joined node that is taken is accounted for. -/
theorem World.Accounted.request (hacc : w.Accounted d) (hknows : w.Knows d)
    {request : JoinRequest} {ip : UInt32} {now : Int}
    (hoffers : w.Offers i (.broadcastMessage (.joinRequest request) ip now))
    (hfresh : w.RequestsFresh (i, .broadcastMessage (.joinRequest request) ip now))
    (hcompleted : (w.state i).joinState.isCompleted request.nodeName = false)
    (hjoined : (w.names d).joined request.nodeName) :
    w.Account request.nodeName (w.state i).lastSeenTopoVersion := by
  obtain ⟨j, hmember, _, hself⟩ := hknows.announced _ hoffers
  rcases hacc.joined j hmember (hjoined j hself) with hinflight | ⟨topoVersion, hcommitted⟩
  · rw [hself] at hinflight
    exact .inl hinflight
  · rw [hself] at hcommitted
    refine .inr ⟨topoVersion, hcommitted, UInt32.not_le.mp fun hle => ?_⟩
    have hknown := hfresh.1 request ip now rfl topoVersion hcommitted hle
    rw [hcompleted] at hknown
    cases hknown

theorem Deployment.start_accounted [DecidableEq ι] (d : Deployment ι) : d.start.Accounted d := by
  have hstart : ∀ i, (d.start.state i).joinState = JoinState.zero ∧
      (d.start.state i).joined = d.member i ∧
      (d.start.state i).joinInflight.active = false := by
    intro i
    obtain ⟨tokenIn, _, heq⟩ := d.start_state i
    rw [heq]
    exact ⟨rfl, rfl, rfl⟩
  refine ⟨fun i => ?_, fun i hactive => ?_, fun j hmember hjoined => ?_,
    fun i k pending hslot => ?_⟩
  · rw [(hstart i).1]
    exact JoinState.countExact_zero
  · rw [(hstart i).2.2] at hactive
    cases hactive
  · rw [(hstart j).2.1, hmember] at hjoined
    cases hjoined
  · rw [(hstart i).1] at hslot
    cases hslot

/-- The request that is read is of a sender in the completed list or without a
commit, and no entry of the joiner waits while its join is in flight. -/
def World.looksFresh (w : World ι) (label : ι × Event) : Bool :=
  (match label.2 with
    | .broadcastMessage (.joinRequest request) _ _ =>
        (w.state label.1).joinState.isCompleted request.nodeName ||
          w.announced.all (fun msg =>
            match msg with
            | .joinCommit _ newName _ => newName ≠ request.nodeName
            | _ => true)
    | _ => true) &&
  (!(w.state label.1).joinInflight.active ||
    (List.finRange 32).all (fun k =>
      ((w.state label.1).joinState.joins k).all (fun pending =>
        pending.nodeName ≠ (w.state label.1).joinInflight.joiner.nodeName)))

theorem World.requestsFresh_of_looks {label : ι × Event} (h : w.looksFresh label = true) :
    w.RequestsFresh label := by
  obtain ⟨i, event⟩ := label
  simp only [World.looksFresh, Bool.and_eq_true, Bool.or_eq_true, Bool.not_eq_true'] at h
  obtain ⟨hrequest, hqueue⟩ := h
  refine ⟨fun request ip now hevent topoVersion hcommitted _ => ?_,
    fun hcompletes k l a b hk _ ha => ?_⟩
  · simp only at hevent
    subst hevent
    obtain ⟨requestId, hmem⟩ := hcommitted
    simp only [Bool.or_eq_true] at hrequest
    refine hrequest.resolve_right fun hnone => ?_
    have hother := List.all_eq_true.mp hnone _ hmem
    simp at hother
  · rcases hqueue with hidle | hgone
    · have hactive := hcompletes.1
      simp only at hactive
      rw [hidle] at hactive
      cases hactive
    · have hother := List.all_eq_true.mp hgone k (List.mem_finRange k)
      simp only at hk ha
      simp [hk, ha] at hother

variable [Fintype ι] [DecidableEq ι]

/-- The idle holder has seen every commit, so no joined node waits in its
queue. -/
theorem World.Accounted.holder_queue (hacc : w.Accounted d) (hknows : w.Knows d)
    (hone : w.OneToken) (hversions : w.Versions) (htoken : (w.state i).haveToken = true)
    (hidle : (w.state i).joinInflight.active = false) {k : Fin 32} {pending : PendingJoin}
    (hslot : (w.state i).joinState.joins k = some pending) :
    ¬ (w.names d).joined pending.nodeName := by
  intro hjoined
  rcases hacc.waiting i k pending hslot hjoined with
    ⟨c, hactive, _⟩ | ⟨topoVersion, hcommitted, hnewer⟩
  · have hholds := (hknows.nodes c).coordinator.active_token hactive
    rw [World.place_unique hone.one (.inl hholds) (.inl htoken), hidle] at hactive
    cases hactive
  · have hle := hversions.announced_le hcommitted.mem_versions
    have hseen := ((hversions.nodes i).holder htoken).2
    have hlt : (w.state i).lastSeenTopoVersion.toNat < topoVersion.toNat := hnewer
    omega

/-- A fresh step keeps the account of waiting entries. -/
theorem World.Moves.accounted (h : w.Moves i event out w') (hknows : w.Knows d)
    (hone : w.OneToken) (hversions : w.Versions) (hroom : w'.commitVersions.length < 2 ^ 32)
    (hcurrent : ∀ j, (w.state j).config.current = d.self j)
    (hacc : w.Accounted d) (hfresh : w.RequestsFresh (i, event)) : w'.Accounted d := by
  refine ⟨fun c => ?_, fun c hactive topoVersion hcommitted => ?_, fun j hmember hjoined => ?_,
    fun c k pending hslot hjoined => ?_⟩
  · by_cases hc : c = i
    · rw [hc]
      exact h.transition.countExact (hacc.counts i)
    · rw [h.others c hc]
      exact hacc.counts c
  · obtain ⟨requestId, hmem⟩ := hcommitted
    rcases h.mem_announced.mp hmem with hold | hnew
    · by_cases hc : c = i
      · subst hc
        cases hbefore : (w.state c).joinInflight.active with
        | true =>
            have hsame := (h.transition.keeps (hknows.nodes c).coordinator).same_joiner hbefore
              hactive
            rw [hsame] at hold
            exact hacc.uncommitted c hbefore topoVersion ⟨requestId, hold⟩
        | false =>
            obtain ⟨htoken, k, hslot⟩ := h.transition.join_starts hbefore hactive
            have hcommitted : w.Committed _ topoVersion := ⟨requestId, hold⟩
            exact hacc.holder_queue hknows hone hversions htoken hbefore hslot
              (hcommitted.joined hknows)
      · rw [h.others c hc] at hactive hold
        exact hacc.uncommitted c hactive topoVersion ⟨requestId, hold⟩
    · -- the commit is new, but no step both ends a join and leaves one in flight
      obtain ⟨hends, hidle⟩ := h.transition.commit_sender hnew
      by_cases hc : c = i
      · rw [hc, hidle] at hactive
        cases hactive
      · rw [h.others c hc] at hactive
        have hfirst := (hknows.nodes c).coordinator.active_token hactive
        have hsecond := (hknows.nodes i).coordinator.active_token hends
        exact hc (World.place_unique hone.one (.inl hfirst) (.inl hsecond))
  · have hjoining : w.Joining (d.self j).nodeName ∨
        ∃ topoVersion, w.Committed (d.self j).nodeName topoVersion := by
      cases hbefore : (w.state j).joined with
      | true => exact hacc.joined j hmember hbefore
      | false => exact .inl (h.newly_joining hknows hcurrent hbefore hjoined)
    rcases hjoining with hinflight | ⟨topoVersion, hcommitted⟩
    · rcases h.joining hknows hversions hroom hacc hfresh hinflight with
        hstill | ⟨_, _, topoVersion, hcommitted, _⟩
      · exact .inl hstill
      · exact .inr ⟨topoVersion, hcommitted⟩
    · exact .inr ⟨topoVersion, h.committed hcommitted⟩
  · have hnew : ¬ (w.names d).joined pending.nodeName → w.Joining pending.nodeName := by
      intro hnot
      simp only [World.names, not_forall] at hnot
      obtain ⟨j, hname, hunjoined⟩ := hnot
      rw [← hname]
      exact h.newly_joining hknows hcurrent (by simpa using hunjoined) (hjoined j hname)
    have hold : (w.state c).joinState.joins k = some pending →
        w.Account pending.nodeName (w.state c).lastSeenTopoVersion := by
      intro hbefore
      by_cases hname : (w.names d).joined pending.nodeName
      · exact hacc.waiting c k pending hbefore hname
      · exact .inl (hnew hname)
    by_cases hc : c = i
    · subst hc
      rcases h.transition.queue_entry hslot with
        hbefore | ⟨request, ip, now, rfl, hname, _, _, hcompleted, _⟩
      · exact h.account_self hknows hversions hroom hacc hfresh hslot (hold hbefore)
      · refine h.account_self hknows hversions hroom hacc hfresh hslot ?_
        by_cases hself : (w.names d).joined pending.nodeName
        · rw [hname] at hself ⊢
          exact hacc.request hknows h.offers hfresh hcompleted hself
        · exact .inl (hnew hself)
    · rw [h.others c hc] at hslot ⊢
      exact h.account_other hknows hversions hroom hacc hfresh (hold hslot)

theorem reaches_accounted (h : Lts.Reaches World.step World.RequestsFresh d.start w)
    (hfew : w.commitVersions.length < 2 ^ 32) : w.Accounted d := by
  refine h.invariant_on (fun w => w.commitVersions.length < 2 ^ 32 → w.Accounted d)
    (fun _ => d.start_accounted) ?_ hfew
  intro w label w' hreach hacc hfresh hstep hroom
  have hreachable : Lts.Reachable World.step d.start w :=
    hreach.weaken fun _ _ _ => trivial
  obtain ⟨out, hmoves⟩ := World.moves_of_step hstep
  have hbefore : w.commitVersions.length < 2 ^ 32 := by
    rw [hmoves.commitVersions, List.length_append] at hroom
    omega
  exact hmoves.accounted (reachable_knows hreachable) (reachable_oneToken hreachable)
    (reachable_versions hreachable hbefore) hroom
    (fun j => (reachable_identity hreachable j).1) (hacc hbefore) hfresh

/-- In every run whose steps are all fresh, with fewer than 2^32 completed
joins, no node starts a join for a node that has joined. -/
theorem no_join_started_for_joined (d : Deployment ι) (w w' : World ι) (label : ι × Event)
    (h : Lts.Reaches World.step World.RequestsFresh d.start w)
    (hfew : w.commitVersions.length < 2 ^ 32) (hstep : w.step label = some w') (i j : ι)
    (hidle : (w.state i).joinInflight.active = false)
    (hstarted : (w'.state i).joinInflight.active = true)
    (hname : (d.self j).nodeName = (w'.state i).joinInflight.joiner.nodeName) :
    (w.state j).joined = false := by
  have hreachable : Lts.Reachable World.step d.start w := h.weaken fun _ _ _ => trivial
  obtain ⟨out, hmoves⟩ := World.moves_of_step hstep
  have hi : i = label.1 := by
    by_contra hne
    rw [hmoves.others i hne, hidle] at hstarted
    cases hstarted
  subst hi
  obtain ⟨htoken, k, hslot⟩ := hmoves.transition.join_starts hidle hstarted
  have hnot := (reaches_accounted h hfew).holder_queue (reachable_knows hreachable)
    (reachable_oneToken hreachable) (reachable_versions hreachable hfew) htoken hidle hslot
  rw [← hname, World.names_joined_self] at hnot
  simpa using hnot

end World

/-- `B` has joined, its old request finds it in the completed list of `A`, and
`B` takes up the request of `C`. -/
theorem second_newcomer_fresh :
    ∃ w w', Lts.Reaches World.step World.RequestsFresh Deployment.newcomers.start w ∧
      w.commitVersions = [1] ∧
      (w.state 0).joinState.isCompleted (NodeName.ofBytes [66]) = true ∧
      w.step (1, .handleTokenIfReady 10 (fun _ => true)) = some w' ∧
      (w'.state 1).joinInflight.active = true ∧ (w.state 2).joined = false := by
  have hrun : ((Lts.exec (Lts.restrict World.looksFresh World.step) Deployment.newcomers.start
      (firstNewcomer ++ secondNewcomer)).bind fun w =>
        (w.step (1, .handleTokenIfReady 10 (fun _ => true))).map fun w' =>
          (w.commitVersions, (w.state 0).joinState.isCompleted (NodeName.ofBytes [66]),
            (w.state 1).joinInflight.active, (w'.state 1).joinInflight.active,
            (w'.state 1).joinInflight.joiner.nodeName)) =
      some ([1], true, false, true, NodeName.ofBytes [67]) := by decide +kernel
  obtain ⟨w, hexec, hrest⟩ := Option.bind_eq_some_iff.mp hrun
  obtain ⟨w', hstep, hvalues⟩ := Option.map_eq_some_iff.mp hrest
  simp only [Prod.mk.injEq] at hvalues
  obtain ⟨hcommits, hcompleted, hidle, hactive, hjoiner⟩ := hvalues
  have hreach : Lts.Reaches World.step World.RequestsFresh Deployment.newcomers.start w :=
    Lts.reaches_of_exec_restrict (fun w _ => World.requestsFresh_of_looks) hexec
  have hfew : w.commitVersions.length < 2 ^ 32 := by
    rw [hcommits]
    exact Nat.one_lt_two_pow (by decide)
  refine ⟨w, w', hreach, hcommits, hcompleted, hstep, hactive, ?_⟩
  refine no_join_started_for_joined Deployment.newcomers w w' _ hreach hfew hstep 1 2 hidle
    hactive ?_
  rw [hjoiner]
  rfl

/-- Nodes `A`, `D` and `B` in a ring, with the token at `A`, and node `J`,
which asks to join. -/
def Deployment.trio : Deployment (Fin 4) where
  self i := ⟨NodeName.ofBytes [[65], [68], [66], [74]][i], 5000⟩
  member i := i ∈ [0, 1, 2]
  next := List.formPerm [0, 1, 2]
  starter := 0
  requestId _ := 7
  names_distinct := by decide
  ids_distinct := by decide
  ring := by
    have hcycle := List.Nodup.isCycleOn_formPerm (l := ([0, 1, 2] : List (Fin 4))) (by decide)
    simpa using hcycle
  starter_member := rfl

/-- `J` joins through `A`, between `B` and `A`. The commit does not reach `D`,
which then takes the token, whose newer version empties its queue, and only
then reads the request of `J`. -/
def requestReadLate : List (Fin 4 × Event) :=
  let request : JoinRequest := ⟨7, NodeName.ofBytes [74], 5000⟩
  let accept : JoinAccept := ⟨7, NodeName.ofBytes [74], 5000, NodeName.ofBytes [65], 5000,
    NodeName.ofBytes [66], 5000⟩
  let token : Token := { Token.zero with isEmpty := true, topoVersion := 1 }
  [(3, .joinFsmRequestTick 10 true)] ++ passToUnicast 0 10 ++
  [(0, .unicastIdle), (0, .joinFsmMaybeComplete false),
    (0, .broadcastMessage (.joinRequest request) 0 10), (0, .cliIdle),
    (0, .handleTokenIfReady 10 (fun _ => true))] ++ passToUnicast 3 10 ++
  [(3, .unicastMessage (.joinAccept accept) 10 (fun _ => true))] ++ passToUnicast 2 10 ++
  [(2, .unicastMessage (.joinAccept accept) 10 (fun _ => true))] ++ passToUnicast 0 10 ++
  [(0, .unicastMessage (.joinAck 7 (NodeName.ofBytes [74])) 10 (fun _ => true)),
    (0, .joinFsmMaybeComplete true),
    (0, .unicastMessage (.joinAck 7 (NodeName.ofBytes [66])) 10 (fun _ => true)),
    (0, .joinFsmMaybeComplete false), (0, .joinFsmMaybeComplete false), (0, .broadcastIdle),
    (0, .cliIdle), (0, .handleTokenIfReady 10 (fun _ => true))] ++ passToUnicast 1 10 ++
  [(1, .unicastMessage (.token token) 10 (fun _ => true)), (1, .joinFsmMaybeComplete false),
    (1, .joinFsmMaybeComplete false), (1, .broadcastMessage (.joinRequest request) 0 10),
    (1, .cliIdle)]

theorem joined_node_is_joined_again :
    ¬ ∀ (d : Deployment (Fin 4)) (w w' : World (Fin 4)) (label : Fin 4 × Event) (i j : Fin 4),
      Lts.Reachable World.step d.start w → w.step label = some w' →
      (w.state i).joinInflight.active = false → (w'.state i).joinInflight.active = true →
      (d.self j).nodeName = (w'.state i).joinInflight.joiner.nodeName →
      (w.state j).joined = false := by
  intro h
  have hrun : ((Lts.exec World.step Deployment.trio.start requestReadLate).bind fun w =>
      (w.step (1, .handleTokenIfReady 10 (fun _ => true))).map fun w' =>
        ((w.state 1).joinInflight.active, (w'.state 1).joinInflight.active,
          (w'.state 1).joinInflight.joiner.nodeName, (w.state 3).joined)) =
      some (false, true, NodeName.ofBytes [74], true) := by decide +kernel
  obtain ⟨w, hexec, hrest⟩ := Option.bind_eq_some_iff.mp hrun
  obtain ⟨w', hstep, hvalues⟩ := Option.map_eq_some_iff.mp hrest
  simp only [Prod.mk.injEq] at hvalues
  obtain ⟨hidle, hactive, hjoiner, hjoined⟩ := hvalues
  have hunjoined := h Deployment.trio w w' _ 1 3 (Lts.reachable_of_exec hexec) hstep hidle
    hactive (by rw [hjoiner]; rfl)
  rw [hjoined] at hunjoined
  cases hunjoined

end TokenRing
