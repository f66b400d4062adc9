import TokenRing.Cluster.Token

/-!
The topology versions. `join_fsm_try_complete` is the only place that
announces a `JOIN_COMMIT`, once for each join it completes, so the
announcements count the completed joins. The token and its holder carry that
count.
-/

namespace TokenRing

/-- The versions announced by the completed joins, in order. -/
def commitVersions (msgs : List BroadcastMsg) : List UInt32 :=
  msgs.filterMap (fun msg =>
    match msg with
    | .joinCommit _ _ topoVersion => some topoVersion
    | _ => none)

theorem commitVersions_append (first second : List BroadcastMsg) :
    commitVersions (first ++ second) = commitVersions first ++ commitVersions second := by
  simp [commitVersions]

/-- The versions at one node after `count` completed joins. -/
structure SeesVersion (count : Nat) (state : RingState) : Prop where
  seen : state.lastSeenTopoVersion.toNat ≤ count
  holder : state.haveToken = true → state.tokenIn.topoVersion.toNat = count ∧
    state.lastSeenTopoVersion.toNat = count

/-- The versions an event brings. -/
def EventVersion (count : Nat) : Event → Prop
  | .unicastMessage (.token token) _ _ => token.topoVersion.toNat = count
  | .broadcastMessage (.joinCommit _ _ topoVersion) _ _ => topoVersion.toNat ≤ count
  | _ => True

section Local

variable {state state' : RingState} {event : Event} {out : List Effect} {count : Nat}

/-- Effects without a broadcast of a commit announce no version. -/
theorem commitVersions_eq_nil (h : ∀ requestId newName topoVersion,
    .broadcast (.joinCommit requestId newName topoVersion) ∉ out) :
    commitVersions (announcements out) = [] := by
  apply List.filterMap_eq_nil_iff.mpr
  intro msg member
  cases msg with
  | joinCommit requestId newName topoVersion =>
      exact absurd (mem_announcements.mp member) (h _ _ _)
  | _ => rfl

theorem inflightSends_no_commit (state : RingState) (ok : Nat → Bool) :
    ∀ requestId newName topoVersion,
      .broadcast (.joinCommit requestId newName topoVersion) ∉ inflightSends state ok := by
  intro requestId newName topoVersion member
  rcases mem_inflightSends member with ⟨_, heq⟩ | ⟨_, heq⟩ <;> cases heq

theorem OnlyAckAcks.no_commit {answers : List Effect} (h : OnlyAckAcks answers) :
    ∀ requestId newName topoVersion,
      .broadcast (.joinCommit requestId newName topoVersion) ∉ answers := by
  intro requestId newName topoVersion member
  obtain ⟨_, _, _, _, heq⟩ := h _ member
  cases heq

/-- The greater of two versions that are at most `count`. -/
theorem newer_le {old new : UInt32} (hold : old.toNat ≤ count) (hnew : new.toNat ≤ count) :
    (if new > old then new else old).toNat ≤ count := by
  split
  · exact hnew
  · exact hold

theorem newer_eq {old new : UInt32} (hold : old.toNat = count) (hnew : new.toNat ≤ count) :
    (if new > old then new else old).toNat = count := by
  split
  · rename_i hgreater
    have hlt : old.toNat < new.toNat := hgreater
    omega
  · exact hold

/-- A completion raises the version of the holder by one and announces it. -/
theorem joinFsmComplete_version (hsees : SeesVersion count state)
    (htoken : state.haveToken = true) (hroom : count + 1 < 2 ^ 32) :
    ∃ topoVersion, commitVersions (announcements (joinFsmComplete state).2) = [topoVersion] ∧
      topoVersion.toNat = count + 1 ∧ SeesVersion (count + 1) (joinFsmComplete state).1 := by
  have hnext : (state.lastSeenTopoVersion + 1).toNat = count + 1 := by
    rw [UInt32.toNat_add, (hsees.holder htoken).2]
    exact Nat.mod_eq_of_lt hroom
  exact ⟨_, rfl, hnext, hnext.le, fun _ => ⟨hnext, hnext⟩⟩

/-- A transition announces no version and keeps those of the node, or it
completes a join at the holder and counts one up. -/
theorem Transition.versions (h : Transition state event state' out)
    (hcoordinator : CoordinatorInv state) (hsees : SeesVersion count state)
    (hevent : EventVersion count event)
    (hroom : count + (commitVersions (announcements out)).length < 2 ^ 32) :
    (commitVersions (announcements out) = [] ∧ SeesVersion count state') ∨
    (state.joinInflight.active = true ∧ ∃ topoVersion,
      commitVersions (announcements out) = [topoVersion] ∧ topoVersion.toNat = count + 1 ∧
      SeesVersion (count + 1) state') := by
  cases h with
  | idle | queueShrunk | senderChanged => exact .inl ⟨rfl, hsees.seen, hsees.holder⟩
  | requestSent | ackSent | recordRead => exact .inl ⟨rfl, hsees.seen, hsees.holder⟩
  | enqueued => exact .inl ⟨rfl, hsees.seen, hsees.holder⟩
  | acceptJoined accept now ok joinState sentAt hshrinks hself hunjoined hid =>
      exact .inl ⟨commitVersions_eq_nil (by simp), hsees.seen, hsees.holder⟩
  | acceptLinked accept now ok joinState sentAt hshrinks hother hself hnext =>
      exact .inl ⟨commitVersions_eq_nil (by simp), hsees.seen, hsees.holder⟩
  | acceptsSent now ok retries hactive =>
      exact .inl ⟨commitVersions_eq_nil (inflightSends_no_commit state ok), hsees.seen,
        hsees.holder⟩
  | completed event hquiet mid answers hactive hmid hprev hgot hanswers =>
      have hmidsees : SeesVersion count mid := by
        rcases hmid with rfl | ⟨_, _, _, _, rfl⟩
        · exact hsees
        · exact ⟨hsees.seen, hsees.holder⟩
      have hmidtoken : mid.haveToken = true := by
        rcases hmid with rfl | ⟨_, _, _, _, rfl⟩ <;> exact hcoordinator.active_token hactive
      have hsplit : commitVersions (announcements ((joinFsmComplete mid).2 ++ answers)) =
          commitVersions (announcements (joinFsmComplete mid).2) := by
        have hnone := commitVersions_eq_nil hanswers.no_commit
        unfold announcements at hnone ⊢
        rw [List.filterMap_append, commitVersions_append, hnone, List.append_nil]
      rw [hsplit] at hroom ⊢
      exact .inr ⟨hactive, joinFsmComplete_version hmidsees hmidtoken hroom⟩
  | ackAnswered requestId fromName now ok answers hanswers =>
      exact .inl ⟨commitVersions_eq_nil hanswers.no_commit, hsees.seen, hsees.holder⟩
  | confirmed fromName now ok answers hactive hanswers =>
      exact .inl ⟨commitVersions_eq_nil hanswers.no_commit, hsees.seen, hsees.holder⟩
  | tokenStored token now ok hunjoined =>
      refine .inl ⟨rfl, hsees.seen, fun htoken => ?_⟩
      have hjoined := hcoordinator.token_joined htoken
      rw [hunjoined] at hjoined
      cases hjoined
  | tokenTaken token now ok joinState hjoined hshrinks hempty =>
      have hversion : token.topoVersion.toNat = count := hevent
      have hseen : (if token.topoVersion ≤ state.lastSeenTopoVersion
          then state.lastSeenTopoVersion else token.topoVersion).toNat = count := by
        have hle := hsees.seen
        split
        · rename_i hnot
          have hge : token.topoVersion.toNat ≤ state.lastSeenTopoVersion.toNat := hnot
          omega
        · exact hversion
      exact .inl ⟨rfl, hseen.le, fun _ => ⟨hversion, hseen⟩⟩
  | commitSeen requestId newName topoVersion ip now joinState sender hshrinks hempty hsender
      hmatch =>
      exact .inl ⟨rfl, newer_le hsees.seen hevent, fun htoken =>
        ⟨(hsees.holder htoken).1, newer_eq (hsees.holder htoken).2 hevent⟩⟩
  | commitCompleted newName topoVersion ip now joinState sender hshrinks hempty hsender hactive =>
      have hholder := hsees.holder (hcoordinator.active_token hactive)
      have hnewer := newer_eq hholder.2 hevent
      exact .inl ⟨rfl, newer_le hsees.seen hevent, fun _ => ⟨hnewer, hnewer⟩⟩
  | joinStarted now ok pending joinState hjoined htoken hidle hpop =>
      exact .inl ⟨commitVersions_eq_nil (inflightSends_no_commit _ ok), hsees.seen,
        hsees.holder⟩
  | forwarded now ok hjoined htoken hidle hcount =>
      obtain ⟨reports, sent, cliPending, haveCliPending, hreports, _, heq⟩ :=
        ringOnToken_cases state ok
      rw [heq]
      refine .inl ⟨commitVersions_eq_nil fun requestId newName topoVersion member => ?_,
        hsees.seen, fun hkept => ?_⟩
      · rcases List.mem_append.mp member with hreport | hsend
        · rcases hreports _ hreport with ⟨_, hbad⟩ | ⟨_, hbad⟩ <;> cases hbad
        · cases List.mem_singleton.mp hsend
      · -- the token is kept only when its send failed
        have hfailed : ok 0 = false := by
          simp only [Bool.and_eq_true] at hkept
          simpa using hkept.2
        simpa [hfailed] using hsees.holder htoken

end Local

section World

variable {ι : Type*} {d : Deployment ι} {w w' : World ι}

def World.commitVersions (w : World ι) : List UInt32 := TokenRing.commitVersions w.announced

/-- The versions in the whole system: the token and its holder carry the
number of completed joins, no node has seen a greater one, and the joins
announced the versions from 1 up. -/
structure World.Versions (w : World ι) : Prop where
  nodes : ∀ i, SeesVersion w.commitVersions.length (w.state i)
  inFlight : ∀ i token, .token token ∈ w.inbox i →
    token.topoVersion.toNat = w.commitVersions.length
  announced : w.commitVersions.map UInt32.toNat = List.range' 1 w.commitVersions.length

theorem World.Versions.announced_le (h : w.Versions) {topoVersion : UInt32}
    (hmem : topoVersion ∈ w.commitVersions) :
    topoVersion.toNat ≤ w.commitVersions.length := by
  have hnat : topoVersion.toNat ∈ w.commitVersions.map UInt32.toNat :=
    List.mem_map_of_mem hmem
  rw [h.announced] at hnat
  have hbounds := List.mem_range'_1.mp hnat
  omega

theorem World.Versions.announced_nodup (h : w.Versions) : w.commitVersions.Nodup := by
  have hnodup : (w.commitVersions.map UInt32.toNat).Nodup := by
    rw [h.announced]
    exact List.nodup_range'
  exact hnodup.of_map

theorem mem_commitVersions {requestId topoVersion : UInt32} {newName : NodeName}
    (h : .joinCommit requestId newName topoVersion ∈ w.announced) :
    topoVersion ∈ w.commitVersions :=
  List.mem_filterMap.mpr ⟨_, h, rfl⟩

theorem World.Versions.received (h : w.Versions) {i : ι} {event : Event}
    (hoffers : w.Offers i event) : EventVersion w.commitVersions.length event := by
  cases event with
  | unicastMessage msg now ok =>
      cases msg with
      | token token => exact h.inFlight i token hoffers
      | _ => trivial
  | broadcastMessage msg ip now =>
      cases msg with
      | joinCommit requestId newName topoVersion =>
          exact h.announced_le (mem_commitVersions hoffers)
      | _ => trivial
  | _ => trivial

theorem World.Moves.commitVersions {i : ι} {event : Event} {out : List Effect}
    (h : w.Moves i event out w') :
    w'.commitVersions = w.commitVersions ++ TokenRing.commitVersions (announcements out) := by
  unfold World.commitVersions
  rw [h.announced, commitVersions_append]

theorem Deployment.start_versions [DecidableEq ι] (d : Deployment ι) : d.start.Versions := by
  refine ⟨fun i => ?_, fun i token hmsg => (by cases hmsg), rfl⟩
  obtain ⟨tokenIn, hzero, hstart⟩ := d.start_state i
  rw [hstart]
  exact ⟨Nat.zero_le _, fun _ => ⟨by rw [hzero]; rfl, rfl⟩⟩

variable [Fintype ι] [DecidableEq ι]

theorem World.Moves.versions {i : ι} {event : Event} {out : List Effect}
    (h : w.Moves i event out w') (hknows : w.Knows d) (hone : w.OneToken)
    (hversions : w.Versions) (hroom : w'.commitVersions.length < 2 ^ 32) : w'.Versions := by
  have hcommits := h.commitVersions
  rw [hcommits, List.length_append] at hroom
  rcases h.transition.versions (hknows.nodes i).coordinator (hversions.nodes i)
    (hversions.received h.offers) hroom with
    ⟨hnone, hsees⟩ | ⟨hactive, topoVersion, hcommit, hvalue, hsees⟩
  · have hsame : w'.commitVersions = w.commitVersions := by
      rw [hcommits, hnone, List.append_nil]
    rw [← hsame] at hsees
    refine ⟨fun j => ?_, fun j token hmsg => ?_, by rw [hsame]; exact hversions.announced⟩
    · by_cases hji : j = i
      · rw [hji]
        exact hsees
      · rw [h.others j hji, hsame]
        exact hversions.nodes j
    · rw [hsame]
      rcases h.mem_inbox hmsg with hold | hsent
      · exact hversions.inFlight j token hold
      · obtain ⟨_, htoken, _, _, hversion⟩ := h.transition.token_sender hsent
        have hholder := (hversions.nodes i).holder htoken
        rcases hversion with hin | hseen
        · rw [hin]
          exact hholder.1
        · rw [hseen]
          exact hholder.2
  · -- the coordinator holds the only token, so no other version need follow
    have htoken := (hknows.nodes i).coordinator.active_token hactive
    have hlength : w'.commitVersions.length = w.commitVersions.length + 1 := by
      rw [hcommits, hcommit, List.length_append]
      rfl
    rw [← hlength] at hsees
    refine ⟨fun j => ?_, fun j token hmsg => ?_, ?_⟩
    · by_cases hji : j = i
      · rw [hji]
        exact hsees
      · rw [h.others j hji]
        have hseen := (hversions.nodes j).seen
        exact ⟨by omega, fun hother =>
          absurd (World.place_unique hone.one (.inl hother) (.inl htoken)) hji⟩
    · rcases h.mem_inbox hmsg with hold | hsent
      · have hplace := World.place_unique hone.one (.inr ⟨token, hold⟩) (.inl htoken)
        subst hplace
        rw [World.not_both hone.one hold] at htoken
        cases htoken
      · obtain ⟨_, _, hidle, _, _⟩ := h.transition.token_sender hsent
        rw [hidle] at hactive
        cases hactive
    · rw [hlength, hcommits, hcommit, List.map_append, hversions.announced, List.map_singleton,
        hvalue, List.range'_concat]
      simp [Nat.add_comm]

theorem reachable_versions (h : Lts.Reachable World.step d.start w)
    (hfew : w.commitVersions.length < 2 ^ 32) : w.Versions := by
  refine h.invariant_on (fun w => w.commitVersions.length < 2 ^ 32 → w.Versions)
    (fun _ => d.start_versions) ?_ hfew
  intro w label w' hreach hversions _ hstep hroom
  obtain ⟨out, hmoves⟩ := World.moves_of_step hstep
  have hbefore : w.commitVersions.length < 2 ^ 32 := by
    rw [hmoves.commitVersions, List.length_append] at hroom
    omega
  exact hmoves.versions (reachable_knows hreach) (reachable_oneToken hreach)
    (hversions hbefore) hroom

/-- With fewer than 2^32 completed joins, the token of every reachable state
carries their number, and so does the version its holder has seen; no other
node has seen and no announcement carries a greater version, and the completed
joins announced different versions. -/
theorem topology_versions_count_joins (d : Deployment ι) (w : World ι)
    (h : Lts.Reachable World.step d.start w) (hfew : w.commitVersions.length < 2 ^ 32) :
    (∀ i, (w.state i).haveToken = true →
      (w.state i).tokenIn.topoVersion.toNat = w.commitVersions.length ∧
      (w.state i).lastSeenTopoVersion.toNat = w.commitVersions.length) ∧
    (∀ i token, .token token ∈ w.inbox i →
      token.topoVersion.toNat = w.commitVersions.length) ∧
    (∀ i, (w.state i).lastSeenTopoVersion.toNat ≤ w.commitVersions.length) ∧
    (∀ requestId newName topoVersion, .joinCommit requestId newName topoVersion ∈ w.announced →
      topoVersion.toNat ≤ w.commitVersions.length) ∧
    w.commitVersions.Nodup := by
  have hversions := reachable_versions h hfew
  exact ⟨fun i => (hversions.nodes i).holder, hversions.inFlight,
    fun i => (hversions.nodes i).seen,
    fun _ _ _ hmem => hversions.announced_le (mem_commitVersions hmem),
    hversions.announced_nodup⟩

/-- After the join of `B` the token on its way to `B` has version 1. -/
theorem pair_token_version :
    ∃ w, Lts.Reachable World.step Deployment.pair.start w ∧ w.commitVersions = [1] ∧
      ∀ i token, .token token ∈ w.inbox i → token.topoVersion.toNat = 1 := by
  have hrun : (Lts.exec World.step Deployment.pair.start pairJoins).map World.commitVersions =
      some [1] := by decide +kernel
  obtain ⟨w, hexec, hversions⟩ := Option.map_eq_some_iff.mp hrun
  have hreach := Lts.reachable_of_exec hexec
  have hone : w.commitVersions.length = 1 := by rw [hversions]; rfl
  have hcount := (topology_versions_count_joins Deployment.pair w hreach (by omega)).2.1
  rw [hone] at hcount
  exact ⟨w, hreach, hversions, hcount⟩

end World

end TokenRing
