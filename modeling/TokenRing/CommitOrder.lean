import TokenRing.CompletedList
import TokenRing.Lib.SlotFirst

/-!
Series of `JOIN_COMMIT` datagrams at a node without a join in flight. What a
series leaves behind is a greatest version, a queue with the first entry of
each name freed, and a set of recorded names; none of them depends on the order
of the datagrams.
-/

namespace TokenRing

/-- A `join_commit_t` in host order. -/
structure JoinCommit where
  requestId : UInt32
  newName : NodeName
  topoVersion : UInt32
deriving DecidableEq

/-- A datagram with a commit, with its source and the time of its receipt. -/
structure ReceivedCommit where
  commit : JoinCommit
  ip : UInt32
  now : Int

def JoinCommit.entry (commit : JoinCommit) : CompletedJoin :=
  ⟨commit.requestId, commit.newName⟩

def receiveCommit (state : RingState) (received : ReceivedCommit) : RingState :=
  handleBroadcast state
    (.joinCommit received.commit.requestId received.commit.newName received.commit.topoVersion)
    received.ip received.now

def receiveCommits (state : RingState) (received : List ReceivedCommit) : RingState :=
  received.foldl receiveCommit state

/-- The acknowledgements after the commits of some requests. -/
def JoinAckSender.afterCommits (sender : JoinAckSender) (commits : List JoinCommit) :
    JoinAckSender :=
  if sender.active = true ∧ sender.requestId ∈ commits.map JoinCommit.requestId then
    { sender with active := false, gotAckAck := true }
  else
    sender

/-- The queue after the commits, when the node has seen this version before. -/
def queueAfterCommits (lastSeen : UInt32) (joins : SlotTable 32 PendingJoin)
    (commits : List JoinCommit) : SlotTable 32 PendingJoin :=
  if ∃ commit ∈ commits, commit.topoVersion > lastSeen then
    SlotTable.empty
  else
    (commits.map JoinCommit.newName).foldl
      (fun table name => table.freeFirst (JoinState.waitsIn name)) joins

/-- What a series of commits does to a node without a join in flight. -/
structure CommitsDone (state : RingState) (commits : List JoinCommit) (after : RingState) :
    Prop where
  inflight : after.joinInflight = state.joinInflight
  version : after.lastSeenTopoVersion =
    (commits.map JoinCommit.topoVersion).foldl max state.lastSeenTopoVersion
  joins : after.joinState.joins =
    queueAfterCommits state.lastSeenTopoVersion state.joinState.joins commits
  counted : after.joinState.CountExact
  kept : after.joinState.ListKept
  completed : after.joinState.completedList =
    (commits.map JoinCommit.entry).foldl (FifoSet.record 32 CompletedJoin.nodeName)
      state.joinState.completedList
  ackSender : after.ackSender = state.ackSender.afterCommits commits

section Steps

variable {state mid after : RingState} {commit : JoinCommit} {rest : List JoinCommit}

theorem removePendingJoin_joins (joinState : JoinState) (name : NodeName) :
    (joinState.removePendingJoin name).joins =
      joinState.joins.freeFirst (JoinState.waitsIn name) := by
  unfold JoinState.removePendingJoin SlotTable.freeFirst
  cases joinState.joins.firstSlot (JoinState.waitsIn name) with
  | none => rfl
  | some i => rfl

theorem advanceTopology_completed (state : RingState) (topoVersion : UInt32) :
    JoinState.SameCompleted state.joinState (advanceTopology state topoVersion).joinState := by
  unfold advanceTopology
  split
  · simp only
    split
    · exact JoinState.dropLoop_completed _ _
    · exact .refl _
  · exact .refl _

/-- A newer version leaves an empty queue, any other one leaves the queue as it
was. -/
theorem advanceTopology_joins (state : RingState) (topoVersion : UInt32)
    (hexact : state.joinState.CountExact) :
    (advanceTopology state topoVersion).joinState.joins =
      if topoVersion > state.lastSeenTopoVersion then SlotTable.empty
      else state.joinState.joins := by
  by_cases hnewer : topoVersion > state.lastSeenTopoVersion
  · obtain ⟨joinState, _, heq, hempty⟩ := advanceTopology_eq state topoVersion
    rw [if_pos hnewer, heq]
    exact funext (hempty hnewer hexact)
  · rw [advanceTopology_of_not_newer state hnewer, if_neg hnewer]

theorem advanceTopology_kept (state : RingState) (topoVersion : UInt32)
    (hexact : state.joinState.CountExact) (hlist : state.joinState.ListKept) :
    (advanceTopology state topoVersion).joinState.CountExact ∧
      (advanceTopology state topoVersion).joinState.ListKept := by
  obtain ⟨joinState, hshrinks, heq, _⟩ := advanceTopology_eq state topoVersion
  have hsame := advanceTopology_completed state topoVersion
  constructor
  · rw [heq]
    exact hshrinks.countExact hexact
  · constructor
    · rw [hsame.2]
      exact hlist.bound
    · rw [JoinState.completedList_congr hsame]
      exact hlist.nodup

theorem max_eq_newer (version lastSeen : UInt32) :
    max lastSeen version = if version > lastSeen then version else lastSeen := by
  apply UInt32.toNat_inj.mp
  rw [UInt32.toNat_max]
  split
  · rename_i hnewer
    have hless : lastSeen.toNat < version.toNat := hnewer
    omega
  · rename_i hnot
    have hle : ¬ lastSeen.toNat < version.toNat := hnot
    omega

theorem stopAckSender_ackSender (state : RingState) (requestId : UInt32) :
    (stopAckSender state requestId).ackSender =
      if state.ackSender.active = true ∧ state.ackSender.requestId = requestId then
        { state.ackSender with active := false, gotAckAck := true }
      else
        state.ackSender := by
  unfold stopAckSender
  split <;> rfl

/-- One commit, of a request that is not in flight. -/
theorem handleJoinCommit_done (hinflight : state.joinInflight.active = false)
    (hexact : state.joinState.CountExact) (hlist : state.joinState.ListKept) :
    CommitsDone state [commit]
      (handleJoinCommit state commit.requestId commit.newName commit.topoVersion) := by
  let marked := { state with
    joinState :=
      state.joinState.markCompletedAndPrunePending commit.newName commit.requestId }
  have hmarked := (JoinState.markCompletedAndPrunePending_shrinks state.joinState commit.newName
    commit.requestId).countExact hexact
  have hmarkedList := hlist.apply
    (.queue (.markCompletedAndPrunePending commit.newName commit.requestId))
  have hentries := JoinState.applyJoinOp_completedList hlist.bound hlist.nodup
    (.queue (.markCompletedAndPrunePending commit.newName commit.requestId))
  have hkept := advanceTopology_kept marked commit.topoVersion hmarked hmarkedList
  have hjoins := advanceTopology_joins marked commit.topoVersion hmarked
  have hsame := advanceTopology_completed marked commit.topoVersion
  obtain ⟨joinState, _, hadvance, _⟩ := advanceTopology_eq marked commit.topoVersion
  have hafter : handleJoinCommit state commit.requestId commit.newName commit.topoVersion =
      stopAckSender (advanceTopology marked commit.topoVersion) commit.requestId := by
    unfold handleJoinCommit completeViaCommit
    simp only
    rw [if_neg]
    rw [hadvance]
    simp [marked, hinflight]
  obtain ⟨sender, hstop, _⟩ := stopAckSender_eq (advanceTopology marked commit.topoVersion)
    commit.requestId
  rw [hafter]
  constructor
  · rw [hstop, hadvance]
  · rw [hstop, hadvance, List.map_singleton, List.foldl_cons, List.foldl_nil, max_eq_newer]
  · rw [stopAckSender_joinState, hjoins]
    simp [queueAfterCommits, marked, JoinState.markCompletedAndPrunePending,
      removePendingJoin_joins]
  · rw [stopAckSender_joinState]
    exact hkept.1
  · rw [stopAckSender_joinState]
    exact hkept.2
  · rw [stopAckSender_joinState, JoinState.completedList_congr hsame]
    exact hentries
  · rw [stopAckSender_ackSender, hadvance]
    simp [JoinAckSender.afterCommits, marked]

end Steps

section Series

variable {state mid after : RingState} {commit : JoinCommit} {commits rest : List JoinCommit}

theorem afterCommits_cons (sender : JoinAckSender) (commit : JoinCommit)
    (rest : List JoinCommit) :
    (sender.afterCommits [commit]).afterCommits rest = sender.afterCommits (commit :: rest) := by
  unfold JoinAckSender.afterCommits
  by_cases hactive : sender.active = true
  · by_cases hfirst : sender.requestId = commit.requestId
    · simp [hactive, hfirst]
    · simp [hactive, hfirst]
  · simp [hactive]

/-- The queue after the first commit is the one the others find. -/
theorem queueAfterCommits_cons (lastSeen : UInt32) (joins : SlotTable 32 PendingJoin)
    (commit : JoinCommit) (rest : List JoinCommit) :
    queueAfterCommits (max lastSeen commit.topoVersion)
        (queueAfterCommits lastSeen joins [commit]) rest =
      queueAfterCommits lastSeen joins (commit :: rest) := by
  rw [max_eq_newer]
  by_cases hnewer : commit.topoVersion > lastSeen
  · -- the first commit has emptied the queue, and the others find nothing to free
    rw [if_pos hnewer]
    have hfirst : queueAfterCommits lastSeen joins [commit] = SlotTable.empty := by
      simp [queueAfterCommits, hnewer]
    have hall : queueAfterCommits lastSeen joins (commit :: rest) = SlotTable.empty := by
      simp [queueAfterCommits, hnewer]
    rw [hfirst, hall]
    unfold queueAfterCommits
    split
    · rfl
    · exact SlotTable.foldl_freeFirst_empty _
  · rw [if_neg hnewer]
    simp [queueAfterCommits, hnewer]

theorem CommitsDone.cons (hfirst : CommitsDone state [commit] mid)
    (hrest : CommitsDone mid rest after) : CommitsDone state (commit :: rest) after := by
  constructor
  · exact hrest.inflight.trans hfirst.inflight
  · rw [hrest.version, hfirst.version]
    rfl
  · rw [hrest.joins, hfirst.joins, hfirst.version]
    exact queueAfterCommits_cons _ _ _ _
  · exact hrest.counted
  · exact hrest.kept
  · rw [hrest.completed, hfirst.completed]
    rfl
  · rw [hrest.ackSender, hfirst.ackSender]
    exact afterCommits_cons _ _ _

/-- The whole series. -/
theorem receiveCommits_done (received : List ReceivedCommit)
    (hinflight : state.joinInflight.active = false) (hexact : state.joinState.CountExact)
    (hlist : state.joinState.ListKept) :
    CommitsDone state (received.map ReceivedCommit.commit) (receiveCommits state received) := by
  induction received generalizing state with
  | nil =>
      constructor
      · rfl
      · rfl
      · simp [queueAfterCommits, receiveCommits]
      · exact hexact
      · exact hlist
      · rfl
      · simp [JoinAckSender.afterCommits, receiveCommits]
  | cons first rest ih =>
      have hfirst : CommitsDone state [first.commit] (receiveCommit state first) :=
        handleJoinCommit_done hinflight hexact hlist
      have hstill : (receiveCommit state first).joinInflight.active = false := by
        rw [hfirst.inflight, hinflight]
      exact hfirst.cons (ih hstill hfirst.counted hfirst.kept)

end Series

/-- What two nodes share after the same commits. The completed lists may differ
in their order. -/
structure CommitsAgree (first second : RingState) : Prop where
  version : first.lastSeenTopoVersion = second.lastSeenTopoVersion
  joins : first.joinState.joins = second.joinState.joins
  count : first.joinState.count = second.joinState.count
  completed : ∀ entry, entry ∈ first.joinState.completedList ↔
    entry ∈ second.joinState.completedList
  ackSender : first.ackSender = second.ackSender

section Orders

variable {state first second : RingState} {commits others : List JoinCommit}

theorem greatestVersion_perm (hperm : commits.Perm others) (lastSeen : UInt32) :
    (commits.map JoinCommit.topoVersion).foldl max lastSeen =
      (others.map JoinCommit.topoVersion).foldl max lastSeen := by
  apply (hperm.map _).foldl_eq'
  intro x _ y _ z
  apply UInt32.toNat_inj.mp
  simp only [UInt32.toNat_max]
  omega

theorem queueAfterCommits_perm (hperm : commits.Perm others)
    (hnames : (commits.map JoinCommit.newName).Nodup) (lastSeen : UInt32)
    (joins : SlotTable 32 PendingJoin) :
    queueAfterCommits lastSeen joins commits = queueAfterCommits lastSeen joins others := by
  unfold queueAfterCommits
  simp only [hperm.mem_iff]
  split
  · rfl
  · apply SlotTable.foldl_freeFirst_perm (hperm.map _) hnames
    · intro name
      rfl
    · intro name other content hname hother
      obtain ⟨pending, rfl, hsame⟩ := JoinState.waitsIn_eq_true.mp hname
      obtain ⟨pending', hcontent, hsame'⟩ := JoinState.waitsIn_eq_true.mp hother
      cases hcontent
      exact hsame.symm.trans hsame'

theorem afterCommits_perm (hperm : commits.Perm others) (sender : JoinAckSender) :
    sender.afterCommits commits = sender.afterCommits others := by
  unfold JoinAckSender.afterCommits
  simp only [(hperm.map _).mem_iff]

theorem names_of_entries (commits : List JoinCommit) :
    (commits.map JoinCommit.entry).map CompletedJoin.nodeName =
      commits.map JoinCommit.newName := by
  rw [List.map_map]
  rfl

/-- With room for all names the list holds the announced entries and those of
the other names. -/
theorem CommitsDone.mem_completed (h : CommitsDone state commits first)
    (hlist : state.joinState.ListKept) (hnames : (commits.map JoinCommit.newName).Nodup)
    (hroom : ((state.joinState.completedList.map CompletedJoin.nodeName).toFinset ∪
      (commits.map JoinCommit.newName).toFinset).card ≤ 32) (entry : CompletedJoin) :
    entry ∈ first.joinState.completedList ↔
      entry ∈ commits.map JoinCommit.entry ∨
        (entry ∈ state.joinState.completedList ∧
          entry.nodeName ∉ commits.map JoinCommit.newName) := by
  rw [← names_of_entries] at hnames hroom ⊢
  rw [h.completed]
  exact FifoSet.mem_foldl_record hlist.nodup hnames hroom

theorem CommitsDone.agree (h : CommitsDone state commits first)
    (h' : CommitsDone state others second) (hlist : state.joinState.ListKept)
    (hperm : commits.Perm others) (hnames : (commits.map JoinCommit.newName).Nodup)
    (hroom : ((state.joinState.completedList.map CompletedJoin.nodeName).toFinset ∪
      (commits.map JoinCommit.newName).toFinset).card ≤ 32) : CommitsAgree first second := by
  have hjoins : first.joinState.joins = second.joinState.joins := by
    rw [h.joins, h'.joins]
    exact queueAfterCommits_perm hperm hnames _ _
  have hnames' := (hperm.map JoinCommit.newName).nodup_iff.mp hnames
  have hsame : (commits.map JoinCommit.newName).toFinset =
      (others.map JoinCommit.newName).toFinset :=
    List.toFinset_eq_of_perm _ _ (hperm.map _)
  constructor
  · rw [h.version, h'.version]
    exact greatestVersion_perm hperm _
  · exact hjoins
  · have hcount := h.counted
    have hcount' := h'.counted
    unfold JoinState.CountExact at hcount hcount'
    rw [hcount, hcount', hjoins]
  · intro entry
    rw [h.mem_completed hlist hnames hroom, h'.mem_completed hlist hnames' (hsame ▸ hroom),
      (hperm.map _).mem_iff, (hperm.map _).mem_iff]
  · rw [h.ackSender, h'.ackSender]
    exact afterCommits_perm hperm _

/-- A series of commits of different nodes may arrive in any order. -/
theorem commit_order_does_not_matter (state : RingState)
    (hinflight : state.joinInflight.active = false) (ops : List JoinState.JoinOp)
    (hreached : state.joinState = JoinState.afterJoinOps ops)
    (received reordered : List ReceivedCommit)
    (hperm : (received.map ReceivedCommit.commit).Perm (reordered.map ReceivedCommit.commit))
    (hnames : ((received.map ReceivedCommit.commit).map JoinCommit.newName).Nodup)
    (hroom : ((state.joinState.completedList.map CompletedJoin.nodeName).toFinset ∪
      ((received.map ReceivedCommit.commit).map JoinCommit.newName).toFinset).card ≤ 32) :
    (receiveCommits state received).lastSeenTopoVersion =
        ((received.map ReceivedCommit.commit).map JoinCommit.topoVersion).foldl max
          state.lastSeenTopoVersion ∧
      CommitsAgree (receiveCommits state received) (receiveCommits state reordered) := by
  have hexact : state.joinState.CountExact := hreached ▸ (JoinState.afterJoinOps_inv ops).1
  have hlist : state.joinState.ListKept := hreached ▸ JoinState.listKept_afterJoinOps ops
  have hdone := receiveCommits_done received hinflight hexact hlist
  have hdone' := receiveCommits_done reordered hinflight hexact hlist
  exact ⟨hdone.version, hdone.agree hdone' hlist hperm hnames hroom⟩

/-- A node with one node waiting. -/
def waitingNode : RingState :=
  { RingState.init neighbours true with
    joinState := JoinState.afterJoinOps
      [.queue (.addPendingJoin ⟨2, NodeName.ofBytes [66], 5002⟩ 1 10)] }

def twoCommits : List ReceivedCommit :=
  [⟨⟨2, NodeName.ofBytes [66], 1⟩, 1, 20⟩, ⟨⟨3, NodeName.ofBytes [68], 2⟩, 1, 21⟩]

theorem commits_arrive_reversed :
    (receiveCommits waitingNode twoCommits).lastSeenTopoVersion =
        ((twoCommits.map ReceivedCommit.commit).map JoinCommit.topoVersion).foldl max
          waitingNode.lastSeenTopoVersion ∧
      CommitsAgree (receiveCommits waitingNode twoCommits)
        (receiveCommits waitingNode twoCommits.reverse) :=
  commit_order_does_not_matter waitingNode rfl _ rfl twoCommits twoCommits.reverse
    (twoCommits.reverse_perm.symm.map _) (by decide +kernel) (by decide +kernel)

end Orders

end TokenRing
