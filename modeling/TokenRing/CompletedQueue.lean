import TokenRing.Coordinator
import TokenRing.JoinCounter

/-!
The waiting queue against the list of nodes known to have joined. A node that
is recorded as joined is taken out of the queue once, so it is left waiting
when it waits there more often.
-/

namespace TokenRing

namespace JoinState

/-- In how many slots the name waits. -/
def copies (state : JoinState) (name : NodeName) : Nat :=
  (Finset.univ.filter (fun i => waitsIn name (state.joins i) = true)).card

/-- No used slot holds a name that is in the completed list. -/
def NoneWaitsCompleted (state : JoinState) : Prop :=
  ∀ i pending, state.joins i = some pending → state.isCompleted pending.nodeName = false

/-- The names are recorded as completed, and each time one copy of the name is
taken out of the queue. -/
structure Completes (names : List NodeName) (before after : JoinState) : Prop where
  copies : ∀ name, after.copies name ≤ before.copies name - names.count name
  completed : ∀ name, after.isCompleted name = true →
    name ∈ names ∨ before.isCompleted name = true

section Completes

variable {before mid after state : JoinState} {names more : List NodeName} {name : NodeName}

theorem Completes.trans (hfirst : Completes names before mid) (hrest : Completes more mid after) :
    Completes (names ++ more) before after := by
  constructor
  · intro name
    have hmid := hfirst.copies name
    have hafter := hrest.copies name
    rw [List.count_append]
    omega
  · intro name hcompleted
    rcases hrest.completed name hcompleted with hnew | hmid
    · exact .inl (List.mem_append_right names hnew)
    · rcases hfirst.completed name hmid with hnew | hold
      · exact .inl (List.mem_append_left more hnew)
      · exact .inr hold

theorem isCompleted_congr (h : SameCompleted before after) (name : NodeName) :
    after.isCompleted name = before.isCompleted name := by
  unfold isCompleted completedIndices
  rw [h.1, h.2]

/-- Slots that are freed hold no copy any more. -/
theorem copies_within (h : SlotTable.Within after.joins before.joins) (name : NodeName) :
    after.copies name ≤ before.copies name := by
  apply Finset.card_le_card
  intro i hi
  simp only [Finset.mem_filter, Finset.mem_univ, true_and] at hi ⊢
  obtain ⟨pending, hslot, hname⟩ := waitsIn_eq_true.mp hi
  exact waitsIn_eq_true.mpr ⟨pending, h i pending hslot, hname⟩

theorem Completes.of_shrinks (hshrinks : Shrinks before after)
    (hsame : SameCompleted before after) : Completes [] before after := by
  constructor
  · intro name
    exact copies_within hshrinks.within name
  · intro name hcompleted
    rw [isCompleted_congr hsame] at hcompleted
    exact .inr hcompleted

/-- `remove_pending_join` takes out one copy, if there is one. -/
theorem copies_removePendingJoin (state : JoinState) (name : NodeName) :
    (state.removePendingJoin name).copies name ≤ state.copies name - 1 := by
  unfold removePendingJoin
  cases hfirst : state.joins.firstSlot (waitsIn name) with
  | none =>
      have hnone : state.copies name = 0 := by
        apply Finset.card_eq_zero.mpr
        apply Finset.filter_eq_empty_iff.mpr
        intro i _
        simp [(SlotTable.firstSlot_eq_none_iff _ _).mp hfirst i]
      simp [hnone]
  | some i =>
      have hwaits := SlotTable.firstSlot_spec hfirst
      have hmem : i ∈ Finset.univ.filter (fun i => waitsIn name (state.joins i) = true) := by
        simpa using hwaits
      have herase : Finset.univ.filter
          (fun j => waitsIn name (SlotTable.set state.joins i none j) = true) =
          (Finset.univ.filter (fun j => waitsIn name (state.joins j) = true)).erase i := by
        ext j
        by_cases hj : j = i
        · subst hj
          have hfree : waitsIn name none = false := rfl
          simp [hfree]
        · simp [SlotTable.set_of_ne _ _ hj, hj]
      unfold copies
      simp only
      rw [herase, Finset.card_erase_of_mem hmem]

theorem isCompleted_iff (state : JoinState) (name : NodeName) :
    state.isCompleted name = true ↔
      ∃ i, i.val < state.completedCount.toNat ∧ (state.completed i).nodeName = name := by
  simp [isCompleted, completedIndices]

/-- A name completed after a recording is the one recorded or was completed
before: a full list only loses its oldest entry. -/
theorem isCompleted_recordCompleted {requestId : UInt32} {other : NodeName}
    (h : (state.recordCompleted name requestId).isCompleted other = true) :
    other = name ∨ state.isCompleted other = true := by
  rw [isCompleted_iff] at h ⊢
  obtain ⟨j, hj, hname⟩ := h
  unfold recordCompleted at hj hname
  split at hj
  · rename_i i hfound
    simp only [hfound] at hname
    by_cases hji : j = i
    · subst hji
      rw [Function.update_self] at hname
      exact .inl hname.symm
    · rw [Function.update_of_ne hji] at hname
      exact .inr ⟨j, hj, hname⟩
  · rename_i hnew
    simp only [hnew] at hname
    split at hj
    · rename_i hroom
      simp only [hroom, dite_true] at hname
      by_cases hji : j = ⟨state.completedCount.toNat, hroom⟩
      · subst hji
        rw [Function.update_self] at hname
        exact .inl hname.symm
      · rw [Function.update_of_ne hji] at hname
        have hone : (1 : UInt64).toNat = 1 := rfl
        have hother : j.val ≠ state.completedCount.toNat := fun heq => hji (Fin.ext heq)
        simp only [UInt64.toNat_add, hone] at hj
        exact .inr ⟨j, by omega, hname⟩
    · rename_i hfull
      simp only [hfull, dite_false] at hname
      by_cases hlast : j = 31
      · subst hlast
        rw [Function.update_self] at hname
        exact .inl hname.symm
      · rw [Function.update_of_ne hlast] at hname
        have hmore : j.val + 1 < 32 := by omega
        simp only [shiftCompleted, hmore, dite_true] at hname
        refine .inr ⟨⟨j.val + 1, hmore⟩, ?_, hname⟩
        simp only
        omega

theorem copies_congr (h : after.joins = before.joins) (name : NodeName) :
    after.copies name = before.copies name := by
  unfold copies
  rw [h]

theorem completes_remove (state : JoinState) (name other : NodeName) :
    (state.removePendingJoin name).copies other ≤ state.copies other - [name].count other := by
  by_cases hsame : other = name
  · subst hsame
    rw [List.count_singleton_self]
    exact copies_removePendingJoin state other
  · rw [List.count_singleton, if_neg (by simpa using Ne.symm hsame)]
    exact copies_within (removePendingJoin_shrinks state name).within other

/-- `join_state_mark_completed_and_prune_pending` records first and removes
then. -/
theorem completes_mark (state : JoinState) (name : NodeName) (requestId : UInt32) :
    Completes [name] state (state.markCompletedAndPrunePending name requestId) := by
  constructor
  · intro other
    have hremove := completes_remove (state.recordCompleted name requestId) name other
    rw [copies_congr (recordCompleted_joins state name requestId)] at hremove
    exact hremove
  · intro other hcompleted
    unfold markCompletedAndPrunePending at hcompleted
    rw [isCompleted_congr (removePendingJoin_completed _ name)] at hcompleted
    rcases isCompleted_recordCompleted hcompleted with heq | hold
    · exact .inl (List.mem_singleton.mpr heq)
    · exact .inr hold

/-- The completion of a join removes first and records then. -/
theorem completes_joiner (state : JoinState) (name : NodeName) (requestId : UInt32) :
    Completes [name] state ((state.removePendingJoin name).recordCompleted name requestId) := by
  constructor
  · intro other
    rw [copies_congr (recordCompleted_joins _ name requestId)]
    exact completes_remove state name other
  · intro other hcompleted
    rcases isCompleted_recordCompleted hcompleted with heq | hold
    · exact .inl (List.mem_singleton.mpr heq)
    · rw [isCompleted_congr (removePendingJoin_completed state name)] at hold
      exact .inr hold

theorem copies_pos {i : Fin 32} {pending : PendingJoin} (hslot : state.joins i = some pending) :
    0 < state.copies pending.nodeName := by
  apply Finset.card_pos.mpr
  exact ⟨i, Finset.mem_filter.mpr
    ⟨Finset.mem_univ i, waitsIn_eq_true.mpr ⟨pending, hslot, rfl⟩⟩⟩

/-- When every name recorded waits no more often than it is taken out, none is
left waiting. -/
theorem Completes.none_waits (h : Completes names before after)
    (hnone : NoneWaitsCompleted before) (hwithin : Shrinks before after)
    (hall : ∀ name ∈ names, before.copies name ≤ names.count name) :
    NoneWaitsCompleted after := by
  intro i pending hslot
  by_contra hcompleted
  have hcompleted : after.isCompleted pending.nodeName = true := by simpa using hcompleted
  rcases h.completed _ hcompleted with hnew | hold
  · have hpos := copies_pos hslot
    have hleft := h.copies pending.nodeName
    have hfew := hall _ hnew
    omega
  · have hbefore := hnone i pending (hwithin.within i pending hslot)
    rw [hold] at hbefore
    cases hbefore

theorem addPendingJoin_none_waits {request : JoinRequest} {ip : UInt32} {now : Int}
    (hnone : NoneWaitsCompleted before) (hnew : before.isCompleted request.nodeName = false)
    (hadd : before.addPendingJoin request ip now = some after) : NoneWaitsCompleted after := by
  intro i pending hslot
  rw [isCompleted_congr (addPendingJoin_completed hadd)]
  rcases addPendingJoin_entry hadd i pending hslot with rfl | hold
  · exact hnew
  · exact hnone i pending hold

end Completes

end JoinState

/-- The two confirmations of the join in flight are there. -/
def RingState.confirmed (state : RingState) : Bool :=
  state.joinInflight.active && state.joinInflight.gotConfirmPrev &&
    state.joinInflight.gotConfirmJoiner

/-- The joiner that `join_fsm_try_complete` records in this state. -/
def RingState.completing (state : RingState) : List NodeName :=
  if state.confirmed then [state.joinInflight.joiner.nodeName] else []

/-- The event is a message with the id of the join in flight. -/
def RingState.inflightIs (state : RingState) (requestId : UInt32) : Bool :=
  state.joinInflight.active && state.joinInflight.requestId = requestId

/-- The names that an event records as completed, in order. -/
def Event.completes (state : RingState) : Event → List NodeName
  | .joinFsmInflightTick _ _ | .joinFsmMaybeComplete _ => state.completing
  | .unicastMessage (.joinAccept accept) _ _ => [accept.newName]
  | .unicastMessage (.joinAck requestId fromName) _ _ =>
      if state.inflightIs requestId then (recordConfirm state fromName).completing else []
  | .broadcastMessage (.joinCommit requestId newName _) _ _ =>
      newName ::
        (if state.inflightIs requestId then [state.joinInflight.joiner.nodeName] else [])
  | _ => []

/-- The event is a `JOIN_COMMIT` of a newer version, which empties the queue. -/
def Event.empties (state : RingState) : Event → Bool
  | .broadcastMessage (.joinCommit _ _ topoVersion) _ _ => topoVersion > state.lastSeenTopoVersion
  | _ => false

/-- A name that the event records as completed waits in more slots than the
event frees. -/
def LeavesWaiting (state : RingState) (event : Event) : Prop :=
  event.empties state = false ∧ ∃ name ∈ event.completes state,
    (event.completes state).count name < state.joinState.copies name

instance (state : RingState) (event : Event) : Decidable (LeavesWaiting state event) :=
  inferInstanceAs (Decidable (_ ∧ ∃ name ∈ event.completes state, _))

/-- What an event does to the queue and the completed list: it takes in a
request of a node not known to have joined, or it records names, each taken
out once, or it empties the queue. -/
inductive QueueChange (event : Event) (state : RingState) (joinState : JoinState) : Prop where
  | enqueued (request : JoinRequest) (ip : UInt32) (now : Int)
      (hnew : state.joinState.isCompleted request.nodeName = false)
      (hadd : state.joinState.addPendingJoin request ip now = some joinState) :
      QueueChange event state joinState
  | recorded (hkeeps : event.empties state = false)
      (hshrinks : JoinState.Shrinks state.joinState joinState)
      (hcompletes : JoinState.Completes (event.completes state) state.joinState joinState) :
      QueueChange event state joinState
  | emptied (hempties : event.empties state = true)
      (hempty : JoinState.CountExact state.joinState → ∀ i, joinState.joins i = none) :
      QueueChange event state joinState

section Changes

variable {state state' : RingState} {out : List Effect}

/-- A call that leaves the queue and the list alone. -/
theorem QueueChange.same {event : Event} (hkeeps : event.empties state = false)
    (hnames : event.completes state = []) : QueueChange event state state.joinState := by
  apply QueueChange.recorded hkeeps
  · exact .refl _
  · rw [hnames]
    exact .of_shrinks (.refl _) (.refl _)

theorem QueueChange.of_shrinks {event : Event} {joinState : JoinState}
    (hkeeps : event.empties state = false) (hnames : event.completes state = [])
    (hshrinks : JoinState.Shrinks state.joinState joinState)
    (hsame : JoinState.SameCompleted state.joinState joinState) :
    QueueChange event state joinState := by
  apply QueueChange.recorded hkeeps hshrinks
  rw [hnames]
  exact .of_shrinks hshrinks hsame

theorem joinFsmTryComplete_queue (state : RingState) :
    JoinState.Shrinks state.joinState (joinFsmTryComplete state).1.joinState ∧
      JoinState.Completes state.completing state.joinState
        (joinFsmTryComplete state).1.joinState := by
  unfold RingState.completing RingState.confirmed
  rcases joinFsmTryComplete_cases state with hsame | ⟨hactive, hprev, hjoiner, hdone⟩
  · rw [hsame]
    constructor
    · exact .refl _
    · split
      · rename_i hboth
        simp only [Bool.and_eq_true] at hboth
        have hcomplete := joinFsmTryComplete_of_confirmed hboth.1.1 hboth.1.2 hboth.2
        rw [hsame] at hcomplete
        have hinactive : state.joinInflight.active = false := by
          have hflag := congrArg (fun result => result.1.joinInflight.active) hcomplete
          exact hflag
        rw [hinactive] at hboth
        simp at hboth
      · exact .of_shrinks (.refl _) (.refl _)
  · rw [hdone, hactive, hprev, hjoiner]
    exact ⟨complete_queue_shrinks _ _, JoinState.completes_joiner _ _ _⟩

theorem joinFsmInflightTick_queue (now : Int) (ok : Nat → Bool) :
    QueueChange (.joinFsmInflightTick now ok) state
      (joinFsmInflightTick state now ok).1.joinState := by
  by_cases hconfirmed : state.confirmed = true
  · simp only [RingState.confirmed, Bool.and_eq_true] at hconfirmed
    have htick : joinFsmInflightTick state now ok = joinFsmTryComplete state := by
      simp [joinFsmInflightTick, hconfirmed]
    obtain ⟨hshrinks, hcompletes⟩ := joinFsmTryComplete_queue state
    rw [htick]
    exact .recorded rfl hshrinks hcompletes
  · have hnames : (Event.joinFsmInflightTick now ok).completes state = [] := by
      simp [Event.completes, RingState.completing, hconfirmed]
    have hsame : (joinFsmInflightTick state now ok).1.joinState = state.joinState := by
      rcases joinFsmInflightTick_cases state now ok with
        heq | ⟨hactive, hprev, hjoiner, _⟩ | ⟨_, retries, heq⟩
      · rw [heq]
      · exact absurd (by simp [RingState.confirmed, hactive, hprev, hjoiner]) hconfirmed
      · rw [heq]
    rw [hsame]
    exact .same rfl hnames

theorem applyAcceptIfRelevant_joinState (state : RingState) (accept : JoinAccept) :
    (applyAcceptIfRelevant state accept).2.joinState = state.joinState := by
  unfold applyAcceptIfRelevant
  split
  · split
    · rfl
    · split <;> rfl
  · split
    · split <;> rfl
    · rfl

theorem handleJoinAcceptU_queue (accept : JoinAccept) (now : Int) (ok : Nat → Bool) :
    QueueChange (.unicastMessage (.joinAccept accept) now ok) state
      (handleJoinAcceptU state accept now ok).1.joinState := by
  have hmark : (handleJoinAcceptU state accept now ok).1.joinState =
      state.joinState.markCompletedAndPrunePending accept.newName accept.requestId := by
    unfold handleJoinAcceptU
    simp only
    split
    · exact applyAcceptIfRelevant_joinState _ accept
    · exact applyAcceptIfRelevant_joinState _ accept
  rw [hmark]
  exact .recorded rfl (JoinState.markCompletedAndPrunePending_shrinks _ _ _)
    (JoinState.completes_mark _ _ _)

theorem handleTokenUnicast_queue (token : Token) (now : Int) (ok : Nat → Bool) :
    QueueChange (.unicastMessage (.token token) now ok) state
      (handleTokenUnicast state token).joinState := by
  have hdrop : ∀ joinState maxRemove, JoinState.SameCompleted joinState
      (JoinState.dropOldestPendingJoins joinState maxRemove).2 :=
    fun joinState maxRemove => JoinState.dropLoop_completed _ joinState
  apply QueueChange.of_shrinks rfl rfl
  · cases hjoined : state.joined with
    | false =>
        rw [handleTokenUnicast_not_joined hjoined]
        exact .refl _
    | true =>
        obtain ⟨joinState, hshrinks, heq, _⟩ := handleTokenUnicast_joined hjoined token
        rw [heq]
        exact hshrinks
  · unfold handleTokenUnicast updateTopologyOnToken clearPendingJoinsOnToken
    simp only
    split
    · split
      · exact .refl _
      · simp only [if_true]
        split
        · exact hdrop _ _
        · exact (hdrop _ _).trans (hdrop _ _)
    · exact .refl _

theorem handleJoinAckU_queue (requestId : UInt32) (fromName : NodeName) (now : Int)
    (ok : Nat → Bool) :
    QueueChange (.unicastMessage (.joinAck requestId fromName) now ok) state
      (handleJoinAckU state requestId fromName ok).1.joinState := by
  obtain ⟨after, out, heq, hcase⟩ := handleJoinAckU_cases state requestId fromName ok
  rw [heq]
  rcases hcase with ⟨rfl, _, hmatch⟩ | ⟨hactive, hid, htry⟩
  · apply QueueChange.same rfl
    have hother : after.inflightIs requestId = false := by
      simpa [RingState.inflightIs] using hmatch
    simp [Event.completes, hother]
  · have hnames : (Event.unicastMessage (.joinAck requestId fromName) now ok).completes state =
        (recordConfirm state fromName).completing := by
      simp [Event.completes, RingState.inflightIs, hactive, hid]
    obtain ⟨hshrinks, hcompletes⟩ := joinFsmTryComplete_queue (recordConfirm state fromName)
    rw [htry] at hshrinks hcompletes
    exact .recorded rfl hshrinks (hnames ▸ hcompletes)

theorem handleJoinRequest_queue (request : JoinRequest) (ip : UInt32) (now : Int) :
    QueueChange (.broadcastMessage (.joinRequest request) ip now) state
      (handleJoinRequest state request ip now).joinState := by
  rcases handleJoinRequest_cases state request ip now with
    hsame | ⟨joinState, _, _, hnew, hadd, htaken⟩
  · rw [hsame]
    exact .same rfl rfl
  · rw [htaken]
    exact .enqueued request ip now hnew hadd

/-- A version that is not newer changes nothing. -/
theorem advanceTopology_of_not_newer {topoVersion : UInt32} (state : RingState)
    (h : ¬ topoVersion > state.lastSeenTopoVersion) :
    advanceTopology state topoVersion = state := by
  unfold advanceTopology
  rw [if_neg h]

theorem stopAckSender_joinState (state : RingState) (requestId : UInt32) :
    (stopAckSender state requestId).joinState = state.joinState := by
  unfold stopAckSender
  split <;> rfl

theorem handleJoinCommit_queue (requestId : UInt32) (newName : NodeName)
    (topoVersion ip : UInt32) (now : Int) :
    QueueChange (.broadcastMessage (.joinCommit requestId newName topoVersion) ip now) state
      (handleJoinCommit state requestId newName topoVersion).joinState := by
  by_cases hnewer : topoVersion > state.lastSeenTopoVersion
  · obtain ⟨joinState, sender, hshrinks, hempty, _, hcase⟩ :=
      handleJoinCommit_cases state requestId newName topoVersion
    apply QueueChange.emptied
    · simpa [Event.empties] using hnewer
    · rcases hcase with ⟨_, heq⟩ | ⟨_, _, heq⟩
      · rw [heq]
        exact hempty hnewer
      · rw [heq]
        exact hempty hnewer
  · have hmark := JoinState.completes_mark state.joinState newName requestId
    have hshrinks := JoinState.markCompletedAndPrunePending_shrinks state.joinState newName
      requestId
    have hkeeps : (Event.broadcastMessage (.joinCommit requestId newName topoVersion) ip
        now).empties state = false := by
      simpa [Event.empties] using hnewer
    have hsame := advanceTopology_of_not_newer
      { state with
        joinState := state.joinState.markCompletedAndPrunePending newName requestId } hnewer
    unfold handleJoinCommit
    simp only
    rw [stopAckSender_joinState, hsame]
    unfold completeViaCommit
    by_cases hmatch : state.joinInflight.active = true ∧
        state.joinInflight.requestId = requestId
    · have hjoiner := JoinState.completes_joiner
        (state.joinState.markCompletedAndPrunePending newName requestId)
        state.joinInflight.joiner.nodeName state.joinInflight.joiner.requestId
      have hnames : (Event.broadcastMessage (.joinCommit requestId newName topoVersion) ip
          now).completes state = [newName] ++ [state.joinInflight.joiner.nodeName] := by
        simp [Event.completes, RingState.inflightIs, hmatch]
      simp only [hmatch, and_self, if_true]
      apply QueueChange.recorded hkeeps
      · exact hshrinks.trans (complete_queue_shrinks _ _)
      · rw [hnames]
        exact hmark.trans hjoiner
    · have hnames : (Event.broadcastMessage (.joinCommit requestId newName topoVersion) ip
          now).completes state = [newName] := by
        have hother : state.inflightIs requestId = false := by
          simpa [RingState.inflightIs] using hmatch
        simp [Event.completes, hother]
      simp only [hmatch, if_false]
      exact .recorded hkeeps hshrinks (hnames ▸ hmark)

theorem handleTokenIfReady_queue (now : Int) (ok : Nat → Bool) :
    QueueChange (.handleTokenIfReady now ok) state
      (handleTokenIfReady state now ok).1.joinState := by
  rcases handleTokenIfReady_cases state now ok with hsame |
    ⟨hjoined, htoken, hidle, pending, joinState, hpop, hstart⟩ |
    ⟨hjoined, htoken, hidle, hcount, hforward⟩
  · rw [hsame]
    exact .same rfl rfl
  · have htick : (joinFsmInflightTick
        (joinFsmStartInflight { state with joinState := joinState } pending) now ok).1.joinState =
        joinState := by
      simp [joinFsmInflightTick, joinFsmStartInflight]
    rw [hstart, htick]
    exact .of_shrinks rfl rfl (JoinState.popOldestPendingJoin_shrinks hpop)
      (JoinState.popOldestPendingJoin_completed hpop)
  · obtain ⟨_, _, _, _, _, _, heq⟩ := ringOnToken_cases state ok
    rw [hforward, heq]
    exact .same rfl rfl

/-- Rewrites the result of a call into the state of the change. -/
theorem QueueChange.of_result {event : Event} {result : RingState × List Effect}
    (h : QueueChange event state result.1.joinState) (heq : some result = some (state', out)) :
    QueueChange event state state'.joinState := by
  rw [Option.some.inj heq] at h
  exact h

theorem QueueChange.of_same {event : Event} {joinState : JoinState}
    (hkeeps : event.empties state = false) (hnames : event.completes state = [])
    (hsame : joinState = state.joinState) : QueueChange event state joinState := by
  rw [hsame]
  exact .same hkeeps hnames

theorem joinFsmRequestTick_joinState {now : Int} {sent : Bool}
    (h : joinFsmRequestTick state now sent = some (state', out)) :
    state'.joinState = state.joinState := by
  unfold joinFsmRequestTick at h
  split at h
  · cases h
    rfl
  split at h
  · cases h
    rfl
  split at h
  · cases h
  split at h <;> cases h
  rfl

theorem joinAckSenderTick_joinState (now : Int) (ok : Nat → Bool) :
    (joinAckSenderTick state now ok).1.joinState = state.joinState := by
  rcases joinAckSenderTick_cases state now ok with heq | ⟨_, heq⟩ | ⟨_, _, _, heq⟩
  all_goals rw [heq]

theorem handleJoinAckAckU_joinState (requestId : UInt32) (toName : NodeName) :
    (handleJoinAckAckU state requestId toName).joinState = state.joinState := by
  unfold handleJoinAckAckU
  split
  · rfl
  · split <;> rfl

theorem handleCliIfReady_joinState (record : Token) :
    (handleCliIfReady state record).1.joinState = state.joinState := by
  unfold handleCliIfReady
  split <;> rfl

/-- Every handler call. -/
theorem Event.handle_queue (event : Event) (h : event.handle state = some (state', out)) :
    QueueChange event state state'.joinState := by
  cases event with
  | joinFsmRequestTick now sent => exact .of_same rfl rfl (joinFsmRequestTick_joinState h)
  | joinAckSenderTick now ok =>
      exact QueueChange.of_result (.of_same rfl rfl (joinAckSenderTick_joinState now ok)) h
  | pruneJoins now =>
      cases h
      exact .of_shrinks rfl rfl (JoinState.pruneJoins_shrinks _ _ _)
        (JoinState.pruneJoins_completed _ _ _)
  | joinFsmInflightTick now ok => exact (joinFsmInflightTick_queue now ok).of_result h
  | unicastMessage msg now ok =>
      cases msg with
      | token token =>
          cases h
          exact handleTokenUnicast_queue token now ok
      | joinAccept accept => exact (handleJoinAcceptU_queue accept now ok).of_result h
      | joinAck requestId fromName =>
          exact (handleJoinAckU_queue requestId fromName now ok).of_result h
      | joinAckAck requestId toName =>
          cases h
          exact .of_same rfl rfl (handleJoinAckAckU_joinState requestId toName)
      | malformed =>
          cases h
          exact .of_same rfl rfl rfl
  | joinFsmMaybeComplete morePending =>
      obtain ⟨hshrinks, hcompletes⟩ := joinFsmTryComplete_queue state
      exact QueueChange.of_result (.recorded rfl hshrinks hcompletes) h
  | broadcastMessage msg ip now =>
      cases h
      cases msg with
      | joinRequest request => exact handleJoinRequest_queue request ip now
      | joinCommit requestId newName topoVersion =>
          exact handleJoinCommit_queue requestId newName topoVersion ip now
      | malformed => exact .of_same rfl rfl rfl
  | cliRecord record =>
      exact QueueChange.of_result (.of_same rfl rfl (handleCliIfReady_joinState record)) h
  | handleTokenIfReady now ok => exact (handleTokenIfReady_queue now ok).of_result h
  | selectFailed | unicastFailed | broadcastFailed | cliFailed => cases h
  | selectReady | selectInterrupted | unicastIdle | broadcastIdle | cliIdle =>
      cases h
      exact .of_same rfl rfl rfl

/-- The step keeps completed names out of the queue unless it leaves a copy of
one it records. -/
theorem QueueChange.none_waits {event : Event} {joinState : JoinState}
    (h : QueueChange event state joinState) (hcount : JoinState.CountExact state.joinState)
    (hnone : JoinState.NoneWaitsCompleted state.joinState)
    (hleaves : ¬ LeavesWaiting state event) : JoinState.NoneWaitsCompleted joinState := by
  cases h with
  | enqueued request ip now hnew hadd =>
      exact JoinState.addPendingJoin_none_waits hnone hnew hadd
  | recorded hkeeps hshrinks hcompletes =>
      apply hcompletes.none_waits hnone hshrinks
      intro name hmem
      by_contra hmore
      exact hleaves ⟨hkeeps, name, hmem, Nat.lt_of_not_le hmore⟩
  | emptied hempties hempty =>
      intro i pending hslot
      rw [hempty hcount i] at hslot
      cases hslot

end Changes

theorem Node.next_none_waits {node node' : Node} {event : Event}
    (hcount : JoinState.CountExact node.state.joinState)
    (hnone : JoinState.NoneWaitsCompleted node.state.joinState)
    (hleaves : ¬ LeavesWaiting node.state event) (hstep : node.next event = some node') :
    JoinState.CountExact node'.state.joinState ∧
      JoinState.NoneWaitsCompleted node'.state.joinState := by
  obtain ⟨⟨after, out⟩, hresult, rfl⟩ := Option.map_eq_some_iff.mp hstep
  rcases Node.step_cases hresult with hhandle | ⟨_, hsame, _⟩
  · constructor
    · exact (event.handle_transition hhandle).countExact hcount
    · exact (event.handle_queue hhandle).none_waits hcount hnone hleaves
  · simp only [hsame]
    exact ⟨hcount, hnone⟩

/-- In a run in which no recording leaves a copy of its name in the queue, no
node recorded as joined is left waiting. -/
theorem completed_never_waits {config : RouteConfig} {joined shouldStart : Bool}
    {requestId : UInt32} {node : Node}
    (h : Lts.Reaches Node.next (fun node event => ¬ LeavesWaiting node.state event)
      (Node.start config joined shouldStart requestId) node) :
    JoinState.NoneWaitsCompleted node.state.joinState := by
  have hstart : JoinState.CountExact
        (Node.start config joined shouldStart requestId).state.joinState ∧
      JoinState.NoneWaitsCompleted
        (Node.start config joined shouldStart requestId).state.joinState := by
    obtain ⟨tokenIn, _, hstate⟩ := Node.start_state config joined shouldStart requestId
    rw [hstate]
    constructor
    · exact JoinState.countExact_zero
    · intro i pending hslot
      cases hslot
  have hinv := h.invariant (fun node => JoinState.CountExact node.state.joinState ∧
    JoinState.NoneWaitsCompleted node.state.joinState) hstart
  exact (hinv fun node event node' hold hleaves hstep =>
    Node.next_none_waits hold.1 hold.2 hleaves hstep).2

/-- Two nodes: `A` and its neighbour `C` on both sides. -/
def neighbours : RouteConfig :=
  ⟨⟨NodeName.ofBytes [65], 5001⟩, ⟨NodeName.ofBytes [67], 5003⟩, ⟨NodeName.ofBytes [67], 5003⟩⟩

/-- A pass of the loop of a node without the token, with at most one unicast
and one broadcast message. -/
def quietPass (now : Int) (unicast : Option UnicastMsg) (broadcast : Option BroadcastMsg) :
    List Event :=
  [.joinAckSenderTick now (fun _ => true), .pruneJoins now, .joinFsmRequestTick now true,
    .joinFsmInflightTick now (fun _ => true), .selectReady] ++
  (match unicast with
    | some msg => [.unicastMessage msg now (fun _ => true), .joinFsmMaybeComplete false]
    | none => [.unicastIdle]) ++
  [.joinFsmMaybeComplete false,
    (match broadcast with
      | some msg => .broadcastMessage msg 0 now
      | none => .broadcastIdle),
    .cliIdle, .handleTokenIfReady now (fun _ => true)]

/-- `C` joins `B` between `A` and itself. -/
def acceptB : JoinAccept :=
  ⟨2, NodeName.ofBytes [66], 5002, NodeName.ofBytes [67], 5003, NodeName.ofBytes [65], 5001⟩

/-- `B` waits once, and is recorded and taken out. -/
theorem neighbour_recorded_and_removed : ∃ node : Node,
    node.state.joinState.isCompleted (NodeName.ofBytes [66]) = true ∧
      JoinState.NoneWaitsCompleted node.state.joinState := by
  have hrun : (Lts.exec (Lts.restrict
        (fun node event => decide (¬ LeavesWaiting node.state event)) Node.next)
      (Node.start neighbours true false 0)
      (quietPass 10 none (some (.joinRequest ⟨2, NodeName.ofBytes [66], 5002⟩)) ++
        quietPass 11 (some (.joinAccept acceptB)) none)).map
      (fun node => node.state.joinState.isCompleted (NodeName.ofBytes [66])) = some true := by
    decide +kernel
  obtain ⟨node, hexec, hcompleted⟩ := Option.map_eq_some_iff.mp hrun
  refine ⟨node, hcompleted, completed_never_waits (Lts.reaches_of_exec_restrict ?_ hexec)⟩
  intro node event hgood
  exact of_decide_eq_true hgood

/-- The request of `D` is pruned out of the first slot, and `B`, which waits in
the second one, asks again; then `A` learns that `B` joins. -/
def recordedBehindHole : List Event :=
  quietPass 10 none (some (.joinRequest ⟨1, NodeName.ofBytes [68], 5004⟩)) ++
    quietPass 150 none (some (.joinRequest ⟨2, NodeName.ofBytes [66], 5002⟩)) ++
    quietPass 250 none (some (.joinRequest ⟨2, NodeName.ofBytes [66], 5002⟩)) ++
    quietPass 251 (some (.joinAccept acceptB)) none

theorem completed_left_waiting :
    ∃ node, Lts.Reachable Node.next (Node.start neighbours true false 0) node ∧
      ¬ JoinState.NoneWaitsCompleted node.state.joinState := by
  have hrun : (Lts.exec Node.next (Node.start neighbours true false 0) recordedBehindHole).map
      (fun node => (node.state.joinState.isCompleted (NodeName.ofBytes [66]),
        node.state.joinState.joins 1)) =
        some (true, some ⟨2, NodeName.ofBytes [66], 5002, 0, 150⟩) := by
    decide +kernel
  obtain ⟨node, hexec, hfacts⟩ := Option.map_eq_some_iff.mp hrun
  simp only [Prod.mk.injEq] at hfacts
  refine ⟨node, Lts.reachable_of_exec hexec, fun hnone => ?_⟩
  have hmissing := hnone 1 _ hfacts.2
  rw [hfacts.1] at hmissing
  cases hmissing

end TokenRing
