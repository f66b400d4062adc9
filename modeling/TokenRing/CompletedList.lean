import TokenRing.CompletedQueue
import TokenRing.Lib.FifoSet

/-!
The list of the nodes known to have joined, over any sequence of calls: the
array with its counter is a bounded first-in-first-out set of names, each with
the request id recorded last.
-/

namespace TokenRing.JoinState

/-- `completed[0..completed_count)`. -/
def completedList (state : JoinState) : List CompletedJoin :=
  state.completedIndices.map state.completed

/-- What a call records as completed, if it does. -/
def JoinOp.recording : JoinOp → Option CompletedJoin
  | .queue (.markCompletedAndPrunePending name requestId) => some ⟨requestId, name⟩
  | .recordCompleted name requestId => some ⟨requestId, name⟩
  | _ => none

/-- How many of the calls record a name that is absent when it is recorded. -/
def newlyCompleted : JoinState → List JoinOp → Nat
  | _, [] => 0
  | state, op :: rest =>
      (match op.recording with
        | some entry => if state.isCompleted entry.nodeName then 0 else 1
        | none => 0) + newlyCompleted (applyJoinOp state op) rest

section List

variable {state : JoinState} {name : NodeName} {requestId : UInt32}

theorem completedIndices_eq (state : JoinState) :
    state.completedIndices = (List.finRange 32).take state.completedCount.toNat := by
  unfold completedIndices
  rw [← List.take_append_drop state.completedCount.toNat (List.finRange 32), List.filter_append]
  rw [List.take_append_drop]
  have hfront : ((List.finRange 32).take state.completedCount.toNat).filter
      (fun i => i.val < state.completedCount.toNat) =
        (List.finRange 32).take state.completedCount.toNat := by
    apply List.filter_eq_self.mpr
    intro i hi
    obtain ⟨k, hk, rfl⟩ := List.mem_take_iff_getElem.mp hi
    simp at hk ⊢
    omega
  have hback : ((List.finRange 32).drop state.completedCount.toNat).filter
      (fun i => i.val < state.completedCount.toNat) = [] := by
    apply List.filter_eq_nil_iff.mpr
    intro i hi
    obtain ⟨k, hk, rfl⟩ := List.mem_drop_iff_getElem.mp hi
    simp
  rw [hfront, hback, List.append_nil]

theorem completedList_length (hbound : state.completedCount.toNat ≤ 32) :
    state.completedList.length = state.completedCount.toNat := by
  simp [completedList, completedIndices_eq, hbound]

theorem completedList_getElem (state : JoinState) (i : Nat) (hi : i < state.completedList.length)
    (hlt : i < 32) : state.completedList[i] = state.completed ⟨i, hlt⟩ := by
  simp [completedList, completedIndices_eq]

theorem isCompleted_eq (state : JoinState) (name : NodeName) :
    state.isCompleted name = true ↔ name ∈ state.completedList.map CompletedJoin.nodeName := by
  simp [isCompleted, completedList]

theorem completedList_congr {before after : JoinState} (h : SameCompleted before after) :
    after.completedList = before.completedList := by
  unfold completedList completedIndices
  rw [h.1, h.2]

/-- The list is known from its entries below the counter. -/
theorem completedList_ext {entries : List CompletedJoin}
    (hbound : state.completedCount.toNat ≤ 32)
    (hlength : entries.length = state.completedCount.toNat)
    (hentries : ∀ (i : Fin 32) (hi : i.val < entries.length),
      state.completed i = entries[i.val]) : state.completedList = entries := by
  have hsame := completedList_length hbound
  apply List.ext_getElem (by omega)
  intro k hk hk'
  have hlt : k < 32 := by omega
  rw [completedList_getElem state k hk hlt]
  exact hentries ⟨k, hlt⟩ hk'

/-- A name stands at one place of a list without repetitions. -/
theorem completed_unique (hnodup : (state.completedList.map CompletedJoin.nodeName).Nodup)
    (hbound : state.completedCount.toNat ≤ 32) {i j : Fin 32}
    (hi : i.val < state.completedCount.toNat) (hj : j.val < state.completedCount.toNat)
    (hname : (state.completed i).nodeName = (state.completed j).nodeName) : i = j := by
  have hlength := completedList_length hbound
  have hi' : i.val < (state.completedList.map CompletedJoin.nodeName).length := by
    simpa [hlength] using hi
  have hj' : j.val < (state.completedList.map CompletedJoin.nodeName).length := by
    simpa [hlength] using hj
  have hsame : (state.completedList.map CompletedJoin.nodeName)[i.val] =
      (state.completedList.map CompletedJoin.nodeName)[j.val] := by
    simpa [completedList_getElem] using hname
  exact Fin.ext (hnodup.getElem_inj_iff.mp hsame)

/-- The search of `join_state_record_completed` finds a name of the list. -/
theorem find_completed (state : JoinState) (name : NodeName) :
    (state.completedIndices.find? (fun i => (state.completed i).nodeName = name)).isSome = true ↔
      name ∈ state.completedList.map CompletedJoin.nodeName := by
  rw [← isCompleted_eq, isCompleted, List.find?_isSome, List.any_eq_true]

/-- An entry is written over the one with its name. -/
theorem overwrite_completedList (hbound : state.completedCount.toNat ≤ 32)
    (hnodup : (state.completedList.map CompletedJoin.nodeName).Nodup) {i : Fin 32}
    (hi : i.val < state.completedCount.toNat) (hname : (state.completed i).nodeName = name)
    (entry : CompletedJoin) :
    completedList { state with completed := Function.update state.completed i entry } =
      state.completedList.map (fun old => if old.nodeName = name then entry else old) := by
  have hlength := completedList_length hbound
  apply completedList_ext
  · exact hbound
  · simpa using hlength
  intro j hj
  rw [List.length_map] at hj
  rw [List.getElem_map, completedList_getElem state j.val hj j.isLt]
  by_cases hji : j = i
  · subst hji
    simp [hname]
  · have hother : (state.completed j).nodeName ≠ name := by
      intro hsame
      exact hji (completed_unique hnodup hbound (hlength ▸ hj) hi (hsame.trans hname.symm))
    simp [Function.update_of_ne hji, hother]

/-- An entry is written behind the others. -/
theorem append_completedList (hroom : state.completedCount.toNat < 32) (entry : CompletedJoin) :
    completedList { state with
      completed := Function.update state.completed ⟨state.completedCount.toNat, hroom⟩ entry
      completedCount := state.completedCount + 1 } = state.completedList ++ [entry] := by
  have hlength := completedList_length hroom.le
  have hcount : (state.completedCount + 1).toNat = state.completedCount.toNat + 1 := by
    have hone : (1 : UInt64).toNat = 1 := rfl
    rw [UInt64.toNat_add]
    omega
  apply completedList_ext
  · simp only [hcount]
    omega
  · simp [hcount, hlength]
  intro j hj
  rw [List.getElem_append]
  split
  · rename_i hold
    have hother : j ≠ ⟨state.completedCount.toNat, hroom⟩ := by
      rintro rfl
      simp [hlength] at hold
    simp only [Function.update_of_ne hother]
    rw [completedList_getElem state j.val hold j.isLt]
  · rename_i hnew
    have hlast : j = ⟨state.completedCount.toNat, hroom⟩ := by
      apply Fin.ext
      simp at hj ⊢
      omega
    subst hlast
    simp

/-- The entries move down by one and the last place is written. -/
theorem shift_completedList (hfull : state.completedCount.toNat = 32) (entry : CompletedJoin) :
    completedList { state with
      completed := Function.update (shiftCompleted state.completed) 31 entry } =
      (state.completedList ++ [entry]).tail := by
  have hlength := completedList_length hfull.le
  apply completedList_ext
  · exact hfull.le
  · simp [hlength]
  intro j hj
  rw [List.getElem_tail, List.getElem_append]
  split
  · rename_i hold
    have hmore : j.val + 1 < 32 := by omega
    have hother : j ≠ 31 := by
      rintro rfl
      simp at hmore
    simp only [Function.update_of_ne hother, shiftCompleted, hmore, dite_true]
    rw [completedList_getElem state (j.val + 1) hold hmore]
  · rename_i hnew
    have hlast : j = 31 := by
      apply Fin.ext
      have hval : (31 : Fin 32).val = 31 := rfl
      omega
    subst hlast
    simp

/-- `join_state_record_completed` is the recording of the bounded set. -/
theorem recordCompleted_completedList (hbound : state.completedCount.toNat ≤ 32)
    (hnodup : (state.completedList.map CompletedJoin.nodeName).Nodup) :
    (state.recordCompleted name requestId).completedList =
      FifoSet.record 32 CompletedJoin.nodeName state.completedList ⟨requestId, name⟩ := by
  have hlength := completedList_length hbound
  have hsearch := find_completed state name
  unfold recordCompleted FifoSet.record
  split
  · rename_i i hfind
    have hname : (state.completed i).nodeName = name := by simpa using List.find?_some hfind
    have hi : i.val < state.completedCount.toNat := by
      have hmem := List.mem_of_find?_eq_some hfind
      simpa [completedIndices] using hmem
    rw [if_pos (hsearch.mp (by simp [hfind]))]
    exact overwrite_completedList hbound hnodup hi hname _
  · rename_i hfind
    have habsent : name ∉ state.completedList.map CompletedJoin.nodeName := by
      intro hmem
      have hfound := hsearch.mpr hmem
      simp [hfind] at hfound
    rw [if_neg habsent]
    split
    · rename_i hroom
      rw [if_neg (by omega)]
      exact append_completedList hroom _
    · rename_i hfull
      rw [if_pos (by omega)]
      exact shift_completedList (by omega) _

end List

section Calls

variable {state : JoinState}

theorem markCompletedAndPrunePending_completed (state : JoinState) (name : NodeName)
    (requestId : UInt32) : SameCompleted (state.recordCompleted name requestId)
      (state.markCompletedAndPrunePending name requestId) :=
  removePendingJoin_completed _ name

/-- A call records what it records and leaves the list alone otherwise. -/
theorem applyJoinOp_completedList (hbound : state.completedCount.toNat ≤ 32)
    (hnodup : (state.completedList.map CompletedJoin.nodeName).Nodup) (op : JoinOp) :
    (applyJoinOp state op).completedList =
      op.recording.elim state.completedList
        (FifoSet.record 32 CompletedJoin.nodeName state.completedList) := by
  cases op with
  | queue op =>
      cases op with
      | addPendingJoin request ip now =>
          simp only [applyJoinOp, applyOp, JoinOp.recording]
          cases hadd : state.addPendingJoin request ip now with
          | none => rfl
          | some state' => exact completedList_congr (addPendingJoin_completed hadd)
      | removePendingJoin name =>
          exact completedList_congr (removePendingJoin_completed state name)
      | popOldestPendingJoin =>
          simp only [applyJoinOp, applyOp, JoinOp.recording]
          cases hpop : state.popOldestPendingJoin with
          | none => rfl
          | some popped => exact completedList_congr (popOldestPendingJoin_completed hpop)
      | dropOldestPendingJoins maxRemove =>
          exact completedList_congr (dropLoop_completed _ state)
      | pruneJoins now ttl => exact completedList_congr (pruneJoins_completed state now ttl)
      | markCompletedAndPrunePending name requestId =>
          simp only [applyJoinOp, applyOp, JoinOp.recording]
          rw [completedList_congr (markCompletedAndPrunePending_completed state name requestId)]
          exact recordCompleted_completedList hbound hnodup
  | recordCompleted name requestId => exact recordCompleted_completedList hbound hnodup

/-- What every state reached by calls keeps about the list. -/
structure ListKept (state : JoinState) : Prop where
  bound : state.completedCount.toNat ≤ 32
  nodup : (state.completedList.map CompletedJoin.nodeName).Nodup

theorem completedList_zero : zero.completedList = [] := by
  apply List.eq_nil_of_length_eq_zero
  rw [completedList_length (Nat.zero_le _)]
  rfl

theorem listKept_zero : ListKept zero := by
  constructor
  · exact Nat.zero_le _
  · simp [completedList_zero]

theorem ListKept.names (h : ListKept state) (op : JoinOp) :
    (applyJoinOp state op).completedList.map CompletedJoin.nodeName =
      op.recording.elim (state.completedList.map CompletedJoin.nodeName)
        (fun entry => FifoSet.insert 32 (state.completedList.map CompletedJoin.nodeName)
          entry.nodeName) := by
  rw [applyJoinOp_completedList h.bound h.nodup op]
  cases op.recording with
  | none => rfl
  | some entry => exact FifoSet.map_record _ entry

theorem ListKept.apply (h : ListKept state) (op : JoinOp) : ListKept (applyJoinOp state op) := by
  constructor
  · exact applyJoinOp_bound h.bound op
  · rw [h.names op]
    cases op.recording with
    | none => exact h.nodup
    | some entry => exact FifoSet.insert_nodup h.nodup

/-- The whole run on the reference list. -/
theorem ListKept.foldl (ops : List JoinOp) (h : ListKept state) :
    ListKept (ops.foldl applyJoinOp state) ∧
      (ops.foldl applyJoinOp state).completedList =
        (ops.filterMap JoinOp.recording).foldl (FifoSet.record 32 CompletedJoin.nodeName)
          state.completedList := by
  induction ops generalizing state with
  | nil => exact ⟨h, rfl⟩
  | cons op rest ih =>
      obtain ⟨hkept, hlist⟩ := ih (h.apply op)
      refine ⟨hkept, ?_⟩
      rw [List.foldl_cons, hlist, applyJoinOp_completedList h.bound h.nodup op]
      cases hrecording : op.recording with
      | none => simp [hrecording]
      | some entry => simp [hrecording]

/-- The names recorded while absent are the misses of the set of names. -/
theorem ListKept.misses (ops : List JoinOp) (h : ListKept state) :
    newlyCompleted state ops =
        FifoSet.misses 32 (state.completedList.map CompletedJoin.nodeName)
          ((ops.filterMap JoinOp.recording).map CompletedJoin.nodeName) ∧
      (ops.foldl applyJoinOp state).completedList.map CompletedJoin.nodeName =
        ((ops.filterMap JoinOp.recording).map CompletedJoin.nodeName).foldl (FifoSet.insert 32)
          (state.completedList.map CompletedJoin.nodeName) := by
  induction ops generalizing state with
  | nil => exact ⟨rfl, rfl⟩
  | cons op rest ih =>
      obtain ⟨hcount, hnames⟩ := ih (h.apply op)
      have hstep := h.names op
      cases hrecording : op.recording with
      | none =>
          simp only [hrecording, Option.elim_none] at hstep
          simp only [newlyCompleted, hrecording, List.filterMap_cons_none hrecording,
            List.foldl_cons, hcount, hnames, hstep]
          exact ⟨Nat.zero_add _, trivial⟩
      | some entry =>
          simp only [hrecording, Option.elim_some] at hstep
          have hknown := isCompleted_eq state entry.nodeName
          simp only [newlyCompleted, hrecording, List.filterMap_cons_some hrecording,
            List.map_cons, List.foldl_cons, FifoSet.misses, hcount, hnames, hstep, hknown]
          exact ⟨trivial, trivial⟩

end Calls

section Histories

theorem listKept_afterJoinOps (ops : List JoinOp) : ListKept (afterJoinOps ops) :=
  (listKept_zero.foldl ops).1

/-- A recorded name is in the list right after the call. -/
theorem ListKept.recorded {state : JoinState} {op : JoinOp} {entry : CompletedJoin}
    (h : ListKept state) (hrecording : op.recording = some entry) :
    (applyJoinOp state op).isCompleted entry.nodeName = true := by
  rw [isCompleted_eq, h.names op, hrecording]
  exact FifoSet.mem_insert_self (by decide)

/-- An absent name that is recorded stays until 32 further ones have been. -/
theorem ListKept.evicted {state : JoinState} {op : JoinOp} {entry : CompletedJoin}
    (h : ListKept state) (hrecording : op.recording = some entry)
    (habsent : state.isCompleted entry.nodeName = false) (more : List JoinOp)
    (hmore : newlyCompleted (applyJoinOp state op) more ≤ 32) :
    (more.foldl applyJoinOp (applyJoinOp state op)).isCompleted entry.nodeName = true ↔
      newlyCompleted (applyJoinOp state op) more < 32 := by
  have hnew : entry.nodeName ∉ state.completedList.map CompletedJoin.nodeName := by
    intro hmem
    rw [(isCompleted_eq state _).mpr hmem] at habsent
    cases habsent
  have hlength : (state.completedList.map CompletedJoin.nodeName).length ≤ 32 := by
    rw [List.length_map, completedList_length h.bound]
    exact h.bound
  obtain ⟨hcount, hnames⟩ := (h.apply op).misses more
  have hstep := h.names op
  simp only [hrecording, Option.elim_some] at hstep
  rw [isCompleted_eq, hnames]
  rw [hcount] at hmore ⊢
  rw [hstep] at hmore ⊢
  exact FifoSet.mem_foldl_iff _ (by decide) h.nodup hlength hnew hmore

/-- After any sequence of calls the list is what the recordings alone make of
it: names are distinct, a recorded name is found, and one that was new leaves
with the 32nd further new one. -/
theorem completed_list_is_bounded_fifo_set (ops : List JoinOp) :
    (afterJoinOps ops).completedList =
        (ops.filterMap JoinOp.recording).foldl (FifoSet.record 32 CompletedJoin.nodeName) [] ∧
      ((afterJoinOps ops).completedList.map CompletedJoin.nodeName).Nodup ∧
      ∀ op entry, JoinOp.recording op = some entry →
        (afterJoinOps (ops ++ [op])).isCompleted entry.nodeName = true ∧
        ((afterJoinOps ops).isCompleted entry.nodeName = false →
          ∀ more, newlyCompleted (afterJoinOps (ops ++ [op])) more ≤ 32 →
            ((afterJoinOps (ops ++ op :: more)).isCompleted entry.nodeName = true ↔
              newlyCompleted (afterJoinOps (ops ++ [op])) more < 32)) := by
  have hkept := listKept_afterJoinOps ops
  have hlist := (listKept_zero.foldl ops).2
  rw [completedList_zero] at hlist
  refine ⟨hlist, hkept.nodup, ?_⟩
  intro op entry hrecording
  have hsnoc : afterJoinOps (ops ++ [op]) = applyJoinOp (afterJoinOps ops) op := by
    simp [afterJoinOps]
  constructor
  · rw [hsnoc]
    exact hkept.recorded hrecording
  · intro habsent more hmore
    rw [hsnoc] at hmore ⊢
    have hafter : afterJoinOps (ops ++ op :: more) =
        more.foldl applyJoinOp (applyJoinOp (afterJoinOps ops) op) := by
      simp [afterJoinOps]
    rw [hafter]
    exact hkept.evicted hrecording habsent more hmore

end Histories

end TokenRing.JoinState
