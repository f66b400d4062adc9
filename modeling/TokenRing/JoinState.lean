import TokenRing.Lib.SlotTable
import TokenRing.Types

/-!
`join.c`: the queue of nodes that wait to join and the list of nodes known to
have joined. A slot whose `used` flag is clear is an empty slot, since no
function reads its other fields.
-/

namespace TokenRing

/-- A `join_state_t`. `count` and `completedCount` are the `size_t` counters
kept beside the two arrays. -/
structure JoinState where
  joins : SlotTable 32 PendingJoin
  count : UInt64
  completed : Fin 32 → CompletedJoin
  completedCount : UInt64

def JoinState.zero : JoinState :=
  ⟨SlotTable.empty, 0, fun _ => ⟨0, NodeName.ofBytes []⟩, 0⟩

namespace JoinState

/-- `strncmp(joins[i].node_name, name) == 0` for a used slot. -/
def waitsIn (name : NodeName) (content : Option PendingJoin) : Bool :=
  match content with
  | some pending => pending.nodeName = name
  | none => false

/-- The entry written for a request; the refresh of a waiting entry and the
filling of a free slot write the same five fields. -/
def entryOf (request : JoinRequest) (ip : UInt32) (now : Int) : PendingJoin :=
  ⟨request.requestId, request.nodeName, request.unicastPort, ip, now⟩

/-- `add_pending_join`: one upward pass that stops at the first slot that is
free or already waits under the name. `none` is the return value -1. -/
def addPendingJoin (state : JoinState) (request : JoinRequest) (ip : UInt32)
    (now : Int) : Option JoinState :=
  if state.count ≥ 32 then
    none
  else
    match state.joins.firstSlot
        (fun content => waitsIn request.nodeName content || content.isNone) with
    | none => none
    | some i =>
        if waitsIn request.nodeName (state.joins i) then
          some { state with joins := state.joins.set i (some (entryOf request ip now)) }
        else
          some { state with
            joins := state.joins.set i (some (entryOf request ip now))
            count := state.count + 1 }

/-- `remove_pending_join`: frees the first slot that waits under the name. -/
def removePendingJoin (state : JoinState) (name : NodeName) : JoinState :=
  match state.joins.firstSlot (waitsIn name) with
  | none => state
  | some i => { state with joins := state.joins.set i none, count := state.count - 1 }

/-- `pop_oldest_pending_join`: `none` is the return value -1. -/
def popOldestPendingJoin (state : JoinState) : Option (PendingJoin × JoinState) :=
  match SlotTable.leastSlot PendingJoin.lastSeen state.joins with
  | none => none
  | some (i, _) =>
      match state.joins i with
      | none => none
      | some pending =>
          some (pending,
            { state with joins := state.joins.set i none, count := state.count - 1 })

/-- The loop of `drop_oldest_pending_joins`, with the number of removals still
allowed. -/
def dropLoop : Nat → JoinState → Nat × JoinState
  | 0, state => (0, state)
  | left + 1, state =>
      match state.popOldestPendingJoin with
      | none => (0, state)
      | some (_, state') =>
          let (removed, final) := dropLoop left state'
          (removed + 1, final)

/-- `drop_oldest_pending_joins`: the number removed and the state left. -/
def dropOldestPendingJoins (state : JoinState) (maxRemove : UInt64) : Nat × JoinState :=
  dropLoop maxRemove.toNat state

/-- The indices below `completed_count`. -/
def completedIndices (state : JoinState) : List (Fin 32) :=
  (List.finRange 32).filter (fun i => i.val < state.completedCount.toNat)

/-- `join_state_is_completed`. -/
def isCompleted (state : JoinState) (name : NodeName) : Bool :=
  state.completedIndices.any (fun i => (state.completed i).nodeName = name)

/-- The overlapping shift `completed[i - 1] = completed[i]` for `i` from 1. -/
def shiftCompleted (completed : Fin 32 → CompletedJoin) (i : Fin 32) : CompletedJoin :=
  if h : i.val + 1 < 32 then completed ⟨i.val + 1, h⟩ else completed i

/-- `join_state_record_completed`. -/
def recordCompleted (state : JoinState) (name : NodeName) (requestId : UInt32) :
    JoinState :=
  match state.completedIndices.find? (fun i => (state.completed i).nodeName = name) with
  | some i =>
      { state with completed := Function.update state.completed i ⟨requestId, name⟩ }
  | none =>
      if h : state.completedCount.toNat < 32 then
        { state with
          completed := Function.update state.completed ⟨state.completedCount.toNat, h⟩
            ⟨requestId, name⟩
          completedCount := state.completedCount + 1 }
      else
        { state with
          completed := Function.update (shiftCompleted state.completed) 31
            ⟨requestId, name⟩ }

/-- One pass of the loop of `prune_joins`. -/
def pruneStep (now ttl : Int) (state : JoinState) (i : Fin 32) : JoinState :=
  match state.joins i with
  | none => state
  | some pending =>
      if now - pending.lastSeen > ttl then
        { state with joins := state.joins.set i none, count := state.count - 1 }
      else
        state

/-- `prune_joins`. -/
def pruneJoins (state : JoinState) (now ttl : Int) : JoinState :=
  (List.finRange 32).foldl (pruneStep now ttl) state

/-- `join_state_mark_completed_and_prune_pending`. -/
def markCompletedAndPrunePending (state : JoinState) (name : NodeName)
    (requestId : UInt32) : JoinState :=
  (state.recordCompleted name requestId).removePendingJoin name

end JoinState

end TokenRing
