import TokenRing.Lib.SlotList
import TokenRing.Types

/-!
`rudp.h` and the two static tables of `rudp.c`: the buffer of pending frames
and the table of peers. A datagram shorter than a header carries nothing that
is read, and the padding of a header is left out.
-/

namespace TokenRing

def maxFrameSize : Nat := 65535
def headerSize : Nat := 8
def maxTransmisionAttempts : Nat := 3

/-- The fields of a `struct sockaddr_in` that `addr_equal` compares. -/
structure SockAddr where
  family : UInt16
  port : UInt16
  addr : UInt32
deriving DecidableEq

/-- A `frame_type_t` as it is read from a datagram: one of the three
enumerators, or a value that is none of them. -/
inductive FrameType where
  | message
  | ack
  | ackAck
  | other (code : {code : UInt32 // 2 < code})
deriving DecidableEq

/-- A datagram that is at least a header long. -/
structure Frame where
  frameType : FrameType
  seqBit : UInt8
  data : Bytes
deriving DecidableEq

def Frame.len (frame : Frame) : Nat := headerSize + frame.data.length

inductive Datagram where
  | short
  | frame (frame : Frame)
deriving DecidableEq

/-- A used `rudp_pending_frame_t`. -/
structure PendingFrame where
  addr : SockAddr
  frame : Frame
deriving DecidableEq

def PendingFrame.isMessage (pending : PendingFrame) : Bool :=
  pending.frame.frameType = .message

/-- `pending_frames`. -/
abbrev PendingFrames := SlotTable 256 PendingFrame

namespace PendingFrames

/-- `pending_take_frame`: `none` is the return value 0. The copy of the frame
that the source makes is not used by its callers. -/
def takeFrame (pending : PendingFrames) (expectedAddr : SockAddr) (expectedType : FrameType)
    (expectedSeq : UInt8) : Option PendingFrames :=
  (pending.firstSlot (fun content => content.any (fun entry =>
      entry.frame.frameType = expectedType && entry.frame.seqBit = expectedSeq &&
        entry.addr = expectedAddr))).map (fun i => pending.set i none)

/-- `pending_take_message_any`. -/
def takeMessageAny (pending : PendingFrames) : Option (PendingFrame × PendingFrames) :=
  match pending.firstSlot (fun content => content.any PendingFrame.isMessage) with
  | none => none
  | some i => (pending i).map (fun entry => (entry, pending.set i none))

/-- The slot that `pending_store_frame` writes: for a control frame the first
one with the same source, type and bit, if there is one, else the first free
one. -/
def storeSlot (pending : PendingFrames) (addr : SockAddr) (frame : Frame) : Option (Fin 256) :=
  let same :=
    if frame.frameType = .message then none
    else pending.firstSlot (fun content => content.any (fun entry =>
      entry.addr = addr && entry.frame.frameType = frame.frameType &&
        entry.frame.seqBit = frame.seqBit))
  match same with
  | some i => some i
  | none => pending.firstSlot Option.isNone

/-- `pending_store_frame`: `none` is the return value 0. -/
def storeFrame (pending : PendingFrames) (addr : SockAddr) (frame : Frame) :
    Option PendingFrames :=
  if frame.len > maxFrameSize then
    none
  else
    (pending.storeSlot addr frame).map (fun i => pending.set i (some ⟨addr, frame⟩))

/-- `pending_drop_peer_frames`. -/
def dropPeerFrames (pending : PendingFrames) (addr : SockAddr) (frameType : FrameType) :
    PendingFrames := fun i =>
  (pending i).filter (fun entry => !(entry.addr = addr && entry.frame.frameType = frameType))

/-- The slots with messages; control frames come and go without touching
them. -/
def messages (pending : PendingFrames) : PendingFrames := fun i =>
  (pending i).filter PendingFrame.isMessage

end PendingFrames

/-- A `rudp_state_t`. -/
structure RudpState where
  sendSeqBit : UInt8
  expectedSeqBit : UInt8
deriving DecidableEq

/-- A used `rudp_peer_t`. -/
structure RudpPeer where
  addr : SockAddr
  state : RudpState
deriving DecidableEq

/-- `peers`. -/
abbrev Peers := SlotTable 32 RudpPeer

namespace Peers

/-- The slot in which `get_peer` finds an address. -/
def slotOf (peers : Peers) (addr : SockAddr) : Option (Fin 32) :=
  peers.firstSlot (fun content => content.any (fun peer => peer.addr = addr))

/-- `get_peer`: the slot it points to, and the table with a new entry when it
made one. `none` is the return value `NULL`. -/
def getPeer (peers : Peers) (addr : SockAddr) (create : Bool) : Option (Fin 32 × Peers) :=
  match peers.slotOf addr with
  | some i => some (i, peers)
  | none =>
      if !create then
        none
      else
        (peers.firstSlot Option.isNone).map (fun i =>
          (i, peers.set i (some ⟨addr, ⟨0, 0⟩⟩)))

/-- `peer->state` for a pointer that `get_peer` returned. -/
def stateAt (peers : Peers) (i : Fin 32) : RudpState :=
  match peers i with
  | some peer => peer.state
  | none => ⟨0, 0⟩

/-- `peer->state.send_seq_bit ^= 1`. -/
def flipSend (peers : Peers) (i : Fin 32) : Peers :=
  peers.set i ((peers i).map (fun peer =>
    { peer with state := { peer.state with sendSeqBit := peer.state.sendSeqBit ^^^ 1 } }))

/-- `peer->state.expected_seq_bit ^= 1`. -/
def flipExpected (peers : Peers) (i : Fin 32) : Peers :=
  peers.set i ((peers i).map (fun peer =>
    { peer with state :=
      { peer.state with expectedSeqBit := peer.state.expectedSeqBit ^^^ 1 } }))

/-- The bits of an address; those of an unknown one are what its new entry
would start with. -/
def stateOf (peers : Peers) (addr : SockAddr) : RudpState :=
  match peers.slotOf addr with
  | some i => peers.stateAt i
  | none => ⟨0, 0⟩

end Peers

namespace PendingFrames

variable {pending pending' : PendingFrames} {i : Fin 256} {entry : PendingFrame}
  {addr : SockAddr} {frame : Frame} {frameType : FrameType} {seqBit : UInt8}

theorem messages_eq_some :
    pending.messages i = some entry ↔
      pending i = some entry ∧ entry.frame.frameType = .message := by
  simp [messages, Option.filter_eq_some_iff, PendingFrame.isMessage]

theorem messages_set (content : Option PendingFrame) :
    messages (pending.set i content) =
      SlotTable.set pending.messages i (content.filter PendingFrame.isMessage) := by
  funext j
  by_cases hj : j = i
  · subst hj
    simp [messages]
  · simp [messages, SlotTable.set_of_ne, hj]

/-- Writing a slot that holds no message before and after. -/
theorem messages_set_control {content : Option PendingFrame}
    (hold : (pending i).filter PendingFrame.isMessage = none)
    (hnew : content.filter PendingFrame.isMessage = none) :
    messages (pending.set i content) = pending.messages := by
  rw [messages_set, hnew]
  funext j
  by_cases hj : j = i
  · subst hj
    simpa [messages] using hold.symm
  · rw [SlotTable.set_of_ne _ _ hj]

theorem filter_control (h : entry.frame.frameType ≠ .message) :
    (some entry).filter PendingFrame.isMessage = none := by
  simp [PendingFrame.isMessage, h]

theorem filter_message (h : entry.isMessage = true) :
    (some entry).filter PendingFrame.isMessage = some entry :=
  Option.filter_eq_some_iff.mpr ⟨rfl, h⟩

theorem takeFrame_some (h : pending.takeFrame addr frameType seqBit = some pending') :
    ∃ i entry, pending i = some entry ∧ entry.frame.frameType = frameType ∧
      entry.frame.seqBit = seqBit ∧ entry.addr = addr ∧ pending' = pending.set i none := by
  obtain ⟨i, hfirst, rfl⟩ := Option.map_eq_some_iff.mp h
  obtain ⟨entry, hentry, hmatch⟩ := (Option.any_eq_true _ _).mp (SlotTable.firstSlot_spec hfirst)
  simp only [Bool.and_eq_true, decide_eq_true_eq] at hmatch
  exact ⟨i, entry, hentry, hmatch.1.1, hmatch.1.2, hmatch.2, rfl⟩

theorem takeFrame_messages (htype : frameType ≠ .message)
    (h : pending.takeFrame addr frameType seqBit = some pending') :
    pending'.messages = pending.messages := by
  obtain ⟨i, entry, hentry, htaken, _, _, rfl⟩ := takeFrame_some h
  refine messages_set_control ?_ rfl
  rw [hentry]
  exact filter_control (htaken ▸ htype)

theorem takeMessageAny_some (h : pending.takeMessageAny = some (entry, pending')) :
    ∃ i, pending.messages i = some entry ∧
      pending'.messages = SlotTable.set pending.messages i none := by
  unfold takeMessageAny at h
  split at h
  · cases h
  · rename_i i hfirst
    obtain ⟨found, hfound, heq⟩ := Option.map_eq_some_iff.mp h
    cases heq
    obtain ⟨entry, hentry, hmessage⟩ :=
      (Option.any_eq_true _ _).mp (SlotTable.firstSlot_spec hfirst)
    rw [hfound] at hentry
    cases hentry
    refine ⟨i, ?_, messages_set none⟩
    rw [messages_eq_some]
    exact ⟨hfound, by simpa [PendingFrame.isMessage] using hmessage⟩

theorem takeMessageAny_card (h : pending.takeMessageAny = some (entry, pending')) :
    pending'.messages.used.card + 1 = pending.messages.used.card := by
  obtain ⟨i, hentry, hmessages⟩ := takeMessageAny_some h
  rw [hmessages]
  apply SlotTable.card_used_free
  rw [hentry]
  rfl

theorem takeMessageAny_none (h : pending.takeMessageAny = none) (i : Fin 256) :
    pending.messages i = none := by
  unfold takeMessageAny at h
  split at h
  · rename_i hnone
    have hfree := (SlotTable.firstSlot_eq_none_iff _ _).mp hnone i
    cases hslot : pending i with
    | none => simp [messages, hslot]
    | some entry =>
        rw [hslot] at hfree
        have hcontrol : entry.isMessage = false := by simpa using hfree
        simp [messages, hslot, hcontrol]
  · rename_i i hfirst
    obtain ⟨entry, hentry, _⟩ := (Option.any_eq_true _ _).mp (SlotTable.firstSlot_spec hfirst)
    simp [hentry] at h

theorem messages_firstSlot (pending : PendingFrames) :
    pending.messages.firstSlot Option.isSome =
      pending.firstSlot (fun content => content.any PendingFrame.isMessage) := by
  unfold SlotTable.firstSlot
  congr 1
  funext i
  cases hslot : pending i with
  | none => simp [messages, hslot]
  | some entry => cases hmessage : entry.isMessage <;> simp [messages, hslot, hmessage]

/-- Which message is taken is a matter of the messages alone. -/
theorem takeMessageAny_eq (pending : PendingFrames) : pending.takeMessageAny =
    (pending.messages.firstSlot Option.isSome).bind (fun i =>
      (pending.messages i).map (fun entry => (entry, pending.set i none))) := by
  rw [messages_firstSlot]
  unfold takeMessageAny
  cases hfirst : pending.firstSlot (fun content => content.any PendingFrame.isMessage) with
  | none => rfl
  | some i =>
      obtain ⟨entry, hentry, hmessage⟩ :=
        (Option.any_eq_true _ _).mp (SlotTable.firstSlot_spec hfirst)
      simp [messages, hentry, filter_message hmessage]

theorem takeMessageAny_fst (pending : PendingFrames) : pending.takeMessageAny.map Prod.fst =
    (pending.messages.firstSlot Option.isSome).bind pending.messages := by
  rw [takeMessageAny_eq]
  cases pending.messages.firstSlot Option.isSome with
  | none => rfl
  | some i => cases hslot : pending.messages i <;> simp [hslot]

theorem takeMessageAny_congr (hmessages : pending'.messages = pending.messages) :
    pending'.takeMessageAny.map Prod.fst = pending.takeMessageAny.map Prod.fst := by
  rw [takeMessageAny_fst, takeMessageAny_fst, hmessages]

/-- The message in the lowest slot is taken. -/
theorem takeMessageAny_entries (h : pending.takeMessageAny = some (entry, pending')) :
    pending.messages.entries = entry :: pending'.messages.entries := by
  rw [takeMessageAny_eq] at h
  obtain ⟨i, hfirst, hmap⟩ := Option.bind_eq_some_iff.mp h
  obtain ⟨found, hfound, heq⟩ := Option.map_eq_some_iff.mp hmap
  cases heq
  rw [SlotTable.entries_first hfirst hfound, messages_set]
  rfl

theorem storeFrame_some (h : pending.storeFrame addr frame = some pending') :
    ∃ i, pending.storeSlot addr frame = some i ∧ pending' = pending.set i (some ⟨addr, frame⟩) := by
  unfold storeFrame at h
  split at h
  · cases h
  · obtain ⟨i, hslot, rfl⟩ := Option.map_eq_some_iff.mp h
    exact ⟨i, hslot, rfl⟩

/-- A frame goes to a free slot, or a control frame replaces one with the same
source, type and bit. -/
theorem storeSlot_some (h : pending.storeSlot addr frame = some i) :
    pending i = none ∨ frame.frameType ≠ .message ∧ ∃ old, pending i = some old ∧
      old.addr = addr ∧ old.frame.frameType = frame.frameType ∧
      old.frame.seqBit = frame.seqBit := by
  unfold storeSlot at h
  simp only at h
  split at h
  · rename_i j hsame
    cases h
    split at hsame
    · cases hsame
    · rename_i hcontrol
      obtain ⟨old, hold, hmatch⟩ := (Option.any_eq_true _ _).mp (SlotTable.firstSlot_spec hsame)
      simp only [Bool.and_eq_true, decide_eq_true_eq] at hmatch
      exact .inr ⟨hcontrol, old, hold, hmatch.1.1, hmatch.1.2, hmatch.2⟩
  · exact .inl (by simpa using SlotTable.firstSlot_spec h)

/-- A frame that fits and is not stored found no free slot. -/
theorem storeFrame_none (hfits : frame.len ≤ maxFrameSize)
    (h : pending.storeFrame addr frame = none) (i : Fin 256) : (pending i).isSome = true := by
  unfold storeFrame at h
  rw [if_neg (not_lt.mpr hfits)] at h
  have hslot := Option.map_eq_none_iff.mp h
  unfold storeSlot at hslot
  simp only at hslot
  split at hslot
  · cases hslot
  · have hused := (SlotTable.firstSlot_eq_none_iff _ _).mp hslot i
    cases hcontent : pending i with
    | none => simp [hcontent] at hused
    | some entry => rfl

/-- A message goes to the first free slot. -/
theorem storeFrame_firstFree (hmessage : frame.frameType = .message)
    (h : pending.storeFrame addr frame = some pending') :
    ∃ i, pending.firstSlot Option.isNone = some i ∧ pending.messages i = none ∧
      pending'.messages = SlotTable.set pending.messages i (some ⟨addr, frame⟩) := by
  obtain ⟨i, hslot, rfl⟩ := storeFrame_some h
  have hfirst : pending.firstSlot Option.isNone = some i := by
    simpa [storeSlot, hmessage] using hslot
  have hfree : pending i = none := by simpa using SlotTable.firstSlot_spec hfirst
  refine ⟨i, hfirst, by simp [messages, hfree], ?_⟩
  rw [messages_set, filter_message]
  simp [PendingFrame.isMessage, hmessage]

theorem storeFrame_message (hmessage : frame.frameType = .message)
    (h : pending.storeFrame addr frame = some pending') :
    ∃ i, pending.messages i = none ∧
      pending'.messages = SlotTable.set pending.messages i (some ⟨addr, frame⟩) := by
  obtain ⟨i, _, hstored⟩ := storeFrame_firstFree hmessage h
  exact ⟨i, hstored⟩

/-- A control frame goes to a free slot or replaces another control frame. -/
theorem storeFrame_control (hcontrol : frame.frameType ≠ .message)
    (h : pending.storeFrame addr frame = some pending') :
    pending'.messages = pending.messages := by
  obtain ⟨i, hslot, rfl⟩ := storeFrame_some h
  refine messages_set_control ?_ (filter_control hcontrol)
  rcases storeSlot_some hslot with hfree | ⟨_, old, hold, _, htype, _⟩
  · rw [hfree]
    rfl
  · rw [hold]
    exact filter_control (htype ▸ hcontrol)

theorem storeFrame_entry (h : pending.storeFrame addr frame = some pending')
    (hentry : pending' i = some entry) : entry = ⟨addr, frame⟩ ∨ pending i = some entry := by
  obtain ⟨j, _, rfl⟩ := storeFrame_some h
  rw [SlotTable.set_apply] at hentry
  split at hentry
  · exact .inl (Option.some.inj hentry).symm
  · exact .inr hentry

theorem dropPeerFrames_entry (hentry : pending.dropPeerFrames addr frameType i = some entry) :
    pending i = some entry ∧ ¬ (entry.addr = addr ∧ entry.frame.frameType = frameType) := by
  obtain ⟨hold, hkept⟩ := Option.filter_eq_some_iff.mp hentry
  refine ⟨hold, fun hboth => ?_⟩
  simp [hboth] at hkept

theorem dropPeerFrames_messages (htype : frameType ≠ .message) :
    (pending.dropPeerFrames addr frameType).messages = pending.messages := by
  funext i
  unfold messages dropPeerFrames
  rw [Option.filter_filter]
  congr 1
  funext entry
  by_cases hmessage : entry.frame.frameType = .message
  · simp [PendingFrame.isMessage, hmessage, Ne.symm htype]
  · simp [PendingFrame.isMessage, hmessage]

end PendingFrames

namespace Peers

variable {peers peers' : Peers} {addr other : SockAddr} {i j : Fin 32}

theorem slotOf_some (h : peers.slotOf addr = some i) :
    ∃ peer, peers i = some peer ∧ peer.addr = addr := by
  obtain ⟨peer, hpeer, hmatch⟩ := (Option.any_eq_true _ _).mp (SlotTable.firstSlot_spec h)
  exact ⟨peer, hpeer, by simpa using hmatch⟩

theorem slotOf_unique (h : peers.slotOf addr = some i) (hother : peers.slotOf other = some i) :
    addr = other := by
  obtain ⟨peer, hpeer, rfl⟩ := slotOf_some h
  obtain ⟨same, hsame, rfl⟩ := slotOf_some hother
  rw [hpeer] at hsame
  cases hsame
  rfl

theorem stateOf_eq (h : peers.slotOf addr = some i) : peers.stateOf addr = peers.stateAt i := by
  simp [stateOf, h]

/-- A new entry in a free slot, for an address without one. -/
theorem slotOf_set_new (hfree : peers i = none) (hnew : peers.slotOf addr = none)
    (state : RudpState) (other : SockAddr) :
    slotOf (peers.set i (some ⟨addr, state⟩)) other =
      if other = addr then some i else peers.slotOf other := by
  split
  · rename_i hsame
    subst hsame
    refine (SlotTable.firstSlot_eq_some_iff _ _ _).mpr ⟨by simp, fun j hj => ?_⟩
    rw [SlotTable.set_of_ne _ _ (ne_of_lt hj)]
    exact (SlotTable.firstSlot_eq_none_iff _ _).mp hnew j
  · rename_i hother
    unfold slotOf SlotTable.firstSlot
    congr 1
    funext j
    by_cases hj : j = i
    · subst hj
      simp [hfree, Ne.symm hother]
    · rw [SlotTable.set_of_ne _ _ hj]

/-- `get_peer` finds the entry, or makes one in a free slot. -/
theorem getPeer_cases (h : peers.getPeer addr true = some (i, peers')) :
    (peers.slotOf addr = some i ∧ peers' = peers) ∨
      (peers.slotOf addr = none ∧ peers i = none ∧
        peers' = SlotTable.set peers i (some ⟨addr, ⟨0, 0⟩⟩)) := by
  unfold getPeer at h
  split at h
  · rename_i hslot
    cases h
    exact .inl ⟨hslot, rfl⟩
  · rename_i hnew
    simp only [Bool.not_true, Bool.false_eq_true, if_false] at h
    obtain ⟨k, hfirst, heq⟩ := Option.map_eq_some_iff.mp h
    cases heq
    exact .inr ⟨hnew, by simpa using SlotTable.firstSlot_spec hfirst, rfl⟩

/-- What `get_peer` gives to a caller, and what it leaves to the others. -/
theorem getPeer_some (h : peers.getPeer addr true = some (i, peers')) :
    peers'.slotOf addr = some i ∧
      (∀ other j, peers.slotOf other = some j → peers'.slotOf other = some j) ∧
      ∀ other, peers'.stateOf other = peers.stateOf other := by
  rcases getPeer_cases h with ⟨hslot, rfl⟩ | ⟨hnew, hfree, rfl⟩
  · exact ⟨hslot, fun _ _ => id, fun _ => rfl⟩
  · have hslots := slotOf_set_new hfree hnew ⟨0, 0⟩
    refine ⟨by rw [hslots, if_pos rfl], fun other j hknown => ?_, fun other => ?_⟩
    · rw [hslots, if_neg, hknown]
      rintro rfl
      rw [hnew] at hknown
      cases hknown
    · unfold stateOf
      rw [hslots]
      by_cases hsame : other = addr
      · rw [if_pos hsame, hsame, hnew]
        simp [stateAt]
      · rw [if_neg hsame]
        cases hknown : peers.slotOf other with
        | none => rfl
        | some j =>
            have hj : j ≠ i := by
              rintro rfl
              obtain ⟨peer, hpeer, _⟩ := slotOf_some hknown
              rw [hfree] at hpeer
              cases hpeer
            simp [stateAt, SlotTable.set_of_ne _ _ hj]

/-- Writing the state of an entry moves no entry. -/
theorem slotOf_set_state (update : RudpState → RudpState) (other : SockAddr) :
    slotOf (peers.set i ((peers i).map fun peer => { peer with state := update peer.state }))
      other = peers.slotOf other := by
  unfold slotOf SlotTable.firstSlot
  congr 1
  funext j
  by_cases hj : j = i
  · subst hj
    cases peers j <;> simp
  · rw [SlotTable.set_of_ne _ _ hj]

theorem stateOf_set_state (update : RudpState → RudpState) (hknown : peers.slotOf addr = some i)
    (other : SockAddr) :
    stateOf (peers.set i ((peers i).map fun peer => { peer with state := update peer.state }))
      other = if other = addr then update (peers.stateOf addr) else peers.stateOf other := by
  obtain ⟨peer, hpeer, haddr⟩ := slotOf_some hknown
  unfold stateOf
  rw [slotOf_set_state]
  by_cases hsame : other = addr
  · rw [if_pos hsame, hsame]
    simp [hknown, stateAt, hpeer]
  · rw [if_neg hsame]
    cases hslot : peers.slotOf other with
    | none => rfl
    | some j =>
        have hj : j ≠ i := by
          rintro rfl
          exact hsame (slotOf_unique hslot hknown)
        simp [stateAt, SlotTable.set_of_ne _ _ hj]

theorem flipSend_stateOf (hknown : peers.slotOf addr = some i) (other : SockAddr) :
    (peers.flipSend i).stateOf other =
      if other = addr then
        { peers.stateOf addr with sendSeqBit := (peers.stateOf addr).sendSeqBit ^^^ 1 }
      else peers.stateOf other :=
  stateOf_set_state (fun state => { state with sendSeqBit := state.sendSeqBit ^^^ 1 }) hknown
    other

theorem flipExpected_stateOf (hknown : peers.slotOf addr = some i) (other : SockAddr) :
    (peers.flipExpected i).stateOf other =
      if other = addr then
        { peers.stateOf addr with expectedSeqBit := (peers.stateOf addr).expectedSeqBit ^^^ 1 }
      else peers.stateOf other :=
  stateOf_set_state (fun state => { state with expectedSeqBit := state.expectedSeqBit ^^^ 1 })
    hknown other

end Peers

end TokenRing
