import TokenRing.Broadcast
import TokenRing.Lib.ByteFields
import TokenRing.Rudp.Tables
import TokenRing.UnicastDispatch

/-!
The layouts of the datagrams, and the checks of the functions that read them.
Fields that go through `ntohs` and `ntohl` are big-endian; those that are copied
as they are, the RUDP header and the version of a token, stand in the byte
order of the host.
-/

namespace TokenRing

def maxUnicastPayload : Nat := 512
def maxDataSize : Nat := 256
def joinMagic : UInt32 := 0xAAAABBBB
def sizeofJoinMessageHeader : Nat := 12
def sizeofUnicastMsg : Nat := 516
def sizeofToken : Nat := 328
def sizeofJoinAccept : Nat := 116
def sizeofJoinAckU : Nat := 36
def sizeofJoinAckAckU : Nat := 36
def sizeofJoinRequest : Nat := 48
def sizeofJoinCommit : Nat := 48
def joinMaxMsgSize : Nat := sizeofJoinAccept

inductive ByteOrder where
  | little
  | big
deriving DecidableEq

/-- The bytes of a field. What lies past the end of the record is zero, as the
buffers are zeroed before a record is read into them. -/
def field (record : Bytes) (offset size : Nat) : Bytes :=
  ByteFields.slice record offset size

def natOfBytes (order : ByteOrder) (bytes : Bytes) : Nat :=
  match order with
  | .big => ByteFields.value bytes.reverse
  | .little => ByteFields.value bytes

/-- `ntohs` of the field at this offset. -/
def ntohs (record : Bytes) (offset : Nat) : UInt16 :=
  .ofNat (natOfBytes .big (field record offset 2))

/-- `ntohl` of the field at this offset. -/
def ntohl (record : Bytes) (offset : Nat) : UInt32 :=
  .ofNat (natOfBytes .big (field record offset 4))

/-- A `uint32_t` that is copied without `ntohl`. -/
def hostU32 (order : ByteOrder) (record : Bytes) (offset : Nat) : UInt32 :=
  .ofNat (natOfBytes order (field record offset 4))

/-- A name buffer after the terminating NUL is written into its last byte. -/
def nameAt (record : Bytes) (offset : Nat) : NodeName :=
  NodeName.ofBytes (field record offset maxNodeNameSize)

/-- A `unicast_msg_t`; `payload` is the first `payload_len` bytes of the
array. -/
structure UnicastRecord where
  msgType : UInt16
  payload : Bytes

/-- The `payload_len` that a record announces. -/
def announcedLen (wire : Bytes) : Nat := (ntohs wire 2).toNat

/-- `unicast_recv` past its `rudp_recvfrom`: `none` is the return value -1. -/
def unicastRecv (wire : Bytes) : Option UnicastRecord :=
  if announcedLen wire > maxUnicastPayload then
    none
  else
    some ⟨ntohs wire 0, field wire 4 (announcedLen wire)⟩

/-- The `memcpy` of `handle_token_unicast`. A name without a NUL in its buffer
is cut as if the last byte were one. -/
def Token.ofPayload (order : ByteOrder) (payload : Bytes) : Token where
  data := (field payload 0 maxDataSize).takeWhile (· != 0)
  sender := nameAt payload 256
  receiver := nameAt payload 288
  topoVersion := hostU32 order payload 320
  isEmpty := payload.getD 324 0 != 0

/-- The accept that `handle_join_accept_u` builds in host order. -/
def JoinAccept.ofPayload (payload : Bytes) : JoinAccept where
  requestId := ntohl payload 8
  newName := nameAt payload 12
  newUnicastPort := ntohs payload 44
  beforeName := nameAt payload 46
  beforeUnicastPort := ntohs payload 78
  prevName := nameAt payload 80
  prevUnicastPort := ntohs payload 112

/-- The comparisons of `unicast_dispatch_message` and the checks of its
handlers. -/
def UnicastRecord.message (order : ByteOrder) (record : UnicastRecord) : UnicastMsg :=
  if record.msgType = 1 then
    if record.payload.length ≠ sizeofToken then .malformed
    else .token (.ofPayload order record.payload)
  else if record.msgType = 2 then
    if record.payload.length ≠ sizeofJoinAccept then .malformed
    else if ntohl record.payload 0 ≠ joinMagic ∨ ntohs record.payload 4 ≠ 2 then .malformed
    else .joinAccept (.ofPayload record.payload)
  else if record.msgType = 4 then
    if record.payload.length ≠ sizeofJoinAckU then .malformed
    else .joinAck (ntohl record.payload 0) (nameAt record.payload 4)
  else if record.msgType = 5 then
    if record.payload.length ≠ sizeofJoinAckAckU then .malformed
    else .joinAckAck (ntohl record.payload 0) (nameAt record.payload 4)
  else
    .malformed

/-- The checks of `handle_broadcast`. The `recvfrom` cuts a longer datagram. -/
def broadcastMessage (datagram : Bytes) : BroadcastMsg :=
  let buffer := datagram.take joinMaxMsgSize
  if buffer.length < sizeofJoinMessageHeader then
    .malformed
  else if ntohl buffer 0 ≠ joinMagic then
    .malformed
  else if ntohs buffer 4 = 1 then
    if buffer.length ≠ sizeofJoinRequest then .malformed
    else .joinRequest ⟨ntohl buffer 8, nameAt buffer 12, ntohs buffer 44⟩
  else if ntohs buffer 4 = 6 then
    if buffer.length ≠ sizeofJoinCommit then .malformed
    else .joinCommit (ntohl buffer 8) (nameAt buffer 12) (ntohl buffer 44)
  else
    .malformed

/-- A `frame_type_t` with this value. -/
def FrameType.ofCode (code : UInt32) : FrameType :=
  if code = 0 then .message
  else if code = 1 then .ack
  else if hcode : 2 < code then .other ⟨code, hcode⟩
  else .ackAck

/-- What a `recvfrom` of the RUDP layer leaves in its frame buffer. -/
def Datagram.ofBytes (order : ByteOrder) (datagram : Bytes) : Datagram :=
  let buffer := datagram.take maxFrameSize
  if buffer.length < headerSize then
    .short
  else
    .frame ⟨.ofCode (hostU32 order buffer 0), buffer.getD 4 0, buffer.drop headerSize⟩

/-- What a handler takes: the type of the record with the size of its struct,
and for an accept also the header. -/
def UnicastRecord.WellFormed (record : UnicastRecord) : Prop :=
  (record.msgType = 1 ∧ record.payload.length = sizeofToken) ∨
    (record.msgType = 2 ∧ record.payload.length = sizeofJoinAccept ∧
      ntohl record.payload 0 = joinMagic ∧ ntohs record.payload 4 = 2) ∨
    (record.msgType = 4 ∧ record.payload.length = sizeofJoinAckU) ∨
    (record.msgType = 5 ∧ record.payload.length = sizeofJoinAckAckU)

def WellFormedBroadcast (datagram : Bytes) : Prop :=
  ntohl datagram 0 = joinMagic ∧
    ((ntohs datagram 4 = 1 ∧ datagram.length = sizeofJoinRequest) ∨
      (ntohs datagram 4 = 6 ∧ datagram.length = sizeofJoinCommit))

section Checks

variable {order : ByteOrder} {state : RingState}

theorem unicastRecv_eq_none {wire : Bytes} :
    unicastRecv wire = none ↔ maxUnicastPayload < announcedLen wire := by
  unfold unicastRecv
  split
  · exact ⟨fun _ => ‹_›, fun _ => rfl⟩
  · exact ⟨nofun, fun h => absurd h ‹_›⟩

theorem UnicastRecord.message_malformed {record : UnicastRecord} (h : ¬ record.WellFormed) :
    record.message order = .malformed := by
  unfold UnicastRecord.WellFormed at h
  push Not at h
  obtain ⟨htoken, haccept, hack, hackAck⟩ := h
  unfold UnicastRecord.message
  split
  · rw [if_pos (htoken ‹_›)]
  split
  · rename_i htype
    split
    · rfl
    · rename_i hsize
      rw [if_pos]
      by_cases hmagic : ntohl record.payload 0 = joinMagic
      · exact .inr (haccept htype (not_not.mp hsize) hmagic)
      · exact .inl hmagic
  split
  · rw [if_pos (hack ‹_›)]
  split
  · rw [if_pos (hackAck ‹_›)]
  · rfl

theorem broadcastMessage_malformed {datagram : Bytes} (h : ¬ WellFormedBroadcast datagram) :
    broadcastMessage datagram = .malformed := by
  by_cases hlong : datagram.length ≤ joinMaxMsgSize
  · unfold WellFormedBroadcast at h
    unfold broadcastMessage
    rw [List.take_of_length_le hlong]
    simp only
    split
    · rfl
    split
    · rfl
    · rename_i hmagic
      have hnone := not_or.mp (not_and.mp h (not_not.mp hmagic))
      split
      · rw [if_pos (not_and.mp hnone.1 ‹_›)]
      split
      · rw [if_pos (not_and.mp hnone.2 ‹_›)]
      · rfl
  · -- a datagram that is cut fills the buffer, and neither message does
    have hlength : (datagram.take joinMaxMsgSize).length = joinMaxMsgSize := by
      rw [List.length_take]
      omega
    unfold broadcastMessage
    generalize datagram.take joinMaxMsgSize = buffer at hlength
    have hrequest : buffer.length ≠ sizeofJoinRequest := hlength ▸ by decide
    have hcommit : buffer.length ≠ sizeofJoinCommit := hlength ▸ by decide
    simp only [hrequest, hcommit, ne_eq, not_false_eq_true, if_true, ite_self]

/-- A record that fails a check of its type changes nothing and is not
answered. -/
theorem dispatch_malformed {record : UnicastRecord} (h : ¬ record.WellFormed) (now : Int)
    (ok : Nat → Bool) :
    unicastDispatchMessage state (record.message order) now ok = (state, []) := by
  rw [UnicastRecord.message_malformed h]
  rfl

/-- A datagram that fails a check of its type changes nothing. -/
theorem handleBroadcast_malformed {datagram : Bytes} (h : ¬ WellFormedBroadcast datagram)
    (ip : UInt32) (now : Int) :
    handleBroadcast state (broadcastMessage datagram) ip now = state := by
  rw [broadcastMessage_malformed h]
  rfl

theorem Datagram.ofBytes_len {datagram : Bytes} {frame : Frame}
    (h : Datagram.ofBytes order datagram = .frame frame) : frame.len ≤ maxFrameSize := by
  unfold Datagram.ofBytes at h
  simp only at h
  split at h
  · cases h
  · rename_i hlong
    cases h
    have hcut : (datagram.take maxFrameSize).length ≤ maxFrameSize := List.length_take_le _ _
    simp only [Frame.len, List.length_drop]
    omega

end Checks

end TokenRing
