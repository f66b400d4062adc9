import TokenRing.Lib.ByteFields
import TokenRing.Wire

/-!
The messages of a join as bytes: what the senders write, host by host, and that
the readers of the datagrams get back what was sent. Padding is zero, as the
structs are zeroed before their fields are set.
-/

namespace TokenRing

/-- An integer as it stands in the memory of a host. -/
def bytesOf (order : ByteOrder) (size n : Nat) : Bytes :=
  match order with
  | .little => ByteFields.littleEndian size n
  | .big => (ByteFields.littleEndian size n).reverse

/-- `htons`, which is also `ntohs`: the bytes change places on a little-endian
host. -/
def htons (order : ByteOrder) (value : UInt16) : UInt16 :=
  match order with
  | .big => value
  | .little => .ofNat (natOfBytes .big (bytesOf .little 2 value.toNat))

/-- `htonl` and `ntohl`. -/
def htonl (order : ByteOrder) (value : UInt32) : UInt32 :=
  match order with
  | .big => value
  | .little => .ofNat (natOfBytes .big (bytesOf .little 4 value.toNat))

/-- A `uint16_t` field that the host sets to `htons (value)`. -/
def netU16 (order : ByteOrder) (value : UInt16) : Bytes :=
  bytesOf order 2 (htons order value).toNat

/-- A `uint32_t` field that the host sets to `htonl (value)`. -/
def netU32 (order : ByteOrder) (value : UInt32) : Bytes :=
  bytesOf order 4 (htonl order value).toNat

/-- A zeroed name buffer after `strncpy` and the terminating NUL. -/
def nameBuffer (name : NodeName) : Bytes :=
  name.chars ++ List.replicate (maxNodeNameSize - name.chars.length) 0

/-- Two bytes that are reserved or lie behind a port at the end of a struct. -/
def padding : Bytes := [0, 0]

/-- A `join_message_header_t`. -/
def joinMessageHeader (order : ByteOrder) (msgType : UInt16) (requestId : UInt32) : Bytes :=
  netU32 order joinMagic ++ (netU16 order msgType ++ (padding ++ netU32 order requestId))

/-- The `join_accept_t` that `join_fsm_inflight_tick` puts into its payload. -/
def JoinAccept.wire (order : ByteOrder) (accept : JoinAccept) : Bytes :=
  joinMessageHeader order 2 accept.requestId ++ (nameBuffer accept.newName ++
    (netU16 order accept.newUnicastPort ++ (nameBuffer accept.beforeName ++
      (netU16 order accept.beforeUnicastPort ++ (nameBuffer accept.prevName ++
        (netU16 order accept.prevUnicastPort ++ padding))))))

/-- A request id with a name. -/
def confirmationWire (order : ByteOrder) (requestId : UInt32) (name : NodeName) : Bytes :=
  netU32 order requestId ++ nameBuffer name

/-- A `join_ack_u_t`. -/
def joinAckU (order : ByteOrder) (requestId : UInt32) (fromName : NodeName) : Bytes :=
  confirmationWire order requestId fromName

/-- A `join_ack_ack_u_t`. -/
def joinAckAckU (order : ByteOrder) (requestId : UInt32) (toName : NodeName) : Bytes :=
  confirmationWire order requestId toName

/-- `build_unicast_wire`: `none` is the return value -1. -/
def buildUnicastWire (order : ByteOrder) (msg : UnicastRecord) : Option Bytes :=
  if msg.payload.length > maxUnicastPayload then
    none
  else
    some (netU16 order msg.msgType ++ (netU16 order (.ofNat msg.payload.length) ++
      (msg.payload ++ List.replicate (maxUnicastPayload - msg.payload.length) 0)))

/-- The datagram of `broadcast_send_join_request`. -/
def broadcastSendJoinRequest (order : ByteOrder) (requestId : UInt32) (nodeName : NodeName)
    (unicastPort : UInt16) : Bytes :=
  joinMessageHeader order 1 requestId ++ (nameBuffer nodeName ++
    (netU16 order unicastPort ++ padding))

/-- The datagram of `broadcast_send_join_commit`. -/
def broadcastSendJoinCommit (order : ByteOrder) (requestId : UInt32) (newName : NodeName)
    (topoVersion : UInt32) : Bytes :=
  joinMessageHeader order 6 requestId ++ (nameBuffer newName ++ netU32 order topoVersion)

section Integers

variable {order : ByteOrder} {size n : Nat}

@[simp] theorem length_bytesOf (order : ByteOrder) (size n : Nat) :
    (bytesOf order size n).length = size := by
  cases order <;> simp [bytesOf]

theorem natOfBytes_little (bytes : Bytes) :
    natOfBytes .little bytes = ByteFields.value bytes := rfl

theorem natOfBytes_big (bytes : Bytes) :
    natOfBytes .big bytes = ByteFields.value bytes.reverse := rfl

theorem natOfBytes_bytesOf (order : ByteOrder) (size n : Nat) :
    natOfBytes order (bytesOf order size n) = n % 256 ^ size := by
  cases order with
  | little => exact ByteFields.value_littleEndian size n
  | big => rw [natOfBytes_big, bytesOf, List.reverse_reverse, ByteFields.value_littleEndian]

theorem natOfBytes_lt (order : ByteOrder) {bytes : Bytes} (hsize : bytes.length = size) :
    natOfBytes order bytes < 256 ^ size := by
  subst hsize
  cases order with
  | little => exact ByteFields.value_lt bytes
  | big =>
      rw [natOfBytes_big, ← List.length_reverse]
      exact ByteFields.value_lt bytes.reverse

theorem bytesOf_natOfBytes (order : ByteOrder) {bytes : Bytes} (hsize : bytes.length = size) :
    bytesOf order size (natOfBytes order bytes) = bytes := by
  subst hsize
  cases order with
  | little => exact ByteFields.littleEndian_value bytes
  | big =>
      have hvalue := ByteFields.littleEndian_value bytes.reverse
      rw [List.length_reverse] at hvalue
      rw [natOfBytes_big, bytesOf, hvalue, List.reverse_reverse]

/-- Exchanging the bytes of a little-endian host. -/
theorem bytesOf_swapped (size n : Nat) :
    bytesOf .little size (natOfBytes .big (bytesOf .little size n)) = bytesOf .big size n := by
  have hbytes := bytesOf_natOfBytes .little (length_bytesOf .big size n)
  rw [natOfBytes_little] at hbytes
  rw [natOfBytes_big]
  exact hbytes

/-- What stands in memory is the big-endian form on every host. -/
theorem netU16_eq (order : ByteOrder) (value : UInt16) :
    netU16 order value = bytesOf .big 2 value.toNat := by
  cases order with
  | big => rfl
  | little =>
      have hsmall : natOfBytes .big (bytesOf .little 2 value.toNat) < 2 ^ 16 :=
        natOfBytes_lt .big (length_bytesOf .little 2 _)
      rw [netU16, htons, UInt16.toNat_ofNat', Nat.mod_eq_of_lt hsmall, bytesOf_swapped]

theorem netU32_eq (order : ByteOrder) (value : UInt32) :
    netU32 order value = bytesOf .big 4 value.toNat := by
  cases order with
  | big => rfl
  | little =>
      have hsmall : natOfBytes .big (bytesOf .little 4 value.toNat) < 2 ^ 32 :=
        natOfBytes_lt .big (length_bytesOf .little 4 _)
      rw [netU32, htonl, UInt32.toNat_ofNat', Nat.mod_eq_of_lt hsmall, bytesOf_swapped]

@[simp] theorem length_field (record : Bytes) (offset size : Nat) :
    (field record offset size).length = size :=
  ByteFields.length_slice record offset size

/-- `ntohl` of a field that the host has loaded is the big-endian value, whatever
the order of the host. -/
theorem ntohl_any_host (order : ByteOrder) (record : Bytes) (offset : Nat) :
    htonl order (hostU32 order record offset) = ntohl record offset := by
  cases order with
  | big => rfl
  | little =>
      have hsmall : natOfBytes .little (field record offset 4) < 2 ^ 32 :=
        natOfBytes_lt .little (length_field record offset 4)
      have hbytes := bytesOf_natOfBytes .little (length_field record offset 4)
      rw [htonl, hostU32, UInt32.toNat_ofNat', Nat.mod_eq_of_lt hsmall, hbytes, ntohl]

theorem ntohs_any_host (order : ByteOrder) (record : Bytes) (offset : Nat) :
    htons order (.ofNat (natOfBytes order (field record offset 2))) = ntohs record offset := by
  cases order with
  | big => rfl
  | little =>
      have hsmall : natOfBytes .little (field record offset 2) < 2 ^ 16 :=
        natOfBytes_lt .little (length_field record offset 2)
      have hbytes := bytesOf_natOfBytes .little (length_field record offset 2)
      rw [htons, UInt16.toNat_ofNat', Nat.mod_eq_of_lt hsmall, hbytes, ntohs]

end Integers

section Fields

variable {record piece rest : Bytes} {offset size : Nat} {name : NodeName}

@[simp] theorem length_netU16 (order : ByteOrder) (value : UInt16) :
    (netU16 order value).length = 2 := length_bytesOf order 2 _

@[simp] theorem length_netU32 (order : ByteOrder) (value : UInt32) :
    (netU32 order value).length = 4 := length_bytesOf order 4 _

@[simp] theorem length_nameBuffer (name : NodeName) : (nameBuffer name).length = 32 := by
  have hshort := name.short
  simp only [maxNodeNameSize] at hshort
  simp [nameBuffer, maxNodeNameSize]
  omega

@[simp] theorem length_padding : padding.length = 2 := by simp [padding]

@[simp] theorem length_joinMessageHeader (order : ByteOrder) (msgType : UInt16)
    (requestId : UInt32) : (joinMessageHeader order msgType requestId).length = 12 := by
  simp [joinMessageHeader]

theorem field_here (h : piece.length = size) : field (piece ++ rest) 0 size = piece :=
  ByteFields.slice_here h

theorem field_whole (h : piece.length = size) : field piece 0 size = piece :=
  ByteFields.slice_whole h

theorem field_behind (h : piece.length ≤ offset) :
    field (piece ++ rest) offset size = field rest (offset - piece.length) size :=
  ByteFields.slice_behind h

/-- A field that was set with `htons` is read with `ntohs`. -/
theorem ntohs_of_field (order : ByteOrder) {value : UInt16}
    (h : field record offset 2 = netU16 order value) :
    ntohs record offset = value := by
  rw [ntohs, h, netU16_eq, natOfBytes_bytesOf]
  apply UInt16.toNat_inj.mp
  rw [UInt16.toNat_ofNat']
  have hsmall := value.toNat_lt
  omega

theorem ntohl_of_field (order : ByteOrder) {value : UInt32}
    (h : field record offset 4 = netU32 order value) :
    ntohl record offset = value := by
  rw [ntohl, h, netU32_eq, natOfBytes_bytesOf]
  apply UInt32.toNat_inj.mp
  rw [UInt32.toNat_ofNat']
  have hsmall := value.toNat_lt
  omega

/-- A name comes back from its buffer. -/
theorem ofBytes_nameBuffer (name : NodeName) : NodeName.ofBytes (nameBuffer name) = name := by
  obtain ⟨chars, hshort, hnul⟩ := name
  simp only [maxNodeNameSize] at hshort
  have htake : (chars ++ List.replicate (32 - chars.length) 0).take 31 =
      chars ++ List.replicate (31 - chars.length) 0 := by
    rw [List.take_append, List.take_of_length_le (by omega), List.take_replicate]
    congr 2
    omega
  have hchars : (chars ++ List.replicate (31 - chars.length) 0).takeWhile (· != 0) = chars := by
    rw [List.takeWhile_append_of_pos (fun c hc => by simpa using hnul c hc)]
    cases hmore : 31 - chars.length <;> simp [List.replicate_succ]
  simp only [NodeName.ofBytes, nameBuffer, maxNodeNameSize, Nat.add_one_sub_one, htake, hchars]

theorem nameAt_of_field (h : field record offset maxNodeNameSize = nameBuffer name) :
    nameAt record offset = name := by
  rw [nameAt, h, ofBytes_nameBuffer]

end Fields

section Messages

/-- What a reader finds in the header of a message. -/
theorem joinMessageHeader_fields (order : ByteOrder) (msgType : UInt16) (requestId : UInt32)
    (rest : Bytes) :
    ntohl (joinMessageHeader order msgType requestId ++ rest) 0 = joinMagic ∧
      ntohs (joinMessageHeader order msgType requestId ++ rest) 4 = msgType ∧
      ntohl (joinMessageHeader order msgType requestId ++ rest) 8 = requestId := by
  unfold joinMessageHeader
  simp only [List.append_assoc]
  constructor
  · apply ntohl_of_field order
    rw [field_here (length_netU32 _ _)]
  constructor
  · apply ntohs_of_field order
    simp [field_behind, field_here]
  · apply ntohl_of_field order
    simp [field_behind, field_here]

theorem JoinAccept.length_wire (order : ByteOrder) (accept : JoinAccept) :
    (accept.wire order).length = sizeofJoinAccept := by
  simp [JoinAccept.wire, sizeofJoinAccept]

/-- The accept that `handle_join_accept_u` reads is the one that was written. -/
theorem JoinAccept.ofPayload_wire (order : ByteOrder) (accept : JoinAccept) :
    JoinAccept.ofPayload (accept.wire order) = accept := by
  obtain ⟨requestId, newName, newPort, beforeName, beforePort, prevName, prevPort⟩ := accept
  unfold JoinAccept.ofPayload JoinAccept.wire
  rw [JoinAccept.mk.injEq]
  refine ⟨(joinMessageHeader_fields order 2 requestId _).2.2, nameAt_of_field ?_,
    ntohs_of_field order ?_, nameAt_of_field ?_, ntohs_of_field order ?_,
    nameAt_of_field ?_, ntohs_of_field order ?_⟩
  all_goals simp [field_behind, field_here, maxNodeNameSize]

theorem confirmationWire_fields (order : ByteOrder) (requestId : UInt32) (name : NodeName) :
    (confirmationWire order requestId name).length = 36 ∧
      ntohl (confirmationWire order requestId name) 0 = requestId ∧
      nameAt (confirmationWire order requestId name) 4 = name := by
  unfold confirmationWire
  constructor
  · simp
  constructor
  · apply ntohl_of_field order
    rw [field_here (length_netU32 _ _)]
  · apply nameAt_of_field
    simp [field_behind, field_whole, maxNodeNameSize]

/-- A record comes out of `unicast_recv` as it went into `build_unicast_wire`. -/
theorem unicastRecv_buildUnicastWire (order : ByteOrder) (msg : UnicastRecord)
    (hfits : msg.payload.length ≤ maxUnicastPayload) :
    ∃ wire, buildUnicastWire order msg = some wire ∧ wire.length = sizeofUnicastMsg ∧
      unicastRecv wire = some msg := by
  obtain ⟨msgType, payload⟩ := msg
  simp only [maxUnicastPayload] at hfits
  unfold buildUnicastWire
  rw [if_neg (by simp only [maxUnicastPayload]; omega)]
  refine ⟨_, rfl, ?_, ?_⟩
  · simp [maxUnicastPayload, sizeofUnicastMsg]
    omega
  · have htype : ntohs (netU16 order msgType ++ (netU16 order (.ofNat payload.length) ++
        (payload ++ List.replicate (maxUnicastPayload - payload.length) 0))) 0 = msgType := by
      apply ntohs_of_field order
      rw [field_here (length_netU16 _ _)]
    have hlen : announcedLen (netU16 order msgType ++ (netU16 order (.ofNat payload.length) ++
        (payload ++ List.replicate (maxUnicastPayload - payload.length) 0))) =
          payload.length := by
      have hfield : ntohs (netU16 order msgType ++ (netU16 order (.ofNat payload.length) ++
          (payload ++ List.replicate (maxUnicastPayload - payload.length) 0))) 2 =
            .ofNat payload.length := by
        apply ntohs_of_field order
        simp [field_behind, field_here]
      rw [announcedLen, hfield, UInt16.toNat_ofNat']
      omega
    unfold unicastRecv
    rw [hlen, if_neg (by simp only [maxUnicastPayload]; omega), htype]
    simp [field_behind, field_here]

/-- A record whose payload passes its checks as `message` is received as it. -/
theorem message_received {sender receiver : ByteOrder} {record : UnicastRecord}
    {message : UnicastMsg} (hfits : record.payload.length ≤ maxUnicastPayload)
    (hmessage : record.message receiver = message) :
    ∃ wire, buildUnicastWire sender record = some wire ∧ wire.length = sizeofUnicastMsg ∧
      (unicastRecv wire).map (UnicastRecord.message receiver) = some message := by
  obtain ⟨wire, hbuild, hlength, hrecv⟩ := unicastRecv_buildUnicastWire sender record hfits
  exact ⟨wire, hbuild, hlength, by rw [hrecv, Option.map_some, hmessage]⟩

theorem message_joinAccept (sender receiver : ByteOrder) (accept : JoinAccept) :
    UnicastRecord.message receiver ⟨2, accept.wire sender⟩ = .joinAccept accept := by
  have hheader := joinMessageHeader_fields sender 2 accept.requestId
  have hmagic : ntohl (accept.wire sender) 0 = joinMagic := (hheader _).1
  have htype : ntohs (accept.wire sender) 4 = 2 := (hheader _).2.1
  unfold UnicastRecord.message
  simp [JoinAccept.length_wire, hmagic, htype, JoinAccept.ofPayload_wire]

theorem message_joinAck (sender receiver : ByteOrder) (requestId : UInt32)
    (fromName : NodeName) :
    UnicastRecord.message receiver ⟨4, joinAckU sender requestId fromName⟩ =
      .joinAck requestId fromName := by
  obtain ⟨hlength, hid, hname⟩ := confirmationWire_fields sender requestId fromName
  unfold UnicastRecord.message joinAckU
  simp [hlength, hid, hname, sizeofJoinAckU]

theorem message_joinAckAck (sender receiver : ByteOrder) (requestId : UInt32)
    (toName : NodeName) :
    UnicastRecord.message receiver ⟨5, joinAckAckU sender requestId toName⟩ =
      .joinAckAck requestId toName := by
  obtain ⟨hlength, hid, hname⟩ := confirmationWire_fields sender requestId toName
  unfold UnicastRecord.message joinAckAckU
  simp [hlength, hid, hname, sizeofJoinAckAckU]

theorem broadcastMessage_joinRequest (sender : ByteOrder) (requestId : UInt32)
    (nodeName : NodeName) (unicastPort : UInt16) :
    broadcastMessage (broadcastSendJoinRequest sender requestId nodeName unicastPort) =
      .joinRequest ⟨requestId, nodeName, unicastPort⟩ := by
  obtain ⟨hmagic, htype, hid⟩ := joinMessageHeader_fields sender 1 requestId
    (nameBuffer nodeName ++ (netU16 sender unicastPort ++ padding))
  rw [← broadcastSendJoinRequest] at hmagic htype hid
  have hlength : (broadcastSendJoinRequest sender requestId nodeName unicastPort).length =
      sizeofJoinRequest := by
    simp [broadcastSendJoinRequest, sizeofJoinRequest]
  have hname : nameAt (broadcastSendJoinRequest sender requestId nodeName unicastPort) 12 =
      nodeName := by
    apply nameAt_of_field
    simp [broadcastSendJoinRequest, field_behind, field_here, maxNodeNameSize]
  have hport : ntohs (broadcastSendJoinRequest sender requestId nodeName unicastPort) 44 =
      unicastPort := by
    apply ntohs_of_field sender
    simp [broadcastSendJoinRequest, field_behind, field_here]
  unfold broadcastMessage
  rw [List.take_of_length_le (by rw [hlength]; decide)]
  simp [hlength, hmagic, htype, hid, hname, hport, sizeofJoinRequest, sizeofJoinMessageHeader]

theorem broadcastMessage_joinCommit (sender : ByteOrder) (requestId : UInt32)
    (newName : NodeName) (topoVersion : UInt32) :
    broadcastMessage (broadcastSendJoinCommit sender requestId newName topoVersion) =
      .joinCommit requestId newName topoVersion := by
  obtain ⟨hmagic, htype, hid⟩ := joinMessageHeader_fields sender 6 requestId
    (nameBuffer newName ++ netU32 sender topoVersion)
  rw [← broadcastSendJoinCommit] at hmagic htype hid
  have hlength : (broadcastSendJoinCommit sender requestId newName topoVersion).length =
      sizeofJoinCommit := by
    simp [broadcastSendJoinCommit, sizeofJoinCommit]
  have hname : nameAt (broadcastSendJoinCommit sender requestId newName topoVersion) 12 =
      newName := by
    apply nameAt_of_field
    simp [broadcastSendJoinCommit, field_behind, field_here, maxNodeNameSize]
  have hversion : ntohl (broadcastSendJoinCommit sender requestId newName topoVersion) 44 =
      topoVersion := by
    apply ntohl_of_field sender
    simp [broadcastSendJoinCommit, field_behind, field_whole]
  unfold broadcastMessage
  rw [List.take_of_length_le (by rw [hlength]; decide)]
  simp [hlength, hmagic, htype, hid, hname, hversion, sizeofJoinCommit,
    sizeofJoinMessageHeader]

/-- Join messages come back from their encoding, for every byte order of the two
hosts. The first two parts say that the conversions of the receiving host are
the ones the readers use. -/
theorem join_messages_survive_encoding (sender receiver : ByteOrder) :
    (∀ record offset, htonl receiver (hostU32 receiver record offset) = ntohl record offset) ∧
    (∀ record offset, htons receiver (.ofNat (natOfBytes receiver (field record offset 2))) =
      ntohs record offset) ∧
    (∀ state : RingState, ∃ wire,
      buildUnicastWire sender ⟨2, (buildJoinAcceptHost state).wire sender⟩ = some wire ∧
      wire.length = sizeofUnicastMsg ∧
      (unicastRecv wire).map (UnicastRecord.message receiver) =
        some (.joinAccept (buildJoinAcceptHost state))) ∧
    (∀ requestId fromName, ∃ wire,
      buildUnicastWire sender ⟨4, joinAckU sender requestId fromName⟩ = some wire ∧
      wire.length = sizeofUnicastMsg ∧
      (unicastRecv wire).map (UnicastRecord.message receiver) =
        some (.joinAck requestId fromName)) ∧
    (∀ requestId toName, ∃ wire,
      buildUnicastWire sender ⟨5, joinAckAckU sender requestId toName⟩ = some wire ∧
      wire.length = sizeofUnicastMsg ∧
      (unicastRecv wire).map (UnicastRecord.message receiver) =
        some (.joinAckAck requestId toName)) ∧
    (∀ requestId nodeName unicastPort,
      broadcastMessage (broadcastSendJoinRequest sender requestId nodeName unicastPort) =
        .joinRequest ⟨requestId, nodeName, unicastPort⟩) ∧
    (∀ requestId newName topoVersion,
      broadcastMessage (broadcastSendJoinCommit sender requestId newName topoVersion) =
        .joinCommit requestId newName topoVersion) := by
  refine ⟨ntohl_any_host receiver, ntohs_any_host receiver, ?_, ?_, ?_,
    broadcastMessage_joinRequest sender, broadcastMessage_joinCommit sender⟩
  · intro state
    apply message_received _ (message_joinAccept sender receiver _)
    rw [JoinAccept.length_wire]
    decide
  · intro requestId fromName
    apply message_received _ (message_joinAck sender receiver _ _)
    rw [joinAckU, (confirmationWire_fields sender requestId fromName).1]
    decide
  · intro requestId toName
    apply message_received _ (message_joinAckAck sender receiver _ _)
    rw [joinAckAckU, (confirmationWire_fields sender requestId toName).1]
    decide

end Messages

end TokenRing
