import TokenRing.Encoding
import TokenRing.Rudp.SendContract

/-!
The token as bytes, down to the RUDP frame. Neither the version of the token nor
the header of a frame is converted, so two hosts of one byte order understand
each other, and two hosts of different orders agree on everything of a token but
its version, and on no acknowledgement.
-/

namespace TokenRing

/-- What stands in the padding of a struct. -/
abbrev Slack := Fin 3 → UInt8

/-- A `token_t` as `ring_on_token` copies it into its payload. -/
def Token.payload (order : ByteOrder) (slack : Slack) (token : Token) : Bytes :=
  (token.data ++ List.replicate (maxDataSize - token.data.length) 0) ++
    (nameBuffer token.sender ++ (nameBuffer token.receiver ++
      (bytesOf order 4 token.topoVersion.toNat ++
        ([if token.isEmpty then 1 else 0] ++ List.ofFn slack))))

/-- The value of a `frame_type_t`. -/
def FrameType.code : FrameType → UInt32
  | .message => 0
  | .ack => 1
  | .ackAck => 2
  | .other code => code.val

/-- A `frame_t` as it is given to `sendto`. -/
def Frame.bytes (order : ByteOrder) (slack : Slack) (frame : Frame) : Bytes :=
  bytesOf order 4 frame.frameType.code.toNat ++
    ([frame.seqBit] ++ (List.ofFn slack ++ frame.data))

/-- A `uint32_t` that one host has written and another one reads, both in their
own byte order. -/
def crossed (sender receiver : ByteOrder) (value : UInt32) : UInt32 :=
  .ofNat (natOfBytes receiver (bytesOf sender 4 value.toNat))

section Numbers

variable {sender receiver : ByteOrder}

theorem crossed_same (order : ByteOrder) (value : UInt32) : crossed order order value = value := by
  apply UInt32.toNat_inj.mp
  rw [crossed, natOfBytes_bytesOf, UInt32.toNat_ofNat']
  have hsmall := value.toNat_lt
  omega

theorem crossed_of_ne (h : sender ≠ receiver) (value : UInt32) :
    crossed sender receiver value = htonl .little value := by
  unfold crossed htonl
  cases sender <;> cases receiver
  · exact absurd rfl h
  · rfl
  · rw [natOfBytes_big, natOfBytes_little]
    rfl
  · exact absurd rfl h

theorem crossed_eq (sender receiver : ByteOrder) (value : UInt32) :
    crossed sender receiver value =
      if sender = receiver then value else htonl .little value := by
  split
  · rename_i heq
    rw [heq, crossed_same]
  · exact crossed_of_ne ‹_› value

/-- The one byte of a field of size one. -/
theorem getD_of_field {record : Bytes} {offset : Nat} {b : UInt8}
    (h : field record offset 1 = [b]) : record.getD offset 0 = b := by
  simpa [field, ByteFields.slice] using h

theorem hostU32_of_field {record : Bytes} {offset : Nat} {value : UInt32}
    (h : field record offset 4 = bytesOf sender 4 value.toNat) :
    hostU32 receiver record offset = crossed sender receiver value := by
  rw [hostU32, h, crossed]

end Numbers

section Frames

variable {sender receiver : ByteOrder}

@[simp] theorem FrameType.ofCode_code (frameType : FrameType) :
    FrameType.ofCode frameType.code = frameType := by
  cases frameType with
  | message => rfl
  | ack => rfl
  | ackAck => rfl
  | other code =>
      obtain ⟨value, hvalue⟩ := code
      have hzero : value ≠ 0 := by rintro rfl; exact absurd hvalue (by decide)
      have hone : value ≠ 1 := by rintro rfl; exact absurd hvalue (by decide)
      simp [FrameType.code, FrameType.ofCode, hzero, hone, hvalue]

/-- A frame that fits keeps its bit and its data; its type is read in the byte
order of the receiver. -/
theorem Datagram.ofBytes_bytes (sender receiver : ByteOrder) (slack : Slack) {frame : Frame}
    (hfits : frame.len ≤ maxFrameSize) :
    Datagram.ofBytes receiver (frame.bytes sender slack) =
      .frame ⟨.ofCode (crossed sender receiver frame.frameType.code), frame.seqBit,
        frame.data⟩ := by
  have hlength : (frame.bytes sender slack).length = frame.len := by
    simp [Frame.bytes, Frame.len, headerSize]
    omega
  have htype : hostU32 receiver (frame.bytes sender slack) 0 =
      crossed sender receiver frame.frameType.code := by
    apply hostU32_of_field
    rw [Frame.bytes, field_here (length_bytesOf _ _ _)]
  have hbit : (frame.bytes sender slack).getD 4 0 = frame.seqBit := by
    apply getD_of_field
    rw [Frame.bytes, field_behind (length_bytesOf _ _ _).le, length_bytesOf]
    exact field_here rfl
  have hdata : (frame.bytes sender slack).drop headerSize = frame.data := by
    unfold Frame.bytes
    rw [← List.append_assoc, ← List.append_assoc, List.drop_left']
    simp [headerSize]
  unfold Datagram.ofBytes
  rw [List.take_of_length_le (hlength ▸ hfits)]
  simp only
  rw [if_neg (by rw [hlength, Frame.len]; omega), htype, hbit, hdata]

/-- A control frame of a host of the other byte order is of no type that the
receiver knows. -/
theorem Datagram.ofBytes_control (h : sender ≠ receiver) (slack : Slack) {frame : Frame}
    (hcontrol : frame.frameType = .ack ∨ frame.frameType = .ackAck)
    (hfits : frame.len ≤ maxFrameSize) :
    ∃ code, Datagram.ofBytes receiver (frame.bytes sender slack) =
      .frame ⟨.other code, frame.seqBit, frame.data⟩ := by
  rw [Datagram.ofBytes_bytes sender receiver slack hfits, crossed_of_ne h]
  rcases hcontrol with hack | hackAck
  · rw [hack]
    exact ⟨⟨16777216, by decide⟩, rfl⟩
  · rw [hackAck]
    exact ⟨⟨33554432, by decide⟩, rfl⟩

theorem Datagram.ofBytes_message (sender receiver : ByteOrder) (slack : Slack) {frame : Frame}
    (hmessage : frame.frameType = .message) (hfits : frame.len ≤ maxFrameSize) :
    Datagram.ofBytes receiver (frame.bytes sender slack) = .frame frame := by
  have hzero : crossed sender receiver 0 = 0 := by
    cases sender <;> cases receiver <;> rfl
  rw [Datagram.ofBytes_bytes sender receiver slack hfits, hmessage]
  change Datagram.frame ⟨.ofCode (crossed sender receiver 0), frame.seqBit, frame.data⟩ = _
  rw [hzero]
  obtain ⟨frameType, seqBit, data⟩ := frame
  cases hmessage
  rfl

end Frames

section Tokens

variable {sender receiver : ByteOrder}

theorem Token.length_payload (order : ByteOrder) (slack : Slack) {token : Token}
    (hdata : token.data.length ≤ maxDataSize) :
    (token.payload order slack).length = sizeofToken := by
  simp only [maxDataSize] at hdata
  simp [Token.payload, maxDataSize, sizeofToken]
  omega

/-- The token that a payload holds is the one that was written, but for a
version that was written in the other byte order. -/
theorem Token.ofPayload_payload (sender receiver : ByteOrder) (slack : Slack) {token : Token}
    (hdata : token.data.length ≤ maxDataSize) (hnul : ∀ c ∈ token.data, c ≠ 0) :
    Token.ofPayload receiver (token.payload sender slack) =
      { token with topoVersion := crossed sender receiver token.topoVersion } := by
  obtain ⟨data, senderName, receiverName, topoVersion, isEmpty⟩ := token
  simp only at hdata hnul
  have hbuffer : (data ++ List.replicate (maxDataSize - data.length) 0).length = 256 := by
    simp only [maxDataSize] at hdata
    simp [maxDataSize]
    omega
  have hchars : (data ++ List.replicate (maxDataSize - data.length) 0).takeWhile (· != 0) =
      data := by
    rw [List.takeWhile_append_of_pos (fun c hc => by simpa using hnul c hc)]
    cases maxDataSize - data.length <;> simp [List.replicate_succ]
  unfold Token.ofPayload Token.payload
  rw [Token.mk.injEq]
  simp only
  refine ⟨?_, nameAt_of_field ?_, nameAt_of_field ?_, hostU32_of_field ?_, ?_⟩
  · have hfield : maxDataSize = 256 := rfl
    rw [hfield, field_here (by rw [← hfield]; exact hbuffer), ← hfield, hchars]
  · rw [field_behind hbuffer.le, hbuffer]
    exact field_here (length_nameBuffer _)
  · rw [field_behind (by omega), hbuffer, field_behind (by simp [length_nameBuffer]),
      length_nameBuffer]
    exact field_here (length_nameBuffer _)
  · rw [field_behind (by omega), hbuffer]
    simp [field_behind, field_here]
  · have hflag : List.getD ((data ++ List.replicate (maxDataSize - data.length) 0) ++
        (nameBuffer senderName ++ (nameBuffer receiverName ++
          (bytesOf sender 4 topoVersion.toNat ++
            ([if isEmpty then 1 else 0] ++ List.ofFn slack))))) 324 0 =
        if isEmpty then 1 else 0 := by
      apply getD_of_field
      rw [field_behind (by omega), hbuffer]
      rw [field_behind (by simp), length_nameBuffer, field_behind (by simp), length_nameBuffer,
        field_behind (by simp), length_bytesOf]
      exact field_here rfl
    rw [hflag]
    cases isEmpty <;> rfl

theorem message_token (sender receiver : ByteOrder) (slack : Slack) {token : Token}
    (hdata : token.data.length ≤ maxDataSize) (hnul : ∀ c ∈ token.data, c ≠ 0) :
    UnicastRecord.message receiver ⟨1, token.payload sender slack⟩ =
      .token { token with topoVersion := crossed sender receiver token.topoVersion } := by
  unfold UnicastRecord.message
  simp [Token.length_payload sender slack hdata,
    Token.ofPayload_payload sender receiver slack hdata hnul]

/-- A token goes through payload, record and frame, and comes out of
`rudp_recvfrom` and `unicast_recv` as the token that was sent; between hosts of
different byte orders its version has its bytes reversed. -/
theorem token_crosses_the_wire (sender receiver : ByteOrder) (slack slack' : Slack)
    (seqBit : UInt8) (buffer : Bytes) (token : Token) (hdata : token.data.length ≤ maxDataSize)
    (hnul : ∀ c ∈ token.data, c ≠ 0) :
    ∃ wire, buildUnicastWire sender ⟨1, token.payload sender slack⟩ = some wire ∧
      Datagram.ofBytes receiver (Frame.bytes sender slack' ⟨.message, seqBit, wire⟩) =
        .frame ⟨.message, seqBit, wire⟩ ∧
      (unicastRecv (RecvCall.copied ⟨sizeofUnicastMsg, buffer⟩ ⟨.message, seqBit, wire⟩)).map
        (UnicastRecord.message receiver) =
        some (.token { token with
          topoVersion := if sender = receiver then token.topoVersion
            else htonl .little token.topoVersion }) := by
  have hfits : (token.payload sender slack).length ≤ maxUnicastPayload := by
    rw [Token.length_payload sender slack hdata]
    decide
  obtain ⟨wire, hbuild, hlength, hrecv⟩ := @message_received sender receiver _ _ hfits
    (message_token sender receiver slack hdata hnul)
  refine ⟨wire, hbuild, Datagram.ofBytes_message sender receiver slack' rfl ?_, ?_⟩
  · rw [Frame.len, hlength]
    decide
  · have hwhole : RecvCall.copied ⟨sizeofUnicastMsg, buffer⟩ ⟨.message, seqBit, wire⟩ = wire := by
      unfold RecvCall.copied
      rw [List.take_left' hlength]
    rw [hwhole, hrecv, crossed_eq]

/-- A token with a name of the full length and a version that reads differently
from the other end. -/
theorem full_token_crosses :
    ∃ wire, buildUnicastWire .little ⟨1, Token.payload .little (fun _ => 0)
        ⟨[104, 105], NodeName.ofBytes (List.replicate 40 65), NodeName.ofBytes [66], 1, false⟩⟩ =
          some wire ∧
      Datagram.ofBytes .big (Frame.bytes .little (fun _ => 7) ⟨.message, 1, wire⟩) =
        .frame ⟨.message, 1, wire⟩ ∧
      (unicastRecv (RecvCall.copied ⟨sizeofUnicastMsg, []⟩ ⟨.message, 1, wire⟩)).map
        (UnicastRecord.message .big) =
        some (.token ⟨[104, 105], NodeName.ofBytes (List.replicate 40 65), NodeName.ofBytes [66],
          16777216, false⟩) :=
  token_crosses_the_wire .little .big (fun _ => 0) (fun _ => 7) 1 []
    ⟨[104, 105], NodeName.ofBytes (List.replicate 40 65), NodeName.ofBytes [66], 1, false⟩
    (by decide) (by simp)

end Tokens

section MixedHosts

/-- What arrives from this peer is a frame that its RUDP layer has sent, read in
the byte order of the receiver. -/
def RudpAction.FromHost (dest : SockAddr) (sender receiver : ByteOrder) : RudpAction → Prop
  | .arrive source datagram _ => source = dest →
      ∃ (slack : Slack) (frame : Frame), frame.len ≤ maxFrameSize ∧
      (frame.frameType = .message ∨ frame.frameType = .ack ∨ frame.frameType = .ackAck) ∧
      datagram = Datagram.ofBytes receiver (frame.bytes sender slack)
  | _ => True

variable {dest : SockAddr} {sender receiver : ByteOrder}

theorem RudpAction.FromHost.not_brings {action : RudpAction}
    (h : action.FromHost dest sender receiver) (hne : sender ≠ receiver) (seqBit : UInt8) :
    action.brings dest seqBit = false := by
  cases action with
  | arrive source datagram ok =>
      by_cases hsource : source = dest
      · obtain ⟨slack, frame, hfits, hsent, rfl⟩ := h hsource
        rcases hsent with hmessage | hcontrol
        · rw [Datagram.ofBytes_message sender receiver slack hmessage hfits]
          simp [RudpAction.brings, hmessage]
        · obtain ⟨code, heq⟩ := Datagram.ofBytes_control hne slack hcontrol hfits
          rw [heq]
          simp [RudpAction.brings]
      · cases datagram with
        | short => rfl
        | frame frame => simp [RudpAction.brings, hsource]
  | _ => rfl

/-- No call of `rudp_sendto_with_limits` to a host of the other byte order
returns 0: the acknowledgements of the peer are not understood. Without a limit
of attempts, as the token is sent, the call never returns unless a system call
fails. -/
theorem mixed_hosts_never_acknowledge (ep : Endpoint) {ep' : Endpoint} {payload : Bytes}
    {maxAttempts : Int} {out : List RudpOutput} (hidle : ep.loc = .idle)
    (hstart : ep.startSend dest payload maxAttempts true = (ep', out))
    (hchecked : ep'.loc.isIdle = false) (hne : sender ≠ receiver) {run : Endpoint × SendLog}
    (h : Lts.Reaches (Lts.logged Endpoint.sendStep)
      (fun _ action => action.FromHost dest sender receiver) (ep', []) run) :
    (∀ peer data, .sent peer data ∉ run.2.returns) ∧
      (maxAttempts ≤ 0 → run.2.failed = false → run.1.loc.isIdle = false) := by
  have hunheard : ∀ seqBit, run.2.heard dest seqBit = false := by
    intro seqBit
    refine h.invariant (fun run => SendLog.heard run.2 dest seqBit = false) rfl ?_
    intro run action run' hbefore hhost hstep
    obtain ⟨result, hresult, rfl⟩ := Option.map_eq_some_iff.mp hstep
    unfold Endpoint.sendStep at hresult
    split at hresult
    · cases hresult
    · obtain ⟨next, _, rfl⟩ := Option.map_eq_some_iff.mp hresult
      have hnot := RudpAction.FromHost.not_brings hhost hne seqBit
      simp only [SendLog.heard, List.any_append] at hbefore ⊢
      rw [hbefore]
      simp [hnot]
  obtain ⟨sent, ackAcks, _, _, _, _, _, _, _, hcases⟩ :=
    (SendProgress.of_reachable hidle hstart hchecked (h.weaken fun _ _ _ => trivial)).contract
  rw [hunheard] at hcases
  constructor
  · intro peer data hmem
    rcases hcases with ⟨hreturns, _⟩ | ⟨_, _, _, hheard, _⟩ | ⟨hreturns, _⟩
    · rw [hreturns] at hmem
      cases hmem
    · cases hheard
    · rw [hreturns] at hmem
      simp at hmem
  · intro hunlimited hunbroken
    rcases hcases with ⟨_, hrunning, _⟩ | ⟨_, _, _, hheard, _⟩ | ⟨_, _, hover⟩
    · exact hrunning
    · cases hheard
    · rw [hunbroken] at hover
      rcases hover with hbroken | ⟨_, _, hpos, _⟩
      · cases hbroken
      · omega

/-- The acknowledgement that a big-endian host sends, as a little-endian one
reads it. -/
def bigEndianAck : RudpAction :=
  .arrive ⟨2, 5002, 2⟩
    (Datagram.ofBytes .little (Frame.bytes .big (fun _ => 0) (ackFrame 0))) true

theorem bigEndianAck_fromHost : bigEndianAck.FromHost ⟨2, 5002, 2⟩ .big .little :=
  fun _ => ⟨fun _ => 0, ackFrame 0, by decide, .inr (.inl rfl), rfl⟩

/-- It arrives in both waits, and the call goes on. -/
theorem big_endian_ack_unheard :
    ∃ run : Endpoint × SendLog, run.2.length = 5 ∧ run.1.loc.isIdle = false ∧
      ∀ peer data, .sent peer data ∉ run.2.returns := by
  have hrun : (Lts.exec (Lts.logged Endpoint.sendStep)
      ((Endpoint.start.startSend ⟨2, 5002, 2⟩ [1, 2] 0 true).1, [])
      [.sendto true, bigEndianAck, .timeout, .sendto true, bigEndianAck]).map
      (fun run => (run.2.length, SendLog.failed run.2)) = some (5, false) := by
    decide +kernel
  obtain ⟨run, hexec, hvalues⟩ := Option.map_eq_some_iff.mp hrun
  obtain ⟨hlength, hunbroken⟩ := Prod.mk.inj hvalues
  have hhost : ∀ action ∈ [.sendto true, bigEndianAck, .timeout, .sendto true, bigEndianAck],
      action.FromHost ⟨2, 5002, 2⟩ .big .little := by
    intro action hmem
    simp only [List.mem_cons, List.not_mem_nil, or_false] at hmem
    rcases hmem with rfl | rfl | rfl | rfl | rfl
    · trivial
    · exact bigEndianAck_fromHost
    · trivial
    · trivial
    · exact bigEndianAck_fromHost
  have hstart : Endpoint.start.startSend ⟨2, 5002, 2⟩ [1, 2] 0 true =
      ((Endpoint.start.startSend ⟨2, 5002, 2⟩ [1, 2] 0 true).1, []) := rfl
  have hresult := mixed_hosts_never_acknowledge Endpoint.start rfl hstart (by decide)
    (by decide : ByteOrder.big ≠ .little)
    (Lts.reaches_of_exec (fun action hmem _ => hhost action hmem) hexec)
  exact ⟨run, hlength, hresult.2 le_rfl hunbroken, hresult.1⟩

end MixedHosts

end TokenRing
