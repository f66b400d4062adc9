import TokenRing.Rudp.Tables

/-!
`rudp.c` as a machine that stops at every system call: what the call brings is
the next action, and the machine runs on to the next call. The timeouts are
left to the actions, so a wait may end at any time.
-/

namespace TokenRing

/-- A call of `rudp_sendto_with_limits` past its checks. -/
structure SendCall where
  peer : Fin 32
  dest : SockAddr
  frame : Frame
  attempts : Nat
  maxAttempts : Int

/-- A call of `rudp_recvfrom`: the length the caller asks for, and what the
frame buffer on the stack holds where no frame is written. -/
structure RecvCall where
  len : Nat
  buffer : Bytes

/-- The acknowledging loop of `rudp_recvfrom` for one message. -/
structure AckRound where
  peer : Fin 32
  source : SockAddr
  frame : Frame
  isExpected : Bool
  attempts : Nat

/-- The system call at which the machine stands. -/
inductive RudpLoc where
  | idle
  | sendFrame (call : SendCall)
  | sendWait (call : SendCall)
  | sendAckAck (call : SendCall) (sent : Nat)
  | recvFirst (call : RecvCall)
  | recvAck (call : RecvCall) (round : AckRound)
  | recvWait (call : RecvCall) (round : AckRound)
  | recvSecond (call : RecvCall)

def RudpLoc.isIdle : RudpLoc → Bool
  | .idle => true
  | _ => false

theorem RudpLoc.isIdle_iff {loc : RudpLoc} : loc.isIdle = true ↔ loc = .idle := by
  cases loc <;> simp [RudpLoc.isIdle]

/-- The process' share of the reliable UDP layer. -/
structure Endpoint where
  peers : Peers
  pending : PendingFrames
  loc : RudpLoc

def Endpoint.start : Endpoint := ⟨SlotTable.empty, SlotTable.empty, .idle⟩

/-- A call by the program, or the outcome of the system call at hand. `ok` of
an arrival is the outcome of the acknowledgement that `wait_for_frame` may send
for it. -/
inductive RudpAction where
  | send (dest : SockAddr) (payload : Bytes) (maxAttempts : Int) (allocated : Bool)
  | recv (len : Nat) (buffer : Bytes)
  | sendto (ok : Bool)
  | arrive (source : SockAddr) (datagram : Datagram) (ok : Bool)
  | timeout
  | wouldBlock
  | fail

/-- A datagram sent, or the return of a call: `sent` and `received` are the
return value 0, `nothing` is the 1 of `rudp_recvfrom`. -/
inductive RudpOutput where
  | datagram (dest : SockAddr) (frame : Frame)
  | sent (dest : SockAddr) (payload : Bytes)
  | sendFailed (dest : SockAddr)
  | received (source : SockAddr) (payload : Bytes)
  | nothing
  | recvFailed
deriving DecidableEq

def ackFrame (seqBit : UInt8) : Frame := ⟨.ack, seqBit, []⟩

def ackAckFrame (seqBit : UInt8) : Frame := ⟨.ackAck, seqBit, []⟩

/-- `memcpy(buf, message_frame->data, len)`: past the end of a short message
it reads what the buffer held before. -/
def RecvCall.copied (call : RecvCall) (frame : Frame) : Bytes :=
  (frame.data ++ call.buffer.drop frame.data.length).take call.len

namespace Endpoint

/-- One datagram in the loop of `wait_for_frame`: whether it is the frame
waited for, the buffer after it, and the acknowledgement sent for a stored
message. -/
def waitArrival (pending : PendingFrames) (expectedAddr : SockAddr) (expectedType : FrameType)
    (expectedSeq : UInt8) (source : SockAddr) (datagram : Datagram) (ok : Bool) :
    Bool × PendingFrames × List RudpOutput :=
  match datagram with
  | .short => (false, pending, [])
  | .frame frame =>
      if frame.frameType = .message then
        match pending.storeFrame source frame with
        | some stored =>
            (false, stored, if ok then [.datagram source (ackFrame frame.seqBit)] else [])
        | none => (false, pending, [])
      else if source = expectedAddr ∧ frame.frameType = expectedType ∧
          frame.seqBit = expectedSeq then
        (true, pending, [])
      else
        (false, (pending.storeFrame source frame).getD pending, [])

/-- `rudp_sendto_with_limits` up to its first `sendto`. -/
def startSend (ep : Endpoint) (dest : SockAddr) (payload : Bytes) (maxAttempts : Int)
    (allocated : Bool) : Endpoint × List RudpOutput :=
  if headerSize + payload.length > maxFrameSize then
    (ep, [.sendFailed dest])
  else
    match ep.peers.getPeer dest true with
    | none => (ep, [.sendFailed dest])
    | some (i, peers) =>
        if !allocated then
          ({ ep with peers := peers }, [.sendFailed dest])
        else
          ({ peers := peers
             pending := (ep.pending.dropPeerFrames dest .ack).dropPeerFrames dest .ackAck
             loc := .sendFrame
               { peer := i
                 dest := dest
                 frame := ⟨.message, (peers.stateAt i).sendSeqBit, payload⟩
                 attempts := 0
                 maxAttempts := maxAttempts } }, [])

/-- The frame is sent: `wait_for_frame` looks into the buffer first. -/
def frameSent (ep : Endpoint) (call : SendCall) : Endpoint :=
  match ep.pending.takeFrame call.dest .ack (ep.peers.stateAt call.peer).sendSeqBit with
  | some pending => { ep with pending := pending, loc := .sendAckAck call 0 }
  | none => { ep with loc := .sendWait call }

/-- `wait_for_frame` returned 0 to `rudp_sendto_with_limits`. -/
def sendTimeout (ep : Endpoint) (call : SendCall) : Endpoint × List RudpOutput :=
  let attempts := call.attempts + 1
  if call.maxAttempts > 0 ∧ (attempts : Int) ≥ call.maxAttempts then
    ({ ep with loc := .idle }, [.sendFailed call.dest])
  else
    ({ ep with loc := .sendFrame { call with attempts := attempts } }, [])

/-- One more `ACK_ACK` is sent; after the last one the send is complete. -/
def ackAckSent (ep : Endpoint) (call : SendCall) (sent : Nat) : Endpoint × List RudpOutput :=
  let out := [.datagram call.dest (ackAckFrame (ep.peers.stateAt call.peer).sendSeqBit)]
  if sent + 1 < maxTransmisionAttempts then
    ({ ep with loc := .sendAckAck call (sent + 1) }, out)
  else
    ({ ep with peers := ep.peers.flipSend call.peer, loc := .idle },
      out ++ [.sent call.dest call.frame.data])

/-- `rudp_recvfrom` has a message: is it the expected one? -/
def process (ep : Endpoint) (call : RecvCall) (source : SockAddr) (frame : Frame) :
    Endpoint × List RudpOutput :=
  match ep.peers.getPeer source true with
  | none => ({ ep with loc := .idle }, [.recvFailed])
  | some (i, peers) =>
      ({ ep with
          peers := peers
          loc := .recvAck call
            { peer := i
              source := source
              frame := frame
              isExpected := frame.seqBit = (peers.stateAt i).expectedSeqBit
              attempts := 0 } }, [])

/-- The first `receive_message_frame` of a round of `rudp_recvfrom`, up to its
first `recvfrom`. -/
def receiveFirst (ep : Endpoint) (call : RecvCall) : Endpoint × List RudpOutput :=
  match ep.pending.takeMessageAny with
  | some (entry, pending) => process { ep with pending := pending } call entry.addr entry.frame
  | none => ({ ep with loc := .recvFirst call }, [])

def startRecv (ep : Endpoint) (call : RecvCall) : Endpoint × List RudpOutput :=
  if headerSize + call.len > maxFrameSize then
    (ep, [.recvFailed])
  else
    ep.receiveFirst call

/-- `rudp_recvfrom` past its acknowledging loop. After a duplicate it receives
again, and the next round overwrites the frame it gets. -/
def finishRound (ep : Endpoint) (call : RecvCall) (round : AckRound) :
    Endpoint × List RudpOutput :=
  if round.isExpected then
    ({ ep with peers := ep.peers.flipExpected round.peer, loc := .idle },
      [.received round.source (call.copied round.frame)])
  else
    match ep.pending.takeMessageAny with
    | some (_, pending) => receiveFirst { ep with pending := pending } call
    | none => ({ ep with loc := .recvSecond call }, [])

/-- The `ACK` is sent: `wait_for_frame` looks into the buffer first. -/
def ackSent (ep : Endpoint) (call : RecvCall) (round : AckRound) :
    Endpoint × List RudpOutput :=
  match ep.pending.takeFrame round.source .ackAck round.frame.seqBit with
  | some pending => finishRound { ep with pending := pending } call round
  | none => ({ ep with loc := .recvWait call round }, [])

/-- `wait_for_frame` returned 0 to `rudp_recvfrom`. -/
def recvTimeout (ep : Endpoint) (call : RecvCall) (round : AckRound) :
    Endpoint × List RudpOutput :=
  let round := { round with attempts := round.attempts + 1 }
  if round.attempts < maxTransmisionAttempts then
    ({ ep with loc := .recvAck call round }, [])
  else
    finishRound ep call round

/-- One datagram read by `receive_message_frame`: a message, or a frame for
the buffer. -/
def receiveArrival (pending : PendingFrames) (source : SockAddr) (datagram : Datagram) :
    Option Frame × PendingFrames :=
  match datagram with
  | .short => (none, pending)
  | .frame frame =>
      if frame.frameType = .message then (some frame, pending)
      else (none, (pending.storeFrame source frame).getD pending)

/-- A datagram is read at the system call at hand. -/
def arrival (ep : Endpoint) (source : SockAddr) (datagram : Datagram) (ok : Bool) :
    Option (Endpoint × List RudpOutput) :=
  match ep.loc with
  | .sendWait call =>
      let (found, pending, out) := waitArrival ep.pending call.dest .ack
        (ep.peers.stateAt call.peer).sendSeqBit source datagram ok
      if found then some ({ ep with pending := pending, loc := .sendAckAck call 0 }, out)
      else some ({ ep with pending := pending }, out)
  | .recvFirst call =>
      match receiveArrival ep.pending source datagram with
      | (some frame, pending) => some (process { ep with pending := pending } call source frame)
      | (none, pending) => some ({ ep with pending := pending }, [])
  | .recvWait call round =>
      let (found, pending, out) := waitArrival ep.pending round.source .ackAck
        round.frame.seqBit source datagram ok
      if found then
        let (ep', out') := finishRound { ep with pending := pending } call round
        some (ep', out ++ out')
      else
        some ({ ep with pending := pending }, out)
  | .recvSecond call =>
      match receiveArrival ep.pending source datagram with
      | (some _, pending) => some (receiveFirst { ep with pending := pending } call)
      | (none, pending) => some ({ ep with pending := pending }, [])
  | _ => none

def step (ep : Endpoint) : RudpAction → Option (Endpoint × List RudpOutput)
  | .send dest payload maxAttempts allocated =>
      match ep.loc with
      | .idle => some (startSend ep dest payload maxAttempts allocated)
      | _ => none
  | .recv len buffer =>
      match ep.loc with
      | .idle => some (startRecv ep ⟨len, buffer⟩)
      | _ => none
  | .sendto ok =>
      match ep.loc, ok with
      | .sendFrame call, true => some (frameSent ep call, [.datagram call.dest call.frame])
      | .sendFrame call, false => some ({ ep with loc := .idle }, [.sendFailed call.dest])
      | .sendAckAck call sent, true => some (ackAckSent ep call sent)
      | .sendAckAck call _, false => some ({ ep with loc := .idle }, [.sendFailed call.dest])
      | .recvAck call round, true =>
          let (ep', out) := ackSent ep call round
          some (ep', .datagram round.source (ackFrame round.frame.seqBit) :: out)
      | .recvAck _ _, false => some ({ ep with loc := .idle }, [.recvFailed])
      | _, _ => none
  | .arrive source datagram ok => arrival ep source datagram ok
  | .timeout =>
      match ep.loc with
      | .sendWait call => some (sendTimeout ep call)
      | .recvWait call round => some (recvTimeout ep call round)
      | _ => none
  | .wouldBlock =>
      match ep.loc with
      | .recvFirst _ | .recvSecond _ => some ({ ep with loc := .idle }, [.nothing])
      | _ => none
  | .fail =>
      match ep.loc with
      | .sendWait call => some ({ ep with loc := .idle }, [.sendFailed call.dest])
      | .recvFirst _ | .recvWait _ _ => some ({ ep with loc := .idle }, [.recvFailed])
      | .recvSecond _ => some ({ ep with loc := .idle }, [.nothing])
      | _ => none

/-- What a step does: the system call at hand, and the part of the machine that
its outcome runs. -/
inductive Acts (ep : Endpoint) : RudpAction → Endpoint × List RudpOutput → Prop where
  | startSend (hloc : ep.loc = .idle) (dest : SockAddr) (payload : Bytes) (maxAttempts : Int)
      (allocated : Bool) :
      Acts ep (.send dest payload maxAttempts allocated)
        (ep.startSend dest payload maxAttempts allocated)
  | startRecv (hloc : ep.loc = .idle) (len : Nat) (buffer : Bytes) :
      Acts ep (.recv len buffer) (ep.startRecv ⟨len, buffer⟩)
  | frameSent (call : SendCall) (hloc : ep.loc = .sendFrame call) :
      Acts ep (.sendto true) (ep.frameSent call, [.datagram call.dest call.frame])
  | frameFailed (call : SendCall) (hloc : ep.loc = .sendFrame call) :
      Acts ep (.sendto false) ({ ep with loc := .idle }, [.sendFailed call.dest])
  | ackAckSent (call : SendCall) (sent : Nat) (hloc : ep.loc = .sendAckAck call sent) :
      Acts ep (.sendto true) (ep.ackAckSent call sent)
  | ackAckFailed (call : SendCall) (sent : Nat) (hloc : ep.loc = .sendAckAck call sent) :
      Acts ep (.sendto false) ({ ep with loc := .idle }, [.sendFailed call.dest])
  | ackSent (call : RecvCall) (round : AckRound) (hloc : ep.loc = .recvAck call round) :
      Acts ep (.sendto true)
        ((ep.ackSent call round).1,
          .datagram round.source (ackFrame round.frame.seqBit) :: (ep.ackSent call round).2)
  | ackFailed (call : RecvCall) (round : AckRound) (hloc : ep.loc = .recvAck call round) :
      Acts ep (.sendto false) ({ ep with loc := .idle }, [.recvFailed])
  | sendArrival (call : SendCall) (hloc : ep.loc = .sendWait call) (source : SockAddr)
      (datagram : Datagram) (ok : Bool) {result : Endpoint × List RudpOutput}
      (harrival : ep.arrival source datagram ok = some result) :
      Acts ep (.arrive source datagram ok) result
  | firstArrival (call : RecvCall) (hloc : ep.loc = .recvFirst call) (source : SockAddr)
      (datagram : Datagram) (ok : Bool) {result : Endpoint × List RudpOutput}
      (harrival : ep.arrival source datagram ok = some result) :
      Acts ep (.arrive source datagram ok) result
  | waitArrival (call : RecvCall) (round : AckRound) (hloc : ep.loc = .recvWait call round)
      (source : SockAddr) (datagram : Datagram) (ok : Bool)
      {result : Endpoint × List RudpOutput}
      (harrival : ep.arrival source datagram ok = some result) :
      Acts ep (.arrive source datagram ok) result
  | secondArrival (call : RecvCall) (hloc : ep.loc = .recvSecond call) (source : SockAddr)
      (datagram : Datagram) (ok : Bool) {result : Endpoint × List RudpOutput}
      (harrival : ep.arrival source datagram ok = some result) :
      Acts ep (.arrive source datagram ok) result
  | sendTimeout (call : SendCall) (hloc : ep.loc = .sendWait call) :
      Acts ep .timeout (ep.sendTimeout call)
  | recvTimeout (call : RecvCall) (round : AckRound) (hloc : ep.loc = .recvWait call round) :
      Acts ep .timeout (ep.recvTimeout call round)
  | firstBlocked (call : RecvCall) (hloc : ep.loc = .recvFirst call) :
      Acts ep .wouldBlock ({ ep with loc := .idle }, [.nothing])
  | secondBlocked (call : RecvCall) (hloc : ep.loc = .recvSecond call) :
      Acts ep .wouldBlock ({ ep with loc := .idle }, [.nothing])
  | sendWaitFailed (call : SendCall) (hloc : ep.loc = .sendWait call) :
      Acts ep .fail ({ ep with loc := .idle }, [.sendFailed call.dest])
  | firstFailed (call : RecvCall) (hloc : ep.loc = .recvFirst call) :
      Acts ep .fail ({ ep with loc := .idle }, [.recvFailed])
  | recvWaitFailed (call : RecvCall) (round : AckRound) (hloc : ep.loc = .recvWait call round) :
      Acts ep .fail ({ ep with loc := .idle }, [.recvFailed])
  | secondFailed (call : RecvCall) (hloc : ep.loc = .recvSecond call) :
      Acts ep .fail ({ ep with loc := .idle }, [.nothing])

theorem acts_of_step {ep : Endpoint} {action : RudpAction}
    {result : Endpoint × List RudpOutput} (h : ep.step action = some result) :
    ep.Acts action result := by
  cases action with
  | send dest payload maxAttempts allocated =>
      simp only [step] at h
      split at h
      · cases h
        exact .startSend ‹_› dest payload maxAttempts allocated
      · cases h
  | recv len buffer =>
      simp only [step] at h
      split at h
      · cases h
        exact .startRecv ‹_› len buffer
      · cases h
  | sendto ok =>
      simp only [step] at h
      split at h <;> cases h
      · exact .frameSent _ ‹_›
      · exact .frameFailed _ ‹_›
      · exact .ackAckSent _ _ ‹_›
      · exact .ackAckFailed _ _ ‹_›
      · exact .ackSent _ _ ‹_›
      · exact .ackFailed _ _ ‹_›
  | arrive source datagram ok =>
      cases hloc : ep.loc with
      | sendWait call => exact .sendArrival call hloc source datagram ok h
      | recvFirst call => exact .firstArrival call hloc source datagram ok h
      | recvWait call round => exact .waitArrival call round hloc source datagram ok h
      | recvSecond call => exact .secondArrival call hloc source datagram ok h
      | _ => simp [step, arrival, hloc] at h
  | timeout =>
      simp only [step] at h
      split at h <;> cases h
      · exact .sendTimeout _ ‹_›
      · exact .recvTimeout _ _ ‹_›
  | wouldBlock =>
      simp only [step] at h
      split at h <;> cases h
      · exact .firstBlocked _ ‹_›
      · exact .secondBlocked _ ‹_›
  | fail =>
      simp only [step] at h
      split at h <;> cases h
      · exact .sendWaitFailed _ ‹_›
      · exact .firstFailed _ ‹_›
      · exact .recvWaitFailed _ _ ‹_›
      · exact .secondFailed _ ‹_›

end Endpoint

end TokenRing
