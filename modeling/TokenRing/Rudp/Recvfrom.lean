import TokenRing.Rudp.Receiver
import TokenRing.Rudp.SequenceBits
import TokenRing.Rudp.WaitForFrame

/-!
A whole call of `rudp_recvfrom` as a function of what the network brings. Its
loop ends: a round takes a message out of the buffer or reads one from the
socket, and a wait moves messages from the socket to the buffer but makes none.
-/

namespace TokenRing

/-- The datagrams that can be read one after the other. Then the time of a wait
is over and nothing is queued for a receive, or the system call fails. -/
structure Burst where
  arrivals : List (SockAddr × Datagram)
  fails : Bool

/-- What the system calls of a call bring: bursts, after which nothing arrives
any more, and the outcomes of `sendto`, which succeeds after the last one. -/
structure Traffic where
  bursts : List Burst
  sends : List Bool

namespace Traffic

def arrivals (traffic : Traffic) : List (SockAddr × Datagram) :=
  traffic.bursts.flatMap Burst.arrivals

/-- The number of messages that arrive. -/
def messages (traffic : Traffic) : Nat := (traffic.arrivals.filterMap readMessage).length

/-- What the next wait or receive finds. -/
def burst (traffic : Traffic) : Burst := traffic.bursts.headD ⟨[], false⟩

/-- The wait or receive came to the end of the burst. -/
def quiet (traffic : Traffic) : Traffic := { traffic with bursts := traffic.bursts.tail }

/-- It ended before these datagrams of the burst were read. -/
def unread (traffic : Traffic) (rest : List (SockAddr × Datagram)) : Traffic :=
  { traffic with bursts := ⟨rest, traffic.burst.fails⟩ :: traffic.bursts.tail }

/-- A `sendto` was made. -/
def sent (traffic : Traffic) : Traffic := { traffic with sends := traffic.sends.tail }

end Traffic

/-- The return value of `wait_for_frame`: 1, 0 or -1. -/
inductive WaitResult where
  | received
  | timeout
  | failed

/-- The return value of `receive_message_frame`: 0 with the frame and its
source, 1 or -1. -/
inductive FrameResult where
  | message (entry : PendingFrame)
  | nothing
  | failed

namespace PendingFrames

/-- `wait_for_frame`. -/
def awaitFrame (pending : PendingFrames) (expectedAddr : SockAddr) (expectedType : FrameType)
    (expectedSeq : UInt8) (traffic : Traffic) : WaitResult × PendingFrames × Traffic :=
  let run := pending.waitForFrame expectedAddr expectedType expectedSeq traffic.burst.arrivals
  if run.returned.isSome then
    (.received, run.pending, traffic.unread run.unread)
  else
    (if traffic.burst.fails then .failed else .timeout, run.pending, traffic.quiet)

/-- The loop of `receive_message_frame`, up to a message or the end of the
burst. -/
def receiveLoop : List (SockAddr × Datagram) → PendingFrames →
    Option PendingFrame × PendingFrames × List (SockAddr × Datagram)
  | [], pending => (none, pending, [])
  | arrival :: rest, pending =>
      match Endpoint.receiveArrival pending arrival.1 arrival.2.cut with
      | (some frame, pending') => (some ⟨arrival.1, frame⟩, pending', rest)
      | (none, pending') => receiveLoop rest pending'

/-- `receive_message_frame`. -/
def receiveMessageFrame (pending : PendingFrames) (traffic : Traffic) :
    FrameResult × PendingFrames × Traffic :=
  match pending.takeMessageAny with
  | some (entry, pending') => (.message entry, pending', traffic)
  | none =>
      match receiveLoop traffic.burst.arrivals pending with
      | (some entry, pending', rest) => (.message entry, pending', traffic.unread rest)
      | (none, pending', _) =>
          (if traffic.burst.fails then .failed else .nothing, pending', traffic.quiet)

/-- The acknowledging loop of `rudp_recvfrom` with so many attempts left:
`false` when a system call fails, which is the return value -1. -/
def ackLoop (pending : PendingFrames) (source : SockAddr) (seqBit : UInt8) :
    Nat → Traffic → Bool × PendingFrames × Traffic
  | 0, traffic => (true, pending, traffic)
  | left + 1, traffic =>
      if traffic.sends.headD true then
        match pending.awaitFrame source .ackAck seqBit traffic.sent with
        | (.received, pending', traffic') => (true, pending', traffic')
        | (.timeout, pending', traffic') => ackLoop pending' source seqBit left traffic'
        | (.failed, pending', traffic') => (false, pending', traffic')
      else
        (false, pending, traffic.sent)

end PendingFrames

/-- The return of `rudp_recvfrom`, with the two tables and what is left of the
network's share. -/
structure RecvReturn where
  output : RudpOutput
  peers : Peers
  pending : PendingFrames
  traffic : Traffic

/-- How a round of the outer loop ends. -/
inductive RoundEnd where
  | returns (ret : RecvReturn)
  | again (peers : Peers) (pending : PendingFrames) (traffic : Traffic)

/-- One round of the outer loop of `rudp_recvfrom`. The frame that the second
receive gets is overwritten in the next round. -/
def recvRound (call : RecvCall) (peers : Peers) (pending : PendingFrames) (traffic : Traffic) :
    RoundEnd :=
  match pending.receiveMessageFrame traffic with
  | (.nothing, pending, traffic) => .returns ⟨.nothing, peers, pending, traffic⟩
  | (.failed, pending, traffic) => .returns ⟨.recvFailed, peers, pending, traffic⟩
  | (.message entry, pending, traffic) =>
      match peers.getPeer entry.addr true with
      | none => .returns ⟨.recvFailed, peers, pending, traffic⟩
      | some (i, peers) =>
          let seqBit := entry.frame.seqBit
          let isExpected : Bool := seqBit = (peers.stateAt i).expectedSeqBit
          match pending.ackLoop entry.addr seqBit maxTransmisionAttempts traffic with
          | (false, pending, traffic) => .returns ⟨.recvFailed, peers, pending, traffic⟩
          | (true, pending, traffic) =>
              if isExpected then
                .returns ⟨.received entry.addr (call.copied entry.frame), peers.flipExpected i,
                  pending, traffic⟩
              else
                match pending.receiveMessageFrame traffic with
                | (.message _, pending, traffic) => .again peers pending traffic
                | (_, pending, traffic) => .returns ⟨.nothing, peers, pending, traffic⟩

/-- The outer loop: `none` when the call has not returned after so many
rounds. -/
def recvLoop (call : RecvCall) : Nat → Peers → PendingFrames → Traffic → Option RecvReturn
  | 0, _, _, _ => none
  | rounds + 1, peers, pending, traffic =>
      match recvRound call peers pending traffic with
      | .returns ret => some ret
      | .again peers pending traffic => recvLoop call rounds peers pending traffic

/-- `rudp_recvfrom`. -/
def rudpRecvfrom (rounds : Nat) (call : RecvCall) (peers : Peers) (pending : PendingFrames)
    (traffic : Traffic) : Option RecvReturn :=
  if headerSize + call.len > maxFrameSize then
    some ⟨.recvFailed, peers, pending, traffic⟩
  else
    recvLoop call rounds peers pending traffic

/-- The messages that a call may still come to: those in the buffer and those
that arrive. -/
def messagesLeft (pending : PendingFrames) (traffic : Traffic) : Nat :=
  pending.messages.used.card + traffic.messages

section Measure

variable {pending pending' : PendingFrames} {traffic traffic' : Traffic}

theorem Traffic.messages_eq (traffic : Traffic) :
    traffic.messages =
      (traffic.burst.arrivals.filterMap readMessage).length + traffic.quiet.messages := by
  unfold Traffic.messages Traffic.arrivals Traffic.burst Traffic.quiet
  cases traffic.bursts with
  | nil => rfl
  | cons burst later => simp

theorem Traffic.messages_unread (traffic : Traffic) (rest : List (SockAddr × Datagram)) :
    (traffic.unread rest).messages =
      (rest.filterMap readMessage).length + traffic.quiet.messages := by
  simp [Traffic.messages, Traffic.arrivals, Traffic.unread, Traffic.quiet]

/-- Of the messages that a wait reads, no more than that are stored. -/
theorem Conserves.card_le {expectedAddr : SockAddr} {expectedType : FrameType}
    {expectedSeq : UInt8} {consumed : List (SockAddr × Datagram)} {run : WaitRun}
    (h : Conserves pending expectedAddr expectedType expectedSeq consumed run) :
    run.pending.messages.used.card ≤
      pending.messages.used.card + (consumed.filterMap readMessage).length := by
  have hstored : (run.reads.filter (fun read => read.acks ≠ [])).length ≤
      (consumed.filterMap readMessage).length := by
    rw [← h.reads, List.length_map]
    exact List.length_filter_le _ _
  rw [← SlotTable.card_bag, ← SlotTable.card_bag, h.messages, Multiset.card_add,
    Multiset.coe_card, List.length_map]
  omega

/-- A wait makes no messages. -/
theorem messagesLeft_awaitFrame {expectedAddr : SockAddr} {expectedType : FrameType}
    {expectedSeq : UInt8} {result : WaitResult} (hcontrol : expectedType ≠ .message)
    (h : pending.awaitFrame expectedAddr expectedType expectedSeq traffic =
      (result, pending', traffic')) :
    messagesLeft pending' traffic' ≤ messagesLeft pending traffic := by
  obtain ⟨consumed, hsplit, hconserves⟩ : ∃ consumed, traffic.burst.arrivals = consumed ++
      (pending.waitForFrame expectedAddr expectedType expectedSeq traffic.burst.arrivals).unread ∧
      Conserves pending expectedAddr expectedType expectedSeq consumed
        (pending.waitForFrame expectedAddr expectedType expectedSeq traffic.burst.arrivals) := by
    unfold PendingFrames.waitForFrame
    cases htake : pending.takeFrame expectedAddr expectedType expectedSeq with
    | some taken => exact ⟨[], rfl, conserves_takeFrame hcontrol htake _⟩
    | none => exact (waitLoop_conserves expectedAddr expectedType expectedSeq _ pending).2
  have hcard := hconserves.card_le
  have hread := congrArg (fun arrivals => (arrivals.filterMap readMessage).length) hsplit
  simp only [List.filterMap_append, List.length_append] at hread
  have hmessages := traffic.messages_eq
  unfold PendingFrames.awaitFrame at h
  simp only at h
  unfold messagesLeft
  split at h <;> cases h
  · rw [Traffic.messages_unread]
    omega
  · omega

/-- One datagram read by `receive_message_frame` leaves the messages in the
buffer as they are. -/
theorem receiveArrival_read (pending : PendingFrames) (arrival : SockAddr × Datagram) :
    ∃ pending', Endpoint.receiveArrival pending arrival.1 arrival.2.cut =
      ((readMessage arrival).map PendingFrame.frame, pending') ∧
        pending'.messages = pending.messages := by
  obtain ⟨source, datagram⟩ := arrival
  unfold readMessage readEntry
  simp only
  cases datagram.cut with
  | short => exact ⟨pending, rfl, rfl⟩
  | frame frame =>
      by_cases hmessage : frame.frameType = .message
      · refine ⟨pending, ?_, rfl⟩
        simp [Endpoint.receiveArrival, Datagram.entryFrom, PendingFrame.isMessage, hmessage]
      · refine ⟨(pending.storeFrame source frame).getD pending, ?_,
          storeFrame_getD_messages hmessage⟩
        simp [Endpoint.receiveArrival, Datagram.entryFrom, PendingFrame.isMessage, hmessage]

/-- The loop of `receive_message_frame` ends at the first message. -/
theorem receiveLoop_read (arrivals : List (SockAddr × Datagram)) (pending : PendingFrames)
    {found : Option PendingFrame} {rest : List (SockAddr × Datagram)}
    (h : PendingFrames.receiveLoop arrivals pending = (found, pending', rest)) :
    pending'.messages = pending.messages ∧
      (arrivals.filterMap readMessage).length =
        found.toList.length + (rest.filterMap readMessage).length := by
  induction arrivals generalizing pending with
  | nil =>
      cases h
      exact ⟨rfl, rfl⟩
  | cons arrival later ih =>
      obtain ⟨stored, hread, hsame⟩ := receiveArrival_read pending arrival
      unfold PendingFrames.receiveLoop at h
      rw [hread] at h
      cases hmessage : readMessage arrival with
      | some entry =>
          rw [hmessage] at h
          cases h
          refine ⟨hsame, ?_⟩
          rw [List.filterMap_cons_some hmessage, List.length_cons]
          exact Nat.add_comm _ _
      | none =>
          rw [hmessage] at h
          obtain ⟨hkept, hlength⟩ := ih stored h
          rw [List.filterMap_cons_none hmessage]
          exact ⟨hkept.trans hsame, hlength⟩

/-- A receive takes one message, out of the buffer or from the socket. -/
theorem messagesLeft_receive {entry : PendingFrame}
    (h : pending.receiveMessageFrame traffic = (.message entry, pending', traffic')) :
    messagesLeft pending' traffic' + 1 = messagesLeft pending traffic := by
  unfold PendingFrames.receiveMessageFrame at h
  unfold messagesLeft
  split at h
  · rename_i taken rest htake
    cases h
    have hcard := PendingFrames.takeMessageAny_card htake
    omega
  · split at h
    · rename_i found stored rest hloop
      cases h
      obtain ⟨hsame, hlength⟩ := receiveLoop_read traffic.burst.arrivals pending hloop
      have hmessages := traffic.messages_eq
      rw [hsame, Traffic.messages_unread]
      simp only [Option.toList_some, List.length_singleton] at hlength
      omega
    · rename_i stored rest hloop
      split at h <;> cases h

theorem messagesLeft_ackLoop {source : SockAddr} {seqBit : UInt8} (left : Nat) {acked : Bool}
    (h : pending.ackLoop source seqBit left traffic = (acked, pending', traffic')) :
    messagesLeft pending' traffic' ≤ messagesLeft pending traffic := by
  have hcontrol : FrameType.ackAck ≠ .message := nofun
  induction left generalizing pending traffic with
  | zero =>
      cases h
      exact le_rfl
  | succ left ih =>
      have hsent : messagesLeft pending traffic.sent = messagesLeft pending traffic := rfl
      rw [← hsent]
      unfold PendingFrames.ackLoop at h
      split at h
      · split at h
        · rename_i hwait
          cases h
          exact messagesLeft_awaitFrame hcontrol hwait
        · rename_i hwait
          exact (ih h).trans (messagesLeft_awaitFrame hcontrol hwait)
        · rename_i hwait
          cases h
          exact messagesLeft_awaitFrame hcontrol hwait
      · cases h
        exact le_rfl

/-- A round that is not the last one takes two messages. -/
theorem messagesLeft_again {call : RecvCall} {peers peers' : Peers}
    (h : recvRound call peers pending traffic = .again peers' pending' traffic') :
    messagesLeft pending' traffic' + 2 ≤ messagesLeft pending traffic := by
  unfold recvRound at h
  split at h
  · cases h
  · cases h
  rename_i entry pending₁ traffic₁ hfirst
  have htaken := messagesLeft_receive hfirst
  split at h
  · cases h
  simp only at h
  split at h
  · cases h
  rename_i pending₂ traffic₂ hloop
  have hwaited := messagesLeft_ackLoop maxTransmisionAttempts hloop
  split at h
  · cases h
  split at h
  · rename_i hsecond
    cases h
    have hagain := messagesLeft_receive hsecond
    omega
  · cases h

theorem recvLoop_returns (call : RecvCall) (rounds : Nat) (peers : Peers)
    (pending : PendingFrames) (traffic : Traffic) (hless : messagesLeft pending traffic < rounds) :
    ∃ ret, ∀ extra, recvLoop call (rounds + extra) peers pending traffic = some ret := by
  induction rounds generalizing peers pending traffic with
  | zero => exact absurd hless (Nat.not_lt_zero _)
  | succ rounds ih =>
      simp only [Nat.succ_add, recvLoop]
      cases hround : recvRound call peers pending traffic with
      | returns ret => exact ⟨ret, fun _ => rfl⟩
      | again peers' pending' traffic' =>
          have htaken := messagesLeft_again hround
          exact ih peers' pending' traffic' (by omega)

/-- Whatever the tables hold and the network brings, the call returns within one
round more than there are messages in the buffer and among the datagrams. -/
theorem rudp_recvfrom_returns (call : RecvCall) (peers : Peers) (pending : PendingFrames)
    (traffic : Traffic) :
    ∃ ret, ∀ extra, rudpRecvfrom (pending.messages.used.card + traffic.messages + 1 + extra) call
      peers pending traffic = some ret := by
  unfold rudpRecvfrom
  split
  · exact ⟨_, fun _ => rfl⟩
  · exact recvLoop_returns call _ peers pending traffic (Nat.lt_succ_self _)

end Measure

end TokenRing
