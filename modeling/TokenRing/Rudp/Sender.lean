import TokenRing.Rudp.Link

/-!
The sending side. A sends to B only, so it is idle or at one of the system
calls of a send.
-/

namespace TokenRing

/-- A has the acknowledgement of the message it sends. -/
def RudpLoc.acked : RudpLoc → Bool
  | .sendAckAck _ _ => true
  | _ => false

/-- The send of the message with this number. -/
structure Sending (link : Link) (count : Nat) (peers : Peers) (call : SendCall) : Prop where
  slot : peers.slotOf link.addrB = some call.peer
  dest : call.dest = link.addrB
  frame : call.frame = ⟨.message, bitOf count, call.frame.data⟩
  size : call.frame.data.length = link.size

/-- No acknowledgement of that message waits in the buffer. -/
def NoAck (link : Link) (count : Nat) (pending : PendingFrames) : Prop :=
  ∀ i entry, pending i = some entry →
    ¬ (entry.frame.frameType = .ack ∧ entry.frame.seqBit = bitOf count ∧ entry.addr = link.addrB)

def SendsAt (link : Link) (count : Nat) (peers : Peers) (pending : PendingFrames) :
    RudpLoc → Prop
  | .idle => True
  | .sendFrame call | .sendWait call => Sending link count peers call ∧ NoAck link count pending
  | .sendAckAck call _ => Sending link count peers call
  | _ => False

/-- A has completed so many sends. -/
structure Sender (link : Link) (count : Nat) (a : Endpoint) : Prop where
  bit : (a.peers.stateOf link.addrB).sendSeqBit = bitOf count
  stands : SendsAt link count a.peers a.pending a.loc

/-- A step of A: what it changes in the line of its payloads and what it sends
to B. -/
inductive Sends (link : Link) (count : Nat) (a : Endpoint) (action : RudpAction) :
    Endpoint × List RudpOutput → Prop where
  | stays (a' : Endpoint) (out : List RudpOutput) (hsender : Sender link count a')
      (hline : a'.loc.current = a.loc.current) (hacked : a'.loc.acked = a.loc.acked)
      (hframes : ∀ frame ∈ framesTo link.addrB out, frame.frameType = .message →
        ∃ payload, a.loc.current = [payload] ∧ frame = ⟨.message, bitOf count, payload⟩)
      (hsent : sentTo link.addrB out = []) : Sends link count a action (a', out)
  | starts (a' : Endpoint) (payload : Bytes) (hsender : Sender link count a')
      (hbefore : a.loc.current = []) (hafter : a'.loc.current = [payload])
      (hacked : a'.loc.acked = false) (hlength : payload.length = link.size) :
      Sends link count a action (a', [])
  | hears (a' : Endpoint) (call : SendCall) (frame : Frame) (ok : Bool)
      (hloc : a.loc = .sendWait call)
      (haction : action = .arrive link.addrB (.frame frame) ok)
      (hframe : frame.frameType = .ack ∧ frame.seqBit = bitOf count)
      (hsender : Sender link count a') (hline : a'.loc.current = a.loc.current) :
      Sends link count a action (a', [])
  | completes (a' : Endpoint) (out : List RudpOutput) (payload : Bytes)
      (hsender : Sender link (count + 1) a') (hacked : a.loc.acked = true)
      (hbefore : a.loc.current = [payload]) (hafter : a'.loc = .idle)
      (hframes : ∀ frame ∈ framesTo link.addrB out, frame.frameType ≠ .message)
      (hsent : sentTo link.addrB out = [payload]) : Sends link count a action (a', out)
  | givesUp (a' : Endpoint) (call : SendCall) (haction : action = .timeout)
      (hloc : a.loc = .sendWait call)
      (hlimit : call.maxAttempts > 0 ∧ ((call.attempts + 1 : Nat) : Int) ≥ call.maxAttempts)
      (hsender : Sender link count a') (hafter : a'.loc = .idle) :
      Sends link count a action (a', [.sendFailed call.dest])

section Facts

variable {link : Link} {count : Nat} {a a' : Endpoint} {action : RudpAction}
  {out : List RudpOutput} {peers peers' : Peers} {pending pending' : PendingFrames}
  {call : SendCall}

/-- A step that sends nothing to B. -/
theorem Sends.quiet (hsender : Sender link count a') (hline : a'.loc.current = a.loc.current)
    (hacked : a'.loc.acked = a.loc.acked) (hframes : framesTo link.addrB out = [])
    (hsent : sentTo link.addrB out = []) : Sends link count a action (a', out) := by
  refine .stays a' out hsender hline hacked ?_ hsent
  rw [hframes]
  nofun

theorem Sending.bitAt (h : Sending link count peers call)
    (hbit : (peers.stateOf link.addrB).sendSeqBit = bitOf count) :
    (peers.stateAt call.peer).sendSeqBit = bitOf count := by
  rw [← hbit, Peers.stateOf_eq h.slot]

/-- A new entry of the buffer that is not the acknowledgement waited for. -/
theorem NoAck.of_entries (h : NoAck link count pending) {addr : SockAddr} {frame : Frame}
    (hentries : ∀ i entry, pending' i = some entry →
      entry = ⟨addr, frame⟩ ∨ pending i = some entry)
    (hnew : ¬ (frame.frameType = .ack ∧ frame.seqBit = bitOf count ∧ addr = link.addrB)) :
    NoAck link count pending' := by
  intro i entry hentry
  rcases hentries i entry hentry with rfl | hold
  · exact hnew
  · exact h i entry hold

/-- A starts a send to B, which drops what B has acknowledged before. -/
theorem Sender.startSend (h : Sender link count a) (hidle : a.loc = .idle) {payload : Bytes}
    (hlength : payload.length = link.size) (maxAttempts : Int) (allocated : Bool) :
    Sends link count a action (a.startSend link.addrB payload maxAttempts allocated) := by
  unfold Endpoint.startSend
  split
  · exact .quiet h rfl rfl rfl rfl
  · split
    · exact .quiet h rfl rfl rfl rfl
    · rename_i i peers hget
      obtain ⟨hslot, _, hstates⟩ := Peers.getPeer_some hget
      have hbit : (peers.stateOf link.addrB).sendSeqBit = bitOf count := by
        rw [hstates, h.bit]
      split
      · refine .quiet ⟨hbit, ?_⟩ rfl rfl rfl rfl
        rw [hidle]
        trivial
      · refine .starts _ payload ⟨hbit, ⟨hslot, rfl, ?_, hlength⟩, ?_⟩ ?_ rfl rfl hlength
        · rw [← Peers.stateOf_eq hslot, hbit]
        · intro j entry hentry hack
          obtain ⟨hfirst, _⟩ := PendingFrames.dropPeerFrames_entry hentry
          obtain ⟨_, hdropped⟩ := PendingFrames.dropPeerFrames_entry hfirst
          exact hdropped ⟨hack.2.2, hack.1⟩
        · rw [hidle]
          rfl

/-- The frame is sent, and the buffer holds no acknowledgement of it. -/
theorem Sender.frameSent (h : Sender link count a) (hloc : a.loc = .sendFrame call) :
    Sends link count a action (a.frameSent call, [.datagram call.dest call.frame]) := by
  have hstands := h.stands
  rw [hloc] at hstands
  obtain ⟨hsending, hnoAck⟩ := hstands
  have hframe : ∀ frame ∈ framesTo link.addrB [.datagram call.dest call.frame],
      frame.frameType = .message →
        ∃ payload, a.loc.current = [payload] ∧ frame = ⟨.message, bitOf count, payload⟩ := by
    intro frame hmem _
    rw [hloc]
    have heq : frame = call.frame := by simpa [framesTo, hsending.dest] using hmem
    exact ⟨call.frame.data, rfl, heq.trans hsending.frame⟩
  have hnone : a.pending.takeFrame call.dest .ack
      (a.peers.stateAt call.peer).sendSeqBit = none := by
    rw [hsending.bitAt h.bit]
    by_contra hsome
    obtain ⟨pending, htake⟩ := Option.ne_none_iff_exists'.mp hsome
    obtain ⟨i, entry, hentry, htype, hseq, haddr, _⟩ := PendingFrames.takeFrame_some htake
    exact hnoAck i entry hentry ⟨htype, hseq, haddr.trans hsending.dest⟩
  have hwait : a.frameSent call = { a with loc := .sendWait call } := by
    simp [Endpoint.frameSent, hnone]
  rw [hwait]
  refine .stays _ _ ⟨h.bit, hsending, hnoAck⟩ ?_ ?_ hframe rfl
  · rw [hloc]
    rfl
  · rw [hloc]
    rfl

theorem Sender.sendTimeout (h : Sender link count a) (hloc : a.loc = .sendWait call) :
    Sends link count a .timeout (a.sendTimeout call) := by
  have hstands := h.stands
  rw [hloc] at hstands
  obtain ⟨hsending, hnoAck⟩ := hstands
  unfold Endpoint.sendTimeout
  simp only
  split
  · rename_i hlimit
    exact .givesUp _ call rfl hloc hlimit ⟨h.bit, trivial⟩ rfl
  · refine .quiet ⟨h.bit, ⟨hsending.slot, hsending.dest, hsending.frame, hsending.size⟩, hnoAck⟩
      ?_ ?_ rfl rfl
    · rw [hloc]
      rfl
    · rw [hloc]
      rfl

theorem Sender.ackAckSent {sentSoFar : Nat} (h : Sender link count a)
    (hloc : a.loc = .sendAckAck call sentSoFar) :
    Sends link count a action (a.ackAckSent call sentSoFar) := by
  have hsending : Sending link count a.peers call := by
    have hstands := h.stands
    rw [hloc] at hstands
    exact hstands
  have hcontrol : ∀ more, framesTo link.addrB
      ([.datagram call.dest (ackAckFrame (a.peers.stateAt call.peer).sendSeqBit)] ++
        [.sent call.dest more]) =
      [ackAckFrame (a.peers.stateAt call.peer).sendSeqBit] := by
    intro more
    simp [framesTo, hsending.dest]
  unfold Endpoint.ackAckSent
  simp only
  split
  · refine .stays _ _ ⟨h.bit, hsending⟩ ?_ ?_ ?_ rfl
    · rw [hloc]
      rfl
    · rw [hloc]
      rfl
    · intro frame hmem hmessage
      have heq : frame = ackAckFrame (a.peers.stateAt call.peer).sendSeqBit := by
        simpa [framesTo, hsending.dest] using hmem
      rw [heq] at hmessage
      cases hmessage
  · refine .completes _ _ call.frame.data ⟨?_, trivial⟩ ?_ ?_ rfl ?_ ?_
    · rw [Peers.flipSend_stateOf hsending.slot, if_pos rfl, bitOf_succ, ← h.bit]
    · rw [hloc]
      rfl
    · rw [hloc]
      rfl
    · intro frame hmem hmessage
      rw [hcontrol, List.mem_singleton] at hmem
      rw [hmem] at hmessage
      cases hmessage
    · simp [sentTo, hsending.dest]

/-- A datagram arrives while A waits for the acknowledgement. -/
theorem Sender.arrival {source : SockAddr} {datagram : Datagram} {ok : Bool}
    {result : Endpoint × List RudpOutput} (h : Sender link count a)
    (hloc : a.loc = .sendWait call) (hresult : a.arrival source datagram ok = some result) :
    Sends link count a (.arrive source datagram ok) result := by
  obtain ⟨peers, pending, loc⟩ := a
  subst hloc
  obtain ⟨hsending, hnoAck⟩ := h.stands
  have hbit := hsending.bitAt h.bit
  simp only [Endpoint.arrival, hbit, hsending.dest] at hresult
  cases datagram with
  | short =>
      cases hresult
      exact .quiet ⟨h.bit, hsending, hnoAck⟩ rfl rfl rfl rfl
  | frame frame =>
      by_cases hmessage : frame.frameType = .message
      · have hnew : ¬ (frame.frameType = .ack ∧ frame.seqBit = bitOf count ∧
            source = link.addrB) := by
          rintro ⟨hack, _⟩
          rw [hmessage] at hack
          cases hack
        cases hstore : pending.storeFrame source frame with
        | none =>
            simp only [Endpoint.waitArrival, hmessage, if_true, hstore] at hresult
            cases hresult
            exact .quiet ⟨h.bit, hsending, hnoAck⟩ rfl rfl rfl rfl
        | some stored =>
            simp only [Endpoint.waitArrival, hmessage, if_true, hstore] at hresult
            cases hresult
            have hstored := hnoAck.of_entries
              (fun i entry => PendingFrames.storeFrame_entry hstore) hnew
            refine .stays _ _ ⟨h.bit, hsending, hstored⟩ rfl rfl ?_ ?_
            · intro answer hmem hanswer
              cases ok with
              | false => cases hmem
              | true =>
                  have heq : source = link.addrB ∧ ackFrame frame.seqBit = answer := by
                    simpa [framesTo] using hmem
                  rw [← heq.2] at hanswer
                  cases hanswer
            · cases ok <;> rfl
      · by_cases hfound : source = link.addrB ∧ frame.frameType = .ack ∧
            frame.seqBit = bitOf count
        · simp only [Endpoint.waitArrival, hfound, and_self, if_true, reduceCtorEq, if_false]
            at hresult
          cases hresult
          obtain ⟨rfl, hack, hseq⟩ := hfound
          exact .hears _ call frame ok rfl rfl ⟨hack, hseq⟩ ⟨h.bit, hsending⟩ rfl
        · simp only [Endpoint.waitArrival, hmessage, if_false, hfound] at hresult
          cases hresult
          refine .quiet ⟨h.bit, hsending, ?_⟩ rfl rfl rfl rfl
          cases hstore : pending.storeFrame source frame with
          | none => exact hnoAck
          | some stored =>
              exact hnoAck.of_entries (fun i entry => PendingFrames.storeFrame_entry hstore)
                fun hack => hfound ⟨hack.2.2, hack.1, hack.2.1⟩

/-- Every step of A. -/
theorem Sender.step {result : Endpoint × List RudpOutput} (h : Sender link count a)
    (hsends : action.ofSender link = true) (hstep : a.step action = some result) :
    Sends link count a action result := by
  have hstands := h.stands
  cases Endpoint.acts_of_step hstep with
  | startSend hidle dest payload maxAttempts allocated =>
      obtain ⟨rfl, hlength⟩ : dest = link.addrB ∧ payload.length = link.size := by
        simpa [RudpAction.ofSender] using hsends
      exact h.startSend hidle hlength _ _
  | frameSent call hloc => exact h.frameSent hloc
  | ackAckSent call sentSoFar hloc => exact h.ackAckSent hloc
  | sendArrival call hloc source datagram ok harrival => exact h.arrival hloc harrival
  | sendTimeout call hloc => exact h.sendTimeout hloc
  | startRecv | frameFailed | ackAckFailed | ackFailed => cases hsends
  | sendWaitFailed | firstFailed | recvWaitFailed | secondFailed => cases hsends
  | ackSent call round hloc | waitArrival call round hloc | recvTimeout call round hloc =>
      rw [hloc] at hstands
      cases hstands
  | firstArrival call hloc | secondArrival call hloc | firstBlocked call hloc
  | secondBlocked call hloc =>
      rw [hloc] at hstands
      cases hstands

end Facts

end TokenRing
