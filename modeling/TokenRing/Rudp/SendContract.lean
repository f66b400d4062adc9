import TokenRing.Lib.Lts
import TokenRing.Rudp.Machine

/-!
One call of `rudp_sendto_with_limits`, seen through the log of its system
calls. The same frame goes out before each wait, a wait ends with an `ACK` that
arrives in it or with a timeout, and what was acknowledged before the call
began is of no use to it.
-/

namespace TokenRing

/-- The outcomes of the system calls, each with what the process then sends or
returns. -/
abbrev SendLog := List (RudpAction × List RudpOutput)

/-- A datagram of this type, with its receiver. -/
def RudpOutput.carried (frameType : FrameType) : RudpOutput → Option (SockAddr × Frame)
  | .datagram dest frame => if frame.frameType = frameType then some (dest, frame) else none
  | _ => none

def sentOf (frameType : FrameType) (out : List RudpOutput) : List (SockAddr × Frame) :=
  out.filterMap (RudpOutput.carried frameType)

/-- The return of a call of `rudp_sendto_with_limits`. -/
def RudpOutput.isSendReturn : RudpOutput → Bool
  | .sent _ _ | .sendFailed _ => true
  | _ => false

def RudpAction.isTimeout : RudpAction → Bool
  | .timeout => true
  | _ => false

/-- The system call failed. -/
def RudpAction.isFailure : RudpAction → Bool
  | .sendto false | .fail => true
  | _ => false

/-- An `ACK` of this peer with this bit arrives. -/
def RudpAction.brings (dest : SockAddr) (seqBit : UInt8) : RudpAction → Bool
  | .arrive source (.frame frame) _ =>
      source = dest && frame.frameType = .ack && frame.seqBit = seqBit
  | _ => false

namespace SendLog

def outputs (log : SendLog) : List RudpOutput := log.flatMap Prod.snd

def timeouts (log : SendLog) : Nat := log.countP (fun entry => entry.1.isTimeout)

def returns (log : SendLog) : List RudpOutput := log.outputs.filter RudpOutput.isSendReturn

/-- The acknowledgement arrived during the call. -/
def heard (log : SendLog) (dest : SockAddr) (seqBit : UInt8) : Bool :=
  log.any (fun entry => entry.1.brings dest seqBit)

def failed (log : SendLog) : Bool := log.any (fun entry => entry.1.isFailure)

end SendLog

/-- One system call of the call at hand, which is over once the machine is
idle. -/
def Endpoint.sendStep (ep : Endpoint) (action : RudpAction) :
    Option (Endpoint × SendLog) :=
  if ep.loc.isIdle then none
  else (ep.step action).map (fun result => (result.1, [(action, result.2)]))

/-- What a log adds up to. -/
structure SendTally (dest : SockAddr) (frame : Frame) (log : SendLog)
    (sent timeouts ackAcks : Nat) (heard : Bool) (returns : List RudpOutput) : Prop where
  messages : sentOf .message log.outputs = List.replicate sent (dest, frame)
  ackAcks : sentOf .ackAck log.outputs =
    List.replicate ackAcks (dest, ackAckFrame frame.seqBit)
  timeouts : log.timeouts = timeouts
  heard : log.heard dest frame.seqBit = heard
  returns : log.returns = returns

/-- The record on the stack of a call that no failed system call has ended. -/
structure SendCall.Underway (call : SendCall) (dest : SockAddr) (frame : Frame)
    (maxAttempts : Int) (peers : Peers) (log : SendLog) : Prop where
  unbroken : log.failed = false
  limit : 0 < maxAttempts → (call.attempts : Int) < maxAttempts
  maxAttempts : call.maxAttempts = maxAttempts
  bit : (peers.stateAt call.peer).sendSeqBit = frame.seqBit
  dest : call.dest = dest
  frame : call.frame = frame

/-- No acknowledgement of the message waits in the buffer. -/
def NoAckOf (dest : SockAddr) (seqBit : UInt8) (pending : PendingFrames) : Prop :=
  ∀ i entry, pending i = some entry →
    ¬ (entry.addr = dest ∧ entry.frame.frameType = .ack ∧ entry.frame.seqBit = seqBit)

/-- How far the call has come: it sends, waits, acknowledges the
acknowledgement, or has returned. -/
inductive SendProgress (dest : SockAddr) (frame : Frame) (maxAttempts : Int) (ep : Endpoint)
    (log : SendLog) : Prop where
  | sending (call : SendCall) (hloc : ep.loc = .sendFrame call)
      (hcall : call.Underway dest frame maxAttempts ep.peers log)
      (htally : SendTally dest frame log call.attempts call.attempts 0 false [])
      (hnoAck : NoAckOf dest frame.seqBit ep.pending)
  | waiting (call : SendCall) (hloc : ep.loc = .sendWait call)
      (hcall : call.Underway dest frame maxAttempts ep.peers log)
      (htally : SendTally dest frame log (call.attempts + 1) call.attempts 0 false [])
      (hnoAck : NoAckOf dest frame.seqBit ep.pending)
  | acknowledging (call : SendCall) (count : Nat) (hloc : ep.loc = .sendAckAck call count)
      (hcall : call.Underway dest frame maxAttempts ep.peers log)
      (htally : SendTally dest frame log (call.attempts + 1) call.attempts count true [])
      (hcount : count < maxTransmisionAttempts)
  | succeeded (attempts : Nat) (hloc : ep.loc = .idle)
      (htally : SendTally dest frame log (attempts + 1) attempts maxTransmisionAttempts true
        [.sent dest frame.data])
      (hunbroken : log.failed = false)
      (hlimit : 0 < maxAttempts → (attempts : Int) < maxAttempts)
  | exhausted (attempts : Nat) (hloc : ep.loc = .idle)
      (htally : SendTally dest frame log attempts attempts 0 false [.sendFailed dest])
      (hunbroken : log.failed = false)
      (hlimit : 0 < maxAttempts ∧ (attempts : Int) = maxAttempts)
  | broken (sent timeouts ackAcks : Nat) (heard : Bool) (hloc : ep.loc = .idle)
      (htally : SendTally dest frame log sent timeouts ackAcks heard [.sendFailed dest])
      (hbroken : log.failed = true)
      (htimeouts : timeouts ≤ sent ∧ sent ≤ timeouts + 1)
      (hlimit : 0 < maxAttempts → (sent : Int) ≤ maxAttempts)
      (hcount : ackAcks < maxTransmisionAttempts ∧ (0 < ackAcks → heard = true))

section Tally

variable {dest : SockAddr} {frame : Frame} {log : SendLog} {sent timeouts ackAcks : Nat}
  {heard : Bool} {returns : List RudpOutput} {action : RudpAction} {out : List RudpOutput}

theorem sentOf_append (frameType : FrameType) (first second : List RudpOutput) :
    sentOf frameType (first ++ second) = sentOf frameType first ++ sentOf frameType second :=
  List.filterMap_append

theorem SendLog.outputs_snoc (log : SendLog) (action : RudpAction) (out : List RudpOutput) :
    SendLog.outputs (log ++ [(action, out)]) = log.outputs ++ out := by
  simp [SendLog.outputs]

theorem SendLog.failed_snoc (log : SendLog) (action : RudpAction) (out : List RudpOutput) :
    SendLog.failed (log ++ [(action, out)]) = (log.failed || action.isFailure) := by
  simp [SendLog.failed]

theorem SendTally.snoc (h : SendTally dest frame log sent timeouts ackAcks heard returns)
    (action : RudpAction) (out : List RudpOutput) (more moreAckAcks : Nat)
    (hmessages : sentOf .message out = List.replicate more (dest, frame))
    (hackAcks : sentOf .ackAck out =
      List.replicate moreAckAcks (dest, ackAckFrame frame.seqBit)) :
    SendTally dest frame (log ++ [(action, out)]) (sent + more)
      (timeouts + action.isTimeout.toNat) (ackAcks + moreAckAcks)
      (heard || action.brings dest frame.seqBit)
      (returns ++ out.filter RudpOutput.isSendReturn) := by
  constructor
  · rw [SendLog.outputs_snoc, sentOf_append, h.messages, hmessages, List.replicate_append_replicate]
  · rw [SendLog.outputs_snoc, sentOf_append, h.ackAcks, hackAcks,
      List.replicate_append_replicate]
  · have hbefore := h.timeouts
    unfold SendLog.timeouts at hbefore ⊢
    rw [List.countP_append, hbefore]
    cases htimeout : action.isTimeout <;> simp [htimeout]
  · have hbefore := h.heard
    unfold SendLog.heard at hbefore ⊢
    rw [List.any_append, hbefore]
    simp
  · have hbefore := h.returns
    unfold SendLog.returns at hbefore ⊢
    rw [SendLog.outputs_snoc, List.filter_append, hbefore]

/-- A system call that sends nothing of the call and does not end it. -/
theorem SendTally.quiet (h : SendTally dest frame log sent timeouts ackAcks heard returns)
    (action : RudpAction) (out : List RudpOutput) (hmessages : sentOf .message out = [])
    (hackAcks : sentOf .ackAck out = [])
    (hreturns : out.filter RudpOutput.isSendReturn = []) :
    SendTally dest frame (log ++ [(action, out)]) sent (timeouts + action.isTimeout.toNat)
      ackAcks (heard || action.brings dest frame.seqBit) returns := by
  have hnext := h.snoc action out 0 0 hmessages hackAcks
  rwa [hreturns, List.append_nil] at hnext

end Tally

section Steps

variable {dest : SockAddr} {frame : Frame} {maxAttempts : Int} {ep ep' : Endpoint}
  {log : SendLog} {call : SendCall} {action : RudpAction} {out : List RudpOutput}

/-- What `wait_for_frame` does with a datagram while the acknowledgement is
missing. -/
theorem waitArrival_ack {pending pending' : PendingFrames} {source : SockAddr}
    {datagram : Datagram} {ok found : Bool} (hnoAck : NoAckOf dest frame.seqBit pending)
    (h : Endpoint.waitArrival pending dest .ack frame.seqBit source datagram ok =
      (found, pending', out)) :
    found = (RudpAction.arrive source datagram ok).brings dest frame.seqBit ∧
      (found = false → NoAckOf dest frame.seqBit pending') ∧
      sentOf .message out = [] ∧ sentOf .ackAck out = [] ∧
      out.filter RudpOutput.isSendReturn = [] := by
  have hentry : ∀ {stored : PendingFrames} {other : Frame},
      pending.storeFrame source other = some stored →
      ¬ (source = dest ∧ other.frameType = .ack ∧ other.seqBit = frame.seqBit) →
      NoAckOf dest frame.seqBit stored := by
    intro stored other hstore hother i entry hslot
    rcases PendingFrames.storeFrame_entry hstore hslot with rfl | hold
    · exact hother
    · exact hnoAck i entry hold
  cases datagram with
  | short =>
      cases h
      exact ⟨rfl, fun _ => hnoAck, rfl, rfl, rfl⟩
  | frame other =>
      by_cases hmessage : other.frameType = .message
      · have hother : ¬ (source = dest ∧ other.frameType = .ack ∧
            other.seqBit = frame.seqBit) := by simp [hmessage]
        have hbrings : (RudpAction.arrive source (.frame other) ok).brings dest frame.seqBit =
            false := by simp [RudpAction.brings, hmessage]
        simp only [Endpoint.waitArrival, hmessage, if_true] at h
        rw [hbrings]
        split at h
        · rename_i stored hstore
          cases h
          refine ⟨rfl, fun _ => hentry hstore hother, ?_, ?_, ?_⟩ <;> cases ok <;> rfl
        · cases h
          exact ⟨rfl, fun _ => hnoAck, rfl, rfl, rfl⟩
      · simp only [Endpoint.waitArrival, hmessage, if_false] at h
        split at h
        · rename_i hmatch
          cases h
          refine ⟨?_, Bool.noConfusion, rfl, rfl, rfl⟩
          simp [RudpAction.brings, hmatch]
        · rename_i hother
          cases h
          refine ⟨?_, fun _ => ?_, rfl, rfl, rfl⟩
          · simpa [RudpAction.brings, and_assoc] using hother
          · cases hstore : pending.storeFrame source other with
            | none => exact hnoAck
            | some stored => exact hentry hstore hother

theorem SendCall.Underway.snoc {peers : Peers}
    (h : call.Underway dest frame maxAttempts peers log) (action : RudpAction)
    (out : List RudpOutput) (hworks : action.isFailure = false) :
    call.Underway dest frame maxAttempts peers (log ++ [(action, out)]) :=
  { h with unbroken := by rw [SendLog.failed_snoc, h.unbroken, hworks]; rfl }

theorem SendLog.broken_snoc (log : SendLog) (out : List RudpOutput)
    (hfails : action.isFailure = true) : SendLog.failed (log ++ [(action, out)]) = true := by
  rw [SendLog.failed_snoc, hfails, Bool.or_true]

/-- The frame goes out. No stored acknowledgement lets the wait end at once. -/
theorem SendCall.Underway.frameSent (hcall : call.Underway dest frame maxAttempts ep.peers log)
    (hloc : ep.loc = .sendFrame call)
    (htally : SendTally dest frame log call.attempts call.attempts 0 false [])
    (hnoAck : NoAckOf dest frame.seqBit ep.pending) (hmessage : frame.frameType = .message)
    (hstep : ep.step action = some (ep', out)) :
    SendProgress dest frame maxAttempts ep' (log ++ [(action, out)]) := by
  cases action with
  | sendto ok =>
      cases ok with
      | true =>
          have hnone : ep.pending.takeFrame call.dest .ack
              (ep.peers.stateAt call.peer).sendSeqBit = none := by
            rw [hcall.bit, hcall.dest]
            by_contra hsome
            obtain ⟨pending, htake⟩ := Option.ne_none_iff_exists'.mp hsome
            obtain ⟨i, entry, hentry, htype, hseq, haddr, _⟩ := PendingFrames.takeFrame_some htake
            exact hnoAck i entry hentry ⟨haddr, htype, hseq⟩
          simp only [Endpoint.step, hloc, Endpoint.frameSent, hnone] at hstep
          cases hstep
          refine .waiting call rfl (hcall.snoc _ _ rfl) ?_ hnoAck
          refine htally.snoc _ _ 1 0 ?_ ?_
          · simp [sentOf, RudpOutput.carried, hcall.frame, hcall.dest, hmessage]
          · simp [sentOf, RudpOutput.carried, hcall.frame, hmessage]
      | false =>
          simp only [Endpoint.step, hloc, hcall.dest] at hstep
          cases hstep
          exact .broken call.attempts call.attempts 0 false rfl
            (htally.snoc _ _ 0 0 rfl rfl) (log.broken_snoc _ rfl)
            ⟨le_rfl, Nat.le_succ _⟩ (fun hpos => (hcall.limit hpos).le)
            ⟨by decide, fun h => absurd h (Nat.lt_irrefl 0)⟩
  | _ => simp [Endpoint.step, Endpoint.arrival, hloc] at hstep

/-- A wait goes on, ends with the acknowledgement, or ends without it. -/
theorem SendCall.Underway.waited (hcall : call.Underway dest frame maxAttempts ep.peers log)
    (hloc : ep.loc = .sendWait call)
    (htally : SendTally dest frame log (call.attempts + 1) call.attempts 0 false [])
    (hnoAck : NoAckOf dest frame.seqBit ep.pending)
    (hstep : ep.step action = some (ep', out)) :
    SendProgress dest frame maxAttempts ep' (log ++ [(action, out)]) := by
  cases action with
  | arrive source datagram ok =>
      simp only [Endpoint.step, Endpoint.arrival, hloc, hcall.bit, hcall.dest] at hstep
      cases hwait : Endpoint.waitArrival ep.pending dest .ack frame.seqBit source datagram ok with
      | mk found rest =>
          obtain ⟨pending, waited⟩ := rest
          obtain ⟨hfound, hstill, hmessages, hackAcks, hreturns⟩ := waitArrival_ack hnoAck hwait
          have hnext := htally.quiet (.arrive source datagram ok) _ hmessages hackAcks
            hreturns
          rw [← hfound] at hnext
          rw [hwait] at hstep
          cases found with
          | true =>
              cases hstep
              exact .acknowledging call 0 rfl (hcall.snoc _ _ rfl) hnext (by decide)
          | false =>
              cases hstep
              exact .waiting call rfl (hcall.snoc _ _ rfl) hnext (hstill rfl)
  | timeout =>
      simp only [Endpoint.step, hloc, Endpoint.sendTimeout, hcall.dest, hcall.maxAttempts] at hstep
      have hnext := htally.quiet .timeout [] rfl rfl rfl
      split at hstep
      · rename_i hover
        cases hstep
        have hlast : ((call.attempts + 1 : Nat) : Int) = maxAttempts := by
          have hbefore := hcall.limit hover.1
          have hafter := hover.2
          push_cast at hafter ⊢
          omega
        exact .exhausted (call.attempts + 1) rfl (htally.snoc _ _ 0 0
          rfl rfl) (by rw [SendLog.failed_snoc, hcall.unbroken]; rfl) ⟨hover.1, hlast⟩
      · rename_i hmore
        cases hstep
        have hunder := hcall.snoc .timeout [] rfl
        exact .sending _ rfl ⟨hunder.unbroken, fun hpos => lt_of_not_ge fun hover =>
          hmore ⟨hpos, hover⟩, rfl, hcall.bit, rfl, hcall.frame⟩ hnext hnoAck
  | fail =>
      simp only [Endpoint.step, hloc, hcall.dest] at hstep
      cases hstep
      refine .broken (call.attempts + 1) call.attempts 0 false rfl
        (htally.snoc _ _ 0 0 rfl rfl) (log.broken_snoc _ rfl)
        ⟨Nat.le_succ _, le_rfl⟩ (fun hpos => ?_) ⟨by decide, fun h => absurd h (Nat.lt_irrefl 0)⟩
      have hbefore := hcall.limit hpos
      push_cast
      omega
  | _ => simp [Endpoint.step, hloc] at hstep

/-- One more `ACK_ACK`; the last of them ends the call. -/
theorem SendCall.Underway.ackAckSent {count : Nat}
    (hcall : call.Underway dest frame maxAttempts ep.peers log)
    (hloc : ep.loc = .sendAckAck call count)
    (htally : SendTally dest frame log (call.attempts + 1) call.attempts count true [])
    (hcount : count < maxTransmisionAttempts) (hstep : ep.step action = some (ep', out)) :
    SendProgress dest frame maxAttempts ep' (log ++ [(action, out)]) := by
  cases action with
  | sendto ok =>
      cases ok with
      | true =>
          simp only [Endpoint.step, hloc, Endpoint.ackAckSent, hcall.bit, hcall.dest,
            hcall.frame] at hstep
          split at hstep
          · rename_i hmore
            cases hstep
            exact .acknowledging call (count + 1) rfl (hcall.snoc _ _ rfl)
              (htally.snoc _ _ 0 1 rfl rfl) hmore
          · rename_i hlast
            cases hstep
            have hthree : count + 1 = maxTransmisionAttempts := by omega
            have hnext := htally.snoc (.sendto true)
              [.datagram dest (ackAckFrame frame.seqBit), .sent dest frame.data] 0 1 rfl rfl
            rw [hthree] at hnext
            exact .succeeded call.attempts rfl hnext
              (by rw [SendLog.failed_snoc, hcall.unbroken]; rfl) hcall.limit
      | false =>
          simp only [Endpoint.step, hloc, hcall.dest] at hstep
          cases hstep
          refine .broken (call.attempts + 1) call.attempts count true rfl
            (htally.snoc _ _ 0 0 rfl rfl) (log.broken_snoc _ rfl)
            ⟨Nat.le_succ _, le_rfl⟩ (fun hpos => ?_) ⟨hcount, fun _ => rfl⟩
          have hbefore := hcall.limit hpos
          push_cast
          omega
  | _ => simp [Endpoint.step, Endpoint.arrival, hloc] at hstep

theorem SendProgress.step (h : SendProgress dest frame maxAttempts ep log)
    (hmessage : frame.frameType = .message) (hrunning : ep.loc.isIdle = false)
    (hstep : ep.step action = some (ep', out)) :
    SendProgress dest frame maxAttempts ep' (log ++ [(action, out)]) := by
  cases h with
  | sending call hloc hcall htally hnoAck =>
      exact hcall.frameSent hloc htally hnoAck hmessage hstep
  | waiting call hloc hcall htally hnoAck => exact hcall.waited hloc htally hnoAck hstep
  | acknowledging call count hloc hcall htally hcount =>
      exact hcall.ackAckSent hloc htally hcount hstep
  | succeeded attempts hloc | exhausted attempts hloc =>
      rw [hloc] at hrunning
      cases hrunning
  | broken sent timeouts ackAcks heard hloc =>
      rw [hloc] at hrunning
      cases hrunning

/-- A call that gets past its checks starts with nothing sent and with no
acknowledgement of its peer in the buffer. -/
theorem SendProgress.start {payload : Bytes} (hidle : ep.loc = .idle)
    (hstart : ep.startSend dest payload maxAttempts true = (ep', out))
    (hchecked : ep'.loc.isIdle = false) :
    SendProgress dest ⟨.message, (ep.peers.stateOf dest).sendSeqBit, payload⟩ maxAttempts
      ep' [] := by
  unfold Endpoint.startSend at hstart
  split at hstart
  · cases hstart
    rw [hidle] at hchecked
    cases hchecked
  · split at hstart
    · cases hstart
      rw [hidle] at hchecked
      cases hchecked
    · rename_i i peers hget
      obtain ⟨hslot, _, hstates⟩ := Peers.getPeer_some hget
      have hbit : (peers.stateAt i).sendSeqBit = (ep.peers.stateOf dest).sendSeqBit := by
        rw [← Peers.stateOf_eq hslot, hstates]
      simp only [Bool.not_true, Bool.false_eq_true, if_false] at hstart
      cases hstart
      refine .sending _ rfl ⟨rfl, fun hpos => hpos, rfl, hbit, rfl, by rw [hbit]⟩
        ⟨rfl, rfl, rfl, rfl, rfl⟩ ?_
      intro j entry hentry hack
      obtain ⟨hfirst, _⟩ := PendingFrames.dropPeerFrames_entry hentry
      obtain ⟨_, hdropped⟩ := PendingFrames.dropPeerFrames_entry hfirst
      exact hdropped ⟨hack.1, hack.2.1⟩

/-- What a call of `rudp_sendto_with_limits` has done so far. It has sent the
one frame as often as it has waited, at most `maxAttempts` times if that is
positive. It returns 0 after an `ACK` that arrived in one of its waits and three
`ACK_ACK`s, and -1 after a failed system call or when every allowed wait ended
by a timeout. -/
def SendContract (dest : SockAddr) (seqBit : UInt8) (payload : Bytes) (maxAttempts : Int)
    (loc : RudpLoc) (log : SendLog) : Prop :=
  ∃ sent ackAcks : Nat,
    sentOf .message log.outputs = List.replicate sent (dest, ⟨.message, seqBit, payload⟩) ∧
    sentOf .ackAck log.outputs = List.replicate ackAcks (dest, ackAckFrame seqBit) ∧
    log.timeouts ≤ sent ∧ sent ≤ log.timeouts + 1 ∧
    (0 < maxAttempts → (sent : Int) ≤ maxAttempts) ∧
    (0 < ackAcks → log.heard dest seqBit = true) ∧ ackAcks ≤ maxTransmisionAttempts ∧
    ((log.returns = [] ∧ loc.isIdle = false ∧ log.failed = false) ∨
      (log.returns = [.sent dest payload] ∧ loc = .idle ∧ log.failed = false ∧
        log.heard dest seqBit = true ∧ ackAcks = maxTransmisionAttempts ∧
        sent = log.timeouts + 1) ∨
      (log.returns = [.sendFailed dest] ∧ loc = .idle ∧
        (log.failed = true ∨
          (log.failed = false ∧ log.heard dest seqBit = false ∧ 0 < maxAttempts ∧
            (sent : Int) = maxAttempts ∧ sent = log.timeouts))))

theorem SendProgress.contract {seqBit : UInt8} {payload : Bytes}
    (h : SendProgress dest ⟨.message, seqBit, payload⟩ maxAttempts ep log) :
    SendContract dest seqBit payload maxAttempts ep.loc log := by
  cases h with
  | sending call hloc hcall htally hnoAck =>
      exact ⟨_, _, htally.messages, htally.ackAcks, htally.timeouts.le,
        by rw [htally.timeouts]; exact Nat.le_succ _, fun hpos => (hcall.limit hpos).le,
        fun hnone => absurd hnone (Nat.lt_irrefl 0), by decide,
        .inl ⟨htally.returns, by rw [hloc]; rfl, hcall.unbroken⟩⟩
  | waiting call hloc hcall htally hnoAck =>
      exact ⟨_, _, htally.messages, htally.ackAcks, by rw [htally.timeouts]; exact Nat.le_succ _,
        by rw [htally.timeouts], fun hpos => Int.add_one_le_of_lt (hcall.limit hpos),
        fun hnone => absurd hnone (Nat.lt_irrefl 0), by decide,
        .inl ⟨htally.returns, by rw [hloc]; rfl, hcall.unbroken⟩⟩
  | acknowledging call count hloc hcall htally hcount =>
      exact ⟨_, _, htally.messages, htally.ackAcks, by rw [htally.timeouts]; exact Nat.le_succ _,
        by rw [htally.timeouts], fun hpos => Int.add_one_le_of_lt (hcall.limit hpos),
        fun _ => htally.heard, hcount.le,
        .inl ⟨htally.returns, by rw [hloc]; rfl, hcall.unbroken⟩⟩
  | succeeded attempts hloc htally hunbroken hlimit =>
      exact ⟨_, _, htally.messages, htally.ackAcks, by rw [htally.timeouts]; exact Nat.le_succ _,
        by rw [htally.timeouts], fun hpos => Int.add_one_le_of_lt (hlimit hpos),
        fun _ => htally.heard, le_rfl,
        .inr (.inl ⟨htally.returns, hloc, hunbroken, htally.heard, rfl, by
          rw [htally.timeouts]⟩)⟩
  | exhausted attempts hloc htally hunbroken hlimit =>
      exact ⟨_, _, htally.messages, htally.ackAcks, htally.timeouts.le,
        by rw [htally.timeouts]; exact Nat.le_succ _, fun _ => hlimit.2.le,
        fun hnone => absurd hnone (Nat.lt_irrefl 0), by decide,
        .inr (.inr ⟨htally.returns, hloc, .inr ⟨hunbroken, htally.heard, hlimit.1, hlimit.2,
          htally.timeouts.symm⟩⟩)⟩
  | broken sent timeouts ackAcks heard hloc htally hbroken htimeouts hlimit hcount =>
      exact ⟨_, _, htally.messages, htally.ackAcks, htally.timeouts.symm ▸ htimeouts.1,
        htally.timeouts.symm ▸ htimeouts.2, hlimit,
        fun hsome => htally.heard.trans (hcount.2 hsome), hcount.1.le,
        .inr (.inr ⟨htally.returns, hloc, .inl hbroken⟩)⟩

/-- The progress of a call that gets past its checks. -/
theorem SendProgress.of_reachable {payload : Bytes} (hidle : ep.loc = .idle)
    (hstart : ep.startSend dest payload maxAttempts true = (ep', out))
    (hchecked : ep'.loc.isIdle = false) {run : Endpoint × SendLog}
    (h : Lts.Reachable (Lts.logged Endpoint.sendStep) (ep', []) run) :
    SendProgress dest ⟨.message, (ep.peers.stateOf dest).sendSeqBit, payload⟩ maxAttempts
      run.1 run.2 := by
  refine h.invariant (fun run => SendProgress dest
    ⟨.message, (ep.peers.stateOf dest).sendSeqBit, payload⟩ maxAttempts run.1 run.2)
    (SendProgress.start hidle hstart hchecked) ?_
  intro run action run' hbefore _ hstep
  obtain ⟨result, hresult, rfl⟩ := Option.map_eq_some_iff.mp hstep
  unfold Endpoint.sendStep at hresult
  split at hresult
  · cases hresult
  · rename_i hrunning
    obtain ⟨next, hnext, rfl⟩ := Option.map_eq_some_iff.mp hresult
    exact hbefore.step rfl (by simpa using hrunning) hnext

/-- Every call of `rudp_sendto_with_limits` that gets past its checks keeps its
contract, whatever the system calls bring, whatever the buffer held before and
however long it runs. -/
theorem send_call_contract (ep : Endpoint) {payload : Bytes} (hidle : ep.loc = .idle)
    (hstart : ep.startSend dest payload maxAttempts true = (ep', out))
    (hchecked : ep'.loc.isIdle = false) {run : Endpoint × SendLog}
    (h : Lts.Reachable (Lts.logged Endpoint.sendStep) (ep', []) run) :
    SendContract dest (ep.peers.stateOf dest).sendSeqBit payload maxAttempts run.1.loc run.2 :=
  (SendProgress.of_reachable hidle hstart hchecked h).contract

end Steps

/-- The first wait ends by a timeout; in the second one the acknowledgement
arrives, behind a message of another process. -/
def acknowledgedLate (dest other : SockAddr) : List RudpAction :=
  [.sendto true, .timeout, .sendto true, .arrive other (.frame ⟨.message, 0, [9]⟩) true,
    .arrive dest (.frame (ackFrame 0)) true, .sendto true, .sendto true, .sendto true]

theorem acknowledged_late_contract :
    ∃ run : Endpoint × SendLog, run.2.returns = [.sent ⟨2, 5002, 2⟩ [1, 2]] ∧
      run.2.timeouts = 1 ∧ SendContract ⟨2, 5002, 2⟩ 0 [1, 2] 3 run.1.loc run.2 := by
  have hrun : (Lts.exec (Lts.logged Endpoint.sendStep)
      ((Endpoint.start.startSend ⟨2, 5002, 2⟩ [1, 2] 3 true).1, [])
      (acknowledgedLate ⟨2, 5002, 2⟩ ⟨2, 5003, 3⟩)).map
      (fun run => (SendLog.returns run.2, SendLog.timeouts run.2)) =
        some ([.sent ⟨2, 5002, 2⟩ [1, 2]], 1) := by
    decide +kernel
  obtain ⟨run, hexec, hvalues⟩ := Option.map_eq_some_iff.mp hrun
  obtain ⟨hreturns, htimeouts⟩ := Prod.mk.inj hvalues
  exact ⟨run, hreturns, htimeouts,
    send_call_contract Endpoint.start rfl rfl (by decide) (Lts.reachable_of_exec hexec)⟩

end TokenRing
