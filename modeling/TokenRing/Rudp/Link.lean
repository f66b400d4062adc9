import TokenRing.Lib.AlternatingBit
import TokenRing.Lib.Fifo
import TokenRing.Lib.Lts
import TokenRing.Rudp.Machine

/-!
Two processes and the two channels between them: A sends to B, and B receives
between sends of its own to others. A channel delivers in order but loses and
repeats frames; what arrives from third parties is up to the actions.
-/

namespace TokenRing

/-- The two addresses, and the size of the record that all callers use. -/
structure Link where
  addrA : SockAddr
  addrB : SockAddr
  size : Nat
  fits : headerSize + size ≤ maxFrameSize

/-- `sent` and `returned` are the payloads of A's sends that returned 0, and of
A's messages that calls of `rudp_recvfrom` returned at B, in order. -/
structure Talk where
  a : Endpoint
  b : Endpoint
  ab : List Frame
  ba : List Frame
  sent : List Bytes
  returned : List Bytes

def Talk.start : Talk := ⟨.start, .start, [], [], [], []⟩

/-- An action of one of the two, the arrival of the oldest frame of a channel,
or a fault of a channel. -/
inductive TalkEvent where
  | a (action : RudpAction)
  | b (action : RudpAction)
  | toA (ok : Bool)
  | toB (ok : Bool)
  | loseToB (i : Nat)
  | duplicateToB (i : Nat)
  | loseToA (i : Nat)
  | duplicateToA (i : Nat)

/-- The arrival of a datagram from this address. -/
def RudpAction.isFrom (addr : SockAddr) : RudpAction → Bool
  | .arrive source _ _ => source = addr
  | _ => false

def framesTo (dest : SockAddr) (out : List RudpOutput) : List Frame :=
  out.filterMap fun
    | .datagram addr frame => if addr = dest then some frame else none
    | _ => none

def sentTo (dest : SockAddr) (out : List RudpOutput) : List Bytes :=
  out.filterMap fun
    | .sent addr payload => if addr = dest then some payload else none
    | _ => none

def receivedFrom (source : SockAddr) (out : List RudpOutput) : List Bytes :=
  out.filterMap fun
    | .received addr payload => if addr = source then some payload else none
    | _ => none

namespace Talk

variable (link : Link) (talk : Talk)

def moveA (result : Endpoint × List RudpOutput) : Talk :=
  { talk with
    a := result.1
    ab := talk.ab ++ framesTo link.addrB result.2
    sent := talk.sent ++ sentTo link.addrB result.2 }

def moveB (result : Endpoint × List RudpOutput) : Talk :=
  { talk with
    b := result.1
    ba := talk.ba ++ framesTo link.addrA result.2
    returned := talk.returned ++ receivedFrom link.addrA result.2 }

def step : TalkEvent → Option Talk
  | .a action =>
      if action.isFrom link.addrB then none
      else (talk.a.step action).map (talk.moveA link)
  | .b action =>
      if action.isFrom link.addrA then none
      else (talk.b.step action).map (talk.moveB link)
  | .toA ok =>
      match talk.ba with
      | [] => none
      | frame :: rest =>
          (talk.a.step (.arrive link.addrB (.frame frame) ok)).map
            ({ talk with ba := rest }.moveA link)
  | .toB ok =>
      match talk.ab with
      | [] => none
      | frame :: rest =>
          (talk.b.step (.arrive link.addrA (.frame frame) ok)).map
            ({ talk with ab := rest }.moveB link)
  | .loseToB i => some { talk with ab := Fifo.lose talk.ab i }
  | .duplicateToB i => some { talk with ab := Fifo.duplicate talk.ab i }
  | .loseToA i => some { talk with ba := Fifo.lose talk.ba i }
  | .duplicateToA i => some { talk with ba := Fifo.duplicate talk.ba i }

/-- What an event does: one of the processes takes a step of its own, or reads
the oldest frame on its way, or a channel loses or repeats a frame. -/
inductive Moves : TalkEvent → Talk → Prop where
  | a (action : RudpAction) (result : Endpoint × List RudpOutput)
      (hfrom : action.isFrom link.addrB = false) (hresult : talk.a.step action = some result) :
      Moves (.a action) (talk.moveA link result)
  | b (action : RudpAction) (result : Endpoint × List RudpOutput)
      (hfrom : action.isFrom link.addrA = false) (hresult : talk.b.step action = some result) :
      Moves (.b action) (talk.moveB link result)
  | toA (ok : Bool) (frame : Frame) (rest : List Frame) (result : Endpoint × List RudpOutput)
      (hba : talk.ba = frame :: rest)
      (hresult : talk.a.step (.arrive link.addrB (.frame frame) ok) = some result) :
      Moves (.toA ok) ({ talk with ba := rest }.moveA link result)
  | toB (ok : Bool) (frame : Frame) (rest : List Frame) (result : Endpoint × List RudpOutput)
      (hab : talk.ab = frame :: rest)
      (hresult : talk.b.step (.arrive link.addrA (.frame frame) ok) = some result) :
      Moves (.toB ok) ({ talk with ab := rest }.moveB link result)
  | loseToB (i : Nat) : Moves (.loseToB i) { talk with ab := Fifo.lose talk.ab i }
  | duplicateToB (i : Nat) : Moves (.duplicateToB i) { talk with ab := Fifo.duplicate talk.ab i }
  | loseToA (i : Nat) : Moves (.loseToA i) { talk with ba := Fifo.lose talk.ba i }
  | duplicateToA (i : Nat) : Moves (.duplicateToA i) { talk with ba := Fifo.duplicate talk.ba i }

variable {link talk} in
theorem moves_of_step {event : TalkEvent} {talk' : Talk}
    (h : talk.step link event = some talk') : talk.Moves link event talk' := by
  cases event with
  | a action =>
      simp only [step] at h
      split at h
      · cases h
      · rename_i hfrom
        obtain ⟨result, hresult, rfl⟩ := Option.map_eq_some_iff.mp h
        exact .a action result (by simpa using hfrom) hresult
  | b action =>
      simp only [step] at h
      split at h
      · cases h
      · rename_i hfrom
        obtain ⟨result, hresult, rfl⟩ := Option.map_eq_some_iff.mp h
        exact .b action result (by simpa using hfrom) hresult
  | toA ok =>
      simp only [step] at h
      split at h
      · cases h
      · rename_i frame rest hba
        obtain ⟨result, hresult, rfl⟩ := Option.map_eq_some_iff.mp h
        exact .toA ok frame rest result hba hresult
  | toB ok =>
      simp only [step] at h
      split at h
      · cases h
      · rename_i frame rest hab
        obtain ⟨result, hresult, rfl⟩ := Option.map_eq_some_iff.mp h
        exact .toB ok frame rest result hab hresult
  | loseToB i =>
      cases h
      exact .loseToB i
  | duplicateToB i =>
      cases h
      exact .duplicateToB i
  | loseToA i =>
      cases h
      exact .loseToA i
  | duplicateToA i =>
      cases h
      exact .duplicateToA i

end Talk

/-- The payload of the send in progress. -/
def RudpLoc.current : RudpLoc → List Bytes
  | .sendFrame call | .sendWait call | .sendAckAck call _ => [call.frame.data]
  | _ => []

/-- The payloads that A has passed to a send, without those of sends that
failed. -/
def Talk.line (talk : Talk) : List Bytes := talk.sent ++ talk.a.loc.current

/-- The message that `rudp_recvfrom` is acknowledging. -/
def RudpLoc.acknowledging : RudpLoc → List PendingFrame
  | .recvAck _ round | .recvWait _ round => [⟨round.source, round.frame⟩]
  | _ => []

def PendingFrame.seqBit (entry : PendingFrame) : UInt8 := entry.frame.seqBit

/-- The bit that is expected of an address. -/
def Peers.expectedBit (peers : Peers) (addr : SockAddr) : UInt8 :=
  (peers.stateOf addr).expectedSeqBit

/-- The messages of an address that carry the bit expected of it when their
turn comes. -/
abbrev newFrom (addr : SockAddr) (expected : UInt8) (entries : List PendingFrame) :
    List PendingFrame :=
  AlternatingBit.newOf PendingFrame.addr PendingFrame.seqBit (· ^^^ 1) addr expected entries

/-- The bit that is expected of the address after them. -/
abbrev bitBehind (addr : SockAddr) (expected : UInt8) (entries : List PendingFrame) : UInt8 :=
  AlternatingBit.bitAfter PendingFrame.addr PendingFrame.seqBit (· ^^^ 1) addr expected entries

/-- None of them is a duplicate when its turn comes. -/
abbrev noDuplicate (expected : SockAddr → UInt8) (entries : List PendingFrame) : Bool :=
  AlternatingBit.allNew PendingFrame.addr PendingFrame.seqBit (· ^^^ 1) expected entries

namespace Endpoint

/-- The acknowledging loop that the action ends. -/
def leavesRound (ep : Endpoint) (action : RudpAction) : Option AckRound :=
  match ep.loc, action with
  | .recvAck _ round, .sendto true =>
      (ep.pending.takeFrame round.source .ackAck round.frame.seqBit).map (fun _ => round)
  | .recvWait _ round, .timeout =>
      if round.attempts + 1 < maxTransmisionAttempts then none else some round
  | .recvWait _ round, .arrive source datagram ok =>
      if (waitArrival ep.pending round.source .ackAck round.frame.seqBit source datagram ok).1
      then some round else none
  | _, _ => none

/-- The message that the second `receive_message_frame` takes out of the
buffer, for the next round to overwrite. -/
def discards (ep : Endpoint) (action : RudpAction) : Option PendingFrame :=
  match ep.leavesRound action with
  | some round =>
      if round.isExpected then none else ep.pending.takeMessageAny.map Prod.fst
  | none => none

/-- The messages in the hands of the process, in the order in which
`rudp_recvfrom` deals with them: the one it is acknowledging, and those that
wait in the buffer. -/
def hands (ep : Endpoint) : List PendingFrame :=
  ep.loc.acknowledging ++ ep.pending.messages.entries

/-- The bit that is expected of an address once these have had their turn. -/
def bitAhead (ep : Endpoint) (addr : SockAddr) : UInt8 :=
  bitBehind addr (ep.peers.expectedBit addr) ep.hands

/-- The slot that a message goes to is above those of all messages of `addr`,
and if the message is a new one of `addr`, then no duplicate is in front of
it. -/
def inTurn (addr : SockAddr) (ep : Endpoint) (source : SockAddr) (frame : Frame) : Bool :=
  match ep.pending.firstSlot Option.isNone with
  | none => true
  | some i =>
      let front := ep.loc.acknowledging ++ ep.pending.messages.below i
      (ep.pending.messages.above i).all (fun entry => entry.addr ≠ addr) &&
        (!(source = addr &&
            frame.seqBit = bitBehind addr (ep.peers.expectedBit addr) front) ||
          noDuplicate ep.peers.expectedBit front)

/-- If `wait_for_frame` stores a message in this step, then in turn. -/
def storesInTurn (addr : SockAddr) (ep : Endpoint) (action : RudpAction) : Bool :=
  match ep.loc, action with
  | .sendWait _, .arrive source (.frame frame) _ | .recvWait _ _, .arrive source (.frame frame) _ =>
      frame.frameType ≠ .message || ep.inTurn addr source frame
  | _, _ => true

/-- The senders of waiting messages that have no entry yet. -/
def newcomers (ep : Endpoint) : Finset SockAddr :=
  (ep.pending.messages.entries.map PendingFrame.addr).toFinset.filter
    (fun addr => ep.peers.slotOf addr = none)

/-- The peer table has room for them, and for one peer more. -/
def hasRoom (ep : Endpoint) : Bool := ep.newcomers.card + ep.peers.used.card < 32

end Endpoint

/-- What A's program and system do: it sends records of the agreed size to B,
and no system call fails. -/
def RudpAction.ofSender (link : Link) : RudpAction → Bool
  | .send dest payload _ _ => dest = link.addrB && payload.length = link.size
  | .recv _ _ => false
  | .sendto ok => ok
  | .fail => false
  | _ => true

/-- What B's program and system do: it receives records of the agreed size and
sends to others, and no system call fails. -/
def RudpAction.ofReceiver (link : Link) : RudpAction → Bool
  | .send dest _ _ _ => dest ≠ link.addrA
  | .recv len _ => len = link.size
  | .sendto ok => ok
  | .fail => false
  | _ => true

/-- The two programs behave, and B has room for new peers. -/
def Talk.usual (link : Link) (talk : Talk) (event : TalkEvent) : Bool :=
  talk.b.hasRoom &&
    match event with
    | .a action => action.ofSender link
    | .b action => action.ofReceiver link
    | _ => true

/-- The payloads of A in B's hands that `rudp_recvfrom` is yet to return. -/
def Talk.due (link : Link) (talk : Talk) : List Bytes :=
  (newFrom link.addrA (talk.b.peers.expectedBit link.addrA) talk.b.hands).map
    (fun entry => entry.frame.data)

/-- B stores messages in turn. -/
def Talk.storesInTurn (link : Link) (talk : Talk) : TalkEvent → Bool
  | .b action => talk.b.storesInTurn link.addrA action
  | .toB ok =>
      match talk.ab with
      | [] => true
      | frame :: _ => talk.b.storesInTurn link.addrA (.arrive link.addrA (.frame frame) ok)
  | _ => true

/-- A takes no late acknowledgement for its own: one with the bit that B
expects next. -/
def Talk.hearsInTime (link : Link) (talk : Talk) : TalkEvent → Bool
  | .toA _ =>
      match talk.a.loc, talk.ba with
      | .sendWait call, frame :: _ =>
          !(frame.frameType = .ack && frame.seqBit = call.frame.seqBit) ||
            talk.b.bitAhead link.addrA ≠ frame.seqBit
      | _, _ => true
  | _ => true

/-- No message of A with this bit is under way, and B is yet to get one. -/
def Talk.unseen (link : Link) (talk : Talk) (seqBit : UInt8) : Bool :=
  talk.ab.all (fun frame => !(frame.frameType = .message && frame.seqBit = seqBit)) &&
    talk.b.bitAhead link.addrA = seqBit

/-- A gives up only a message that has left no trace. -/
def Talk.givesUpUnseen (link : Link) (talk : Talk) : TalkEvent → Bool
  | .a .timeout =>
      match talk.a.loc with
      | .sendWait call =>
          !(call.maxAttempts > 0 && ((call.attempts + 1 : Nat) : Int) ≥ call.maxAttempts) ||
            talk.unseen link call.frame.seqBit
      | _ => true
  | _ => true

/-- The bit of the message with this number. -/
def bitOf (n : Nat) : UInt8 := if n % 2 = 0 then 0 else 1

/-- The frame of the message with this number. -/
def frameOf (posted : List Bytes) (n : Nat) : Option Frame :=
  posted[n]?.map (fun payload => ⟨.message, bitOf n, payload⟩)

theorem bitOf_succ (n : Nat) : bitOf (n + 1) = bitOf n ^^^ 1 := by
  unfold bitOf
  rcases Nat.mod_two_eq_zero_or_one n with h | h
  · rw [if_pos h, if_neg (by omega)]
    rfl
  · rw [if_pos (by omega), if_neg (by omega)]
    rfl

theorem bitOf_succ_ne (n : Nat) : bitOf (n + 1) ≠ bitOf n := by
  unfold bitOf
  rcases Nat.mod_two_eq_zero_or_one n with h | h
  · rw [if_pos h, if_neg (by omega)]
    decide
  · rw [if_pos (by omega), if_neg (by omega)]
    decide

section FrameOf

variable {posted : List Bytes} {n : Nat} {frame : Frame}

theorem frameOf_some (h : frameOf posted n = some frame) :
    frame.frameType = .message ∧ frame.seqBit = bitOf n ∧ posted[n]? = some frame.data := by
  obtain ⟨payload, hpayload, rfl⟩ := Option.map_eq_some_iff.mp h
  exact ⟨rfl, rfl, hpayload⟩

theorem frameOf_lt (h : frameOf posted n = some frame) : n < posted.length := by
  obtain ⟨_, _, hpayload⟩ := frameOf_some h
  exact (List.getElem?_eq_some_iff.mp hpayload).1

theorem frameOf_append (h : frameOf posted n = some frame) (more : List Bytes) :
    frameOf (posted ++ more) n = some frame := by
  unfold frameOf at h ⊢
  rw [List.getElem?_append_left (frameOf_lt h)]
  exact h

theorem frameOf_of_append {more : List Bytes} (hn : n < posted.length) :
    frameOf (posted ++ more) n = frameOf posted n := by
  unfold frameOf
  rw [List.getElem?_append_left hn]

theorem frameOf_last (posted : List Bytes) (payload : Bytes) :
    frameOf (posted ++ [payload]) posted.length =
      some ⟨.message, bitOf posted.length, payload⟩ := by
  simp [frameOf]

end FrameOf

end TokenRing
