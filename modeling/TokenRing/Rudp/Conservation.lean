import Mathlib.Tactic.Abel
import TokenRing.Lib.SlotBag
import TokenRing.Rudp.Receiver

/-!
What one call of `rudp_recvfrom` does with the messages it takes out of the
buffer or reads from the socket. After a duplicate it receives once more and
the next round receives again, into the same frame: the message in between is
the one that is lost.
-/

namespace TokenRing

/-- The message that an action brings from the socket. -/
def RudpAction.message : RudpAction → Option PendingFrame
  | .arrive source (.frame frame) _ =>
      if frame.frameType = .message then some ⟨source, frame⟩ else none
  | _ => none

/-- The message that the second `receive_message_frame` gets, from the buffer
or from the socket. -/
def Endpoint.overwrites (ep : Endpoint) (action : RudpAction) : Option PendingFrame :=
  match ep.loc with
  | .recvSecond _ => action.message
  | _ => ep.discards action

def AckRound.message (round : AckRound) : PendingFrame := ⟨round.source, round.frame⟩

/-- The message that the call has in hand. -/
def RudpLoc.inHand : RudpLoc → Option PendingFrame
  | .recvAck _ round | .recvWait _ round => some round.message
  | _ => none

/-- A call of `rudp_recvfrom` under way, with the messages it has read from
the socket, the one it returned, those it acknowledged as duplicates, those its
second receive got, and its outputs. -/
structure Reception where
  ep : Endpoint
  read : Multiset PendingFrame
  returned : Option PendingFrame
  duplicates : Multiset PendingFrame
  overwritten : Multiset PendingFrame
  out : List RudpOutput

namespace Reception

def start (ep : Endpoint) (call : RecvCall) : Reception :=
  ⟨(ep.startRecv call).1, 0, none, 0, 0, (ep.startRecv call).2⟩

/-- The call after a system call with this result. -/
def after (r : Reception) (action : RudpAction) (result : Endpoint × List RudpOutput) :
    Reception :=
  { ep := result.1
    read := r.read + SlotTable.content action.message
    returned :=
      match r.ep.leavesRound action with
      | some round => if round.isExpected then some round.message else r.returned
      | none => r.returned
    duplicates :=
      match r.ep.leavesRound action with
      | some round => if round.isExpected then r.duplicates else r.duplicates + {round.message}
      | none => r.duplicates
    overwritten := r.overwritten + SlotTable.content (r.ep.overwrites action)
    out := r.out ++ result.2 }

/-- One system call; after the return there is none. -/
def step (r : Reception) (action : RudpAction) : Option Reception :=
  match r.ep.loc with
  | .idle => none
  | _ => (r.ep.step action).map (r.after action)

end Reception

/-- There is a free entry in both tables. -/
def Endpoint.HasRoom (ep : Endpoint) : Prop :=
  (∃ i, ep.peers i = none) ∧ ∃ i, ep.pending i = none

/-- No system call fails, and a datagram is no longer than the buffer it is
read into. -/
def RudpAction.succeeds : RudpAction → Bool
  | .sendto ok => ok
  | .arrive _ (.frame frame) ok => ok && decide (frame.len ≤ maxFrameSize)
  | .fail => false
  | _ => true

namespace Reception

def Sound (r : Reception) (action : RudpAction) : Prop :=
  r.ep.HasRoom ∧ action.succeeds = true

instance (r : Reception) (action : RudpAction) : Decidable (r.Sound action) :=
  inferInstanceAs (Decidable (((∃ i, r.ep.peers i = none) ∧ ∃ i, r.ep.pending i = none) ∧ _))

/-- Every message that was in the buffer or was read is in the buffer, was
returned to the caller, or was a duplicate: it did not carry the bit expected
of its sender, and it was acknowledged. -/
structure NothingLost (before : Endpoint) (call : RecvCall) (r : Reception) : Prop where
  conserved : before.pending.messages.bag + r.read =
    r.ep.pending.messages.bag + SlotTable.content r.returned + r.duplicates
  handed : ∀ message, r.returned = some message →
    message.frame.seqBit = (before.peers.stateOf message.addr).expectedSeqBit ∧
      .received message.addr (call.copied message.frame) ∈ r.out
  compared : ∀ message ∈ r.duplicates,
    message.frame.seqBit ≠ (before.peers.stateOf message.addr).expectedSeqBit ∧
      .datagram message.addr (ackFrame message.frame.seqBit) ∈ r.out

end Reception

section Calls

variable {before : Peers} {call : RecvCall} {out : List RudpOutput} {ep : Endpoint}

/-- The messages in the buffer and in hand. -/
def Endpoint.held (ep : Endpoint) : Multiset PendingFrame :=
  ep.pending.messages.bag + SlotTable.content ep.loc.inHand

/-- The bits of the peers are those before the call. -/
def SameBits (before peers : Peers) : Prop :=
  ∀ addr, peers.stateOf addr = before.stateOf addr

/-- The comparison of `rudp_recvfrom`. -/
def AckRound.Compared (before : Peers) (round : AckRound) : Prop :=
  round.isExpected = true ↔
    round.frame.seqBit = (before.stateOf round.source).expectedSeqBit

/-- What the system call at hand says about the call so far. -/
def Stands (before : Peers) (call : RecvCall) (out : List RudpOutput) (ep : Endpoint) : Prop :=
  match ep.loc with
  | .idle => True
  | .recvFirst current | .recvSecond current => current = call ∧ SameBits before ep.peers
  | .recvAck current round =>
      current = call ∧ SameBits before ep.peers ∧ round.Compared before
  | .recvWait current round =>
      current = call ∧ SameBits before ep.peers ∧ round.Compared before ∧
        .datagram round.source (ackFrame round.frame.seqBit) ∈ out
  | .sendFrame _ | .sendWait _ | .sendAckAck _ _ => False

theorem process_held (ep : Endpoint) (call : RecvCall) (hroom : ∃ i, ep.peers i = none)
    (source : SockAddr) (frame : Frame) :
    (ep.process call source frame).1.held =
      ep.pending.messages.bag + {(⟨source, frame⟩ : PendingFrame)} := by
  obtain ⟨i, peers, hget⟩ := getPeer_of_room hroom source
  simp [Endpoint.process, hget, Endpoint.held, RudpLoc.inHand, AckRound.message]

theorem process_stands (ep : Endpoint) (hroom : ∃ i, ep.peers i = none)
    (hsame : SameBits before ep.peers) (source : SockAddr) (frame : Frame) :
    Stands before call out (ep.process call source frame).1 := by
  obtain ⟨i, peers, hget⟩ := getPeer_of_room hroom source
  obtain ⟨hslot, _, hstates⟩ := Peers.getPeer_some hget
  have hbits : peers.stateAt i = before.stateOf source := by
    rw [← Peers.stateOf_eq hslot, hstates, hsame]
  simp only [Endpoint.process, hget]
  refine ⟨rfl, fun addr => (hstates addr).trans (hsame addr), ?_⟩
  simp [AckRound.Compared, hbits]

theorem takeMessageAny_bag {pending pending' : PendingFrames} {entry : PendingFrame}
    (htake : pending.takeMessageAny = some (entry, pending')) :
    pending'.messages.bag + {entry} = pending.messages.bag := by
  obtain ⟨i, hentry, hmessages⟩ := PendingFrames.takeMessageAny_some htake
  rw [hmessages]
  exact SlotTable.bag_free hentry

theorem receiveFirst_held (ep : Endpoint) (call : RecvCall) (hroom : ∃ i, ep.peers i = none) :
    (ep.receiveFirst call).1.held = ep.pending.messages.bag := by
  unfold Endpoint.receiveFirst
  split
  · rename_i entry pending htake
    have hheld := process_held { ep with pending := pending } call hroom entry.addr entry.frame
    rw [hheld, ← takeMessageAny_bag htake]
  · simp [Endpoint.held, RudpLoc.inHand]

theorem receiveFirst_stands (ep : Endpoint) (hroom : ∃ i, ep.peers i = none)
    (hsame : SameBits before ep.peers) : Stands before call out (ep.receiveFirst call).1 := by
  unfold Endpoint.receiveFirst
  split
  · rename_i entry pending htake
    exact process_stands { ep with pending := pending } hroom hsame entry.addr entry.frame
  · exact ⟨rfl, hsame⟩

/-- What is left after a round: the message of the second receive is gone. -/
theorem finishRound_held (ep : Endpoint) (call : RecvCall) (hroom : ∃ i, ep.peers i = none)
    (round : AckRound) :
    (ep.finishRound call round).1.held +
        SlotTable.content (if round.isExpected then none
          else ep.pending.takeMessageAny.map Prod.fst) =
      ep.pending.messages.bag := by
  unfold Endpoint.finishRound
  cases hexpected : round.isExpected with
  | true => simp [Endpoint.held, RudpLoc.inHand]
  | false =>
      cases htake : ep.pending.takeMessageAny with
      | none => simp [Endpoint.held, RudpLoc.inHand]
      | some taken =>
          obtain ⟨entry, pending⟩ := taken
          have hfirst := receiveFirst_held { ep with pending := pending } call hroom
          simp only [Bool.false_eq_true, if_false, Option.map_some, SlotTable.content_some]
          rw [hfirst, takeMessageAny_bag htake]

theorem finishRound_stands (ep : Endpoint) (hroom : ∃ i, ep.peers i = none)
    (hsame : SameBits before ep.peers) (round : AckRound) :
    Stands before call out (ep.finishRound call round).1 := by
  unfold Endpoint.finishRound
  split
  · trivial
  · split
    · rename_i entry pending htake
      exact receiveFirst_stands { ep with pending := pending } hroom hsame
    · exact ⟨rfl, hsame⟩

theorem finishRound_expected (ep : Endpoint) (call : RecvCall) (round : AckRound)
    (hexpected : round.isExpected = true) : (ep.finishRound call round).1.loc = .idle ∧
      .received round.source (call.copied round.frame) ∈ (ep.finishRound call round).2 := by
  simp [Endpoint.finishRound, hexpected]

/-- `receive_message_frame` finds what the action brings. -/
theorem message_arrive (pending : PendingFrames) (source : SockAddr) (datagram : Datagram)
    (ok : Bool) : (RudpAction.arrive source datagram ok).message =
      (Endpoint.receiveArrival pending source datagram).1.map (fun frame => ⟨source, frame⟩) := by
  cases datagram with
  | short => rfl
  | frame frame =>
      by_cases hmessage : frame.frameType = .message
      · simp [RudpAction.message, Endpoint.receiveArrival, hmessage]
      · simp [RudpAction.message, Endpoint.receiveArrival, hmessage]

/-- What `wait_for_frame` reads is stored, or it is the frame waited for. -/
theorem waitArrival_bag {pending pending' : PendingFrames} {expectedAddr source : SockAddr}
    {expectedSeq : UInt8} {datagram : Datagram} {ok found : Bool} {out : List RudpOutput}
    (hroom : ∃ i, pending i = none)
    (hfits : ∀ frame, datagram = .frame frame → frame.len ≤ maxFrameSize)
    (h : Endpoint.waitArrival pending expectedAddr .ackAck expectedSeq source datagram ok =
      (found, pending', out)) :
    pending'.messages.bag =
        pending.messages.bag + SlotTable.content (RudpAction.arrive source datagram ok).message ∧
      (found = true →
        pending' = pending ∧ (RudpAction.arrive source datagram ok).message = none) := by
  cases datagram with
  | short =>
      cases h
      exact ⟨by simp [RudpAction.message], nofun⟩
  | frame frame =>
      by_cases hmessage : frame.frameType = .message
      · obtain ⟨i, hfree⟩ := hroom
        have hsome : Option.isNone (pending i) = true := by rw [hfree]; rfl
        obtain ⟨j, hfirst⟩ := SlotTable.firstSlot_isSome hsome
        have hstore : pending.storeFrame source frame =
            some (pending.set j (some ⟨source, frame⟩)) := by
          have hlen := hfits frame rfl
          rw [PendingFrames.storeFrame, if_neg (by omega)]
          simp [PendingFrames.storeSlot, hmessage, hfirst]
        simp only [Endpoint.waitArrival, hmessage, if_true, hstore] at h
        cases h
        obtain ⟨k, hslot, hset⟩ := PendingFrames.storeFrame_message hmessage hstore
        rw [hset, SlotTable.bag_fill hslot]
        exact ⟨by simp [RudpAction.message, hmessage], nofun⟩
      · have hnone : (RudpAction.arrive source (.frame frame) ok).message = none := by
          simp [RudpAction.message, hmessage]
        simp only [Endpoint.waitArrival, hmessage, if_false] at h
        rw [hnone]
        split at h
        · cases h
          exact ⟨by simp, fun _ => ⟨rfl, rfl⟩⟩
        · cases h
          rw [storeFrame_getD_messages hmessage]
          exact ⟨by simp, nofun⟩

end Calls

namespace Reception

/-- What holds at every system call of the call. -/
structure Kept (before : Endpoint) (call : RecvCall) (r : Reception) : Prop where
  conserved : before.pending.messages.bag + r.read =
    r.ep.held + SlotTable.content r.returned + r.duplicates + r.overwritten
  stands : Stands before.peers call r.out r.ep
  waiting : r.ep.loc ≠ .idle → r.returned = none
  handed : ∀ message, r.returned = some message →
    message.frame.seqBit = (before.peers.stateOf message.addr).expectedSeqBit ∧
      .received message.addr (call.copied message.frame) ∈ r.out
  compared : ∀ message ∈ r.duplicates,
    message.frame.seqBit ≠ (before.peers.stateOf message.addr).expectedSeqBit ∧
      .datagram message.addr (ackFrame message.frame.seqBit) ∈ r.out

section Steps

variable {before : Endpoint} {call : RecvCall} {r : Reception} {action : RudpAction}
  {result : Endpoint × List RudpOutput} {round : AckRound}

/-- A step inside a round, or without one. -/
theorem Kept.stays (h : Kept before call r) (hopen : r.ep.loc ≠ .idle)
    (hleaves : r.ep.leavesRound action = none)
    (hheld : result.1.held + SlotTable.content (r.ep.overwrites action) =
      r.ep.held + SlotTable.content action.message)
    (hstands : Stands before.peers call (r.out ++ result.2) result.1) :
    Kept before call (r.after action result) := by
  have hreturned : (r.after action result).returned = r.returned := by
    simp only [after, hleaves]
  have hduplicates : (r.after action result).duplicates = r.duplicates := by
    simp only [after, hleaves]
  constructor
  · rw [hreturned, hduplicates, h.waiting hopen]
    have hconserved := h.conserved
    rw [h.waiting hopen] at hconserved
    simp only [after, SlotTable.content_none, add_zero] at hconserved ⊢
    calc before.pending.messages.bag + (r.read + SlotTable.content action.message)
        = before.pending.messages.bag + r.read + SlotTable.content action.message := by
          rw [add_assoc]
      _ = r.ep.held + SlotTable.content action.message + r.duplicates + r.overwritten := by
          rw [hconserved]
          abel
      _ = _ := by
          rw [← hheld]
          abel
  · exact hstands
  · intro _
    rw [hreturned]
    exact h.waiting hopen
  · rw [hreturned, h.waiting hopen]
    exact nofun
  · rw [hduplicates]
    intro message hmessage
    obtain ⟨hbit, hack⟩ := h.compared message hmessage
    exact ⟨hbit, List.mem_append_left _ hack⟩

/-- The end of a round. -/
theorem Kept.closes (h : Kept before call r) (hopen : r.ep.loc ≠ .idle)
    (hleaves : r.ep.leavesRound action = some round)
    (hhand : r.ep.loc.inHand = some round.message) (hnone : action.message = none)
    (hheld : result.1.held + SlotTable.content (r.ep.overwrites action) =
      r.ep.pending.messages.bag)
    (hstands : Stands before.peers call (r.out ++ result.2) result.1)
    (hcompared : round.Compared before.peers)
    (hack : .datagram round.source (ackFrame round.frame.seqBit) ∈ r.out ++ result.2)
    (hreceived : round.isExpected = true → result.1.loc = .idle ∧
      .received round.source (call.copied round.frame) ∈ result.2) :
    Kept before call (r.after action result) := by
  have hconserved := h.conserved
  rw [h.waiting hopen, Endpoint.held, hhand, ← hheld] at hconserved
  have hread : (r.after action result).read = r.read := by simp [after, hnone]
  have hcompare := h.compared
  cases hexpected : round.isExpected with
  | true =>
      have hreturned : (r.after action result).returned = some round.message := by
        simp [after, hleaves, hexpected]
      have hduplicates : (r.after action result).duplicates = r.duplicates := by
        simp [after, hleaves, hexpected]
      obtain ⟨hidle, hout⟩ := hreceived hexpected
      constructor
      · rw [hread, hreturned, hduplicates, hconserved]
        simp only [after, SlotTable.content_none, SlotTable.content_some]
        abel
      · exact hstands
      · intro hnot
        exact absurd hidle hnot
      · rw [hreturned]
        intro message hmessage
        cases hmessage
        exact ⟨hcompared.mp hexpected, List.mem_append_right _ hout⟩
      · rw [hduplicates]
        intro message hmessage
        obtain ⟨hbit, hold⟩ := hcompare message hmessage
        exact ⟨hbit, List.mem_append_left _ hold⟩
  | false =>
      have hreturned : (r.after action result).returned = none := by
        simp [after, hleaves, hexpected, h.waiting hopen]
      have hduplicates :
          (r.after action result).duplicates = r.duplicates + {round.message} := by
        simp [after, hleaves, hexpected]
      constructor
      · rw [hread, hreturned, hduplicates, hconserved]
        simp only [after, SlotTable.content_none, SlotTable.content_some, add_zero]
        abel
      · exact hstands
      · intro _
        exact hreturned
      · rw [hreturned]
        exact nofun
      · rw [hduplicates]
        intro message hmessage
        rcases Multiset.mem_add.mp hmessage with hold | hnew
        · obtain ⟨hbit, hack⟩ := hcompare message hold
          exact ⟨hbit, List.mem_append_left _ hack⟩
        · rw [Multiset.mem_singleton.mp hnew]
          refine ⟨fun hbit => ?_, hack⟩
          have htrue := hcompared.mpr hbit
          rw [hexpected] at htrue
          cases htrue

/-- An `ACK` is sent, and an `ACK_ACK` may be waiting for it. -/
theorem Kept.ackSent {current : RecvCall} (h : Kept before call r)
    (hloc : r.ep.loc = .recvAck current round) (hroom : r.ep.HasRoom)
    (hresult : r.ep.step (.sendto true) = some result) :
    Kept before call (r.after (.sendto true) result) := by
  have hopen : r.ep.loc ≠ .idle := by simp [hloc]
  obtain ⟨rfl, hsame, hcompared⟩ : current = call ∧ SameBits before.peers r.ep.peers ∧
      round.Compared before.peers := by
    have hstands := h.stands
    simpa only [Stands, hloc] using hstands
  have hout : result = ((r.ep.ackSent current round).1,
      .datagram round.source (ackFrame round.frame.seqBit) ::
        (r.ep.ackSent current round).2) := by
    simp only [Endpoint.step, hloc] at hresult
    exact (Option.some.inj hresult).symm
  subst hout
  have hack : .datagram round.source (ackFrame round.frame.seqBit) ∈
      r.out ++ .datagram round.source (ackFrame round.frame.seqBit) ::
        (r.ep.ackSent current round).2 :=
    List.mem_append_right _ List.mem_cons_self
  cases htake : r.ep.pending.takeFrame round.source .ackAck round.frame.seqBit with
  | none =>
      have hleaves : r.ep.leavesRound (.sendto true) = none := by
        simp [Endpoint.leavesRound, hloc, htake]
      have hafter : r.ep.ackSent current round =
          ({ r.ep with loc := .recvWait current round }, []) := by
        simp [Endpoint.ackSent, htake]
      rw [hafter] at hack ⊢
      apply h.stays hopen hleaves
      · simp [Endpoint.held, hloc, RudpLoc.inHand, Endpoint.overwrites, Endpoint.discards,
          hleaves, RudpAction.message]
      · exact ⟨rfl, hsame, hcompared, hack⟩
  | some pending =>
      have hmessages := PendingFrames.takeFrame_messages (by decide) htake
      have hleaves : r.ep.leavesRound (.sendto true) = some round := by
        simp [Endpoint.leavesRound, hloc, htake]
      have hoverwrites : r.ep.overwrites (.sendto true) =
          if round.isExpected then none else pending.takeMessageAny.map Prod.fst := by
        rw [PendingFrames.takeMessageAny_congr hmessages]
        simp [Endpoint.overwrites, hloc, Endpoint.discards, hleaves]
      have hafter : r.ep.ackSent current round =
          Endpoint.finishRound { r.ep with pending := pending } current round := by
        simp [Endpoint.ackSent, htake]
      have hheld := finishRound_held { r.ep with pending := pending } current hroom.1 round
      rw [hafter] at hack ⊢
      apply h.closes hopen hleaves (by rw [hloc]; rfl) rfl ?_ ?_ hcompared hack
      · intro hexpected
        obtain ⟨hidle, hreceived⟩ :=
          finishRound_expected { r.ep with pending := pending } current round hexpected
        exact ⟨hidle, List.mem_cons_of_mem _ hreceived⟩
      · rw [hoverwrites]
        simp only [hmessages] at hheld
        exact hheld
      · exact finishRound_stands { r.ep with pending := pending } hroom.1 hsame round

/-- No `ACK_ACK` came. -/
theorem Kept.recvTimeout {current : RecvCall} (h : Kept before call r)
    (hloc : r.ep.loc = .recvWait current round) (hroom : r.ep.HasRoom)
    (hresult : r.ep.step .timeout = some result) :
    Kept before call (r.after .timeout result) := by
  have hopen : r.ep.loc ≠ .idle := by simp [hloc]
  obtain ⟨rfl, hsame, hcompared, hack⟩ : current = call ∧ SameBits before.peers r.ep.peers ∧
      round.Compared before.peers ∧
      .datagram round.source (ackFrame round.frame.seqBit) ∈ r.out := by
    have hstands := h.stands
    simpa only [Stands, hloc] using hstands
  have hout : result = r.ep.recvTimeout current round := by
    simp only [Endpoint.step, hloc] at hresult
    exact (Option.some.inj hresult).symm
  subst hout
  by_cases hmore : round.attempts + 1 < maxTransmisionAttempts
  · have hleaves : r.ep.leavesRound .timeout = none := by
      simp [Endpoint.leavesRound, hloc, hmore]
    have hafter : r.ep.recvTimeout current round =
        ({ r.ep with
            loc := .recvAck current { round with attempts := round.attempts + 1 } }, []) := by
      simp [Endpoint.recvTimeout, hmore]
    rw [hafter]
    apply h.stays hopen hleaves
    · simp [Endpoint.held, hloc, RudpLoc.inHand, Endpoint.overwrites, Endpoint.discards,
        hleaves, RudpAction.message, AckRound.message]
    · exact ⟨rfl, hsame, hcompared⟩
  · have hleaves : r.ep.leavesRound .timeout = some round := by
      simp [Endpoint.leavesRound, hloc, hmore]
    have hafter : r.ep.recvTimeout current round =
        r.ep.finishRound current { round with attempts := round.attempts + 1 } := by
      simp [Endpoint.recvTimeout, hmore]
    have hheld := finishRound_held r.ep current hroom.1
      { round with attempts := round.attempts + 1 }
    rw [hafter]
    apply h.closes hopen hleaves (by rw [hloc]; rfl) rfl ?_ ?_ hcompared
      (List.mem_append_left _ hack)
    · exact finishRound_expected r.ep current { round with attempts := round.attempts + 1 }
    · simpa [Endpoint.overwrites, hloc, Endpoint.discards, hleaves] using hheld
    · exact finishRound_stands r.ep hroom.1 hsame _

/-- A datagram in `wait_for_frame`. -/
theorem Kept.waitArrival {current : RecvCall} {source : SockAddr} {datagram : Datagram}
    {ok : Bool} (h : Kept before call r) (hloc : r.ep.loc = .recvWait current round)
    (hroom : r.ep.HasRoom) (hfits : ∀ frame, datagram = .frame frame → frame.len ≤ maxFrameSize)
    (hresult : r.ep.step (.arrive source datagram ok) = some result) :
    Kept before call (r.after (.arrive source datagram ok) result) := by
  have hopen : r.ep.loc ≠ .idle := by simp [hloc]
  obtain ⟨rfl, hsame, hcompared, hack⟩ : current = call ∧ SameBits before.peers r.ep.peers ∧
      round.Compared before.peers ∧
      .datagram round.source (ackFrame round.frame.seqBit) ∈ r.out := by
    have hstands := h.stands
    simpa only [Stands, hloc] using hstands
  cases hwait : Endpoint.waitArrival r.ep.pending round.source .ackAck round.frame.seqBit source
      datagram ok with
  | mk found rest =>
      obtain ⟨pending, out⟩ := rest
      obtain ⟨hbag, hfound⟩ := waitArrival_bag hroom.2 hfits hwait
      cases found with
      | false =>
          have hleaves : r.ep.leavesRound (.arrive source datagram ok) = none := by
            simp [Endpoint.leavesRound, hloc, hwait]
          have hout : result = ({ r.ep with pending := pending }, out) := by
            simp only [Endpoint.step, Endpoint.arrival, hloc, hwait] at hresult
            simpa [hloc] using (Option.some.inj hresult).symm
          subst hout
          apply h.stays hopen hleaves
          · simp only [Endpoint.held, hloc, RudpLoc.inHand, Endpoint.overwrites,
              Endpoint.discards, hleaves, hbag, SlotTable.content_none, add_zero]
            abel
          · simp only [Stands, hloc]
            exact ⟨trivial, hsame, hcompared, List.mem_append_left _ hack⟩
      | true =>
          obtain ⟨rfl, hnone⟩ := hfound rfl
          have hleaves : r.ep.leavesRound (.arrive source datagram ok) = some round := by
            simp [Endpoint.leavesRound, hloc, hwait]
          have hout : result = ((r.ep.finishRound current round).1,
              out ++ (r.ep.finishRound current round).2) := by
            simp only [Endpoint.step, Endpoint.arrival, hloc, hwait] at hresult
            exact (Option.some.inj hresult).symm
          subst hout
          apply h.closes hopen hleaves (by rw [hloc]; rfl) hnone ?_ ?_ hcompared
            (List.mem_append_left _ hack)
          · intro hexpected
            obtain ⟨hidle, hreceived⟩ := finishRound_expected r.ep current round hexpected
            exact ⟨hidle, List.mem_append_right _ hreceived⟩
          · have hheld := finishRound_held r.ep current hroom.1 round
            simpa [Endpoint.overwrites, hloc, Endpoint.discards, hleaves] using hheld
          · exact finishRound_stands r.ep hroom.1 hsame round

/-- A datagram at the first `receive_message_frame`. -/
theorem Kept.firstArrival {current : RecvCall} {source : SockAddr} {datagram : Datagram}
    {ok : Bool} (h : Kept before call r) (hloc : r.ep.loc = .recvFirst current)
    (hroom : r.ep.HasRoom)
    (hresult : r.ep.step (.arrive source datagram ok) = some result) :
    Kept before call (r.after (.arrive source datagram ok) result) := by
  have hopen : r.ep.loc ≠ .idle := by simp [hloc]
  obtain ⟨rfl, hsame⟩ : current = call ∧ SameBits before.peers r.ep.peers := by
    have hstands := h.stands
    simpa only [Stands, hloc] using hstands
  have hleaves : r.ep.leavesRound (.arrive source datagram ok) = none := by
    simp [Endpoint.leavesRound, hloc]
  have hoverwrites : r.ep.overwrites (.arrive source datagram ok) = none := by
    simp [Endpoint.overwrites, hloc, Endpoint.discards, hleaves]
  simp only [Endpoint.step, Endpoint.arrival, hloc] at hresult
  rcases receiveArrival_cases r.ep.pending source datagram with
    ⟨frame, rfl, hmessage, harrived⟩ | ⟨pending, hmessages, harrived⟩
  · rw [harrived] at hresult
    cases hresult
    apply h.stays hopen hleaves
    · have hheld := process_held { r.ep with loc := .recvFirst current } current hroom.1 source
        frame
      rw [hoverwrites, hheld]
      simp [Endpoint.held, hloc, RudpLoc.inHand, RudpAction.message, hmessage]
    · exact process_stands { r.ep with loc := .recvFirst current } hroom.1 hsame source frame
  · rw [harrived] at hresult
    cases hresult
    have hnone := message_arrive r.ep.pending source datagram ok
    rw [harrived] at hnone
    apply h.stays hopen hleaves
    · rw [hoverwrites, hnone]
      simp [Endpoint.held, hloc, hmessages]
    · exact ⟨rfl, hsame⟩

/-- A datagram at the second `receive_message_frame`. -/
theorem Kept.secondArrival {current : RecvCall} {source : SockAddr} {datagram : Datagram}
    {ok : Bool} (h : Kept before call r) (hloc : r.ep.loc = .recvSecond current)
    (hroom : r.ep.HasRoom)
    (hresult : r.ep.step (.arrive source datagram ok) = some result) :
    Kept before call (r.after (.arrive source datagram ok) result) := by
  have hopen : r.ep.loc ≠ .idle := by simp [hloc]
  obtain ⟨rfl, hsame⟩ : current = call ∧ SameBits before.peers r.ep.peers := by
    have hstands := h.stands
    simpa only [Stands, hloc] using hstands
  have hleaves : r.ep.leavesRound (.arrive source datagram ok) = none := by
    simp [Endpoint.leavesRound, hloc]
  have hoverwrites : r.ep.overwrites (.arrive source datagram ok) =
      (RudpAction.arrive source datagram ok).message := by
    simp [Endpoint.overwrites, hloc]
  simp only [Endpoint.step, Endpoint.arrival, hloc] at hresult
  rcases receiveArrival_cases r.ep.pending source datagram with
    ⟨frame, rfl, hmessage, harrived⟩ | ⟨pending, hmessages, harrived⟩
  · rw [harrived] at hresult
    cases hresult
    apply h.stays hopen hleaves
    · have hheld := receiveFirst_held { r.ep with loc := .recvSecond current } current hroom.1
      rw [hoverwrites, hheld]
      simp [Endpoint.held, hloc, RudpLoc.inHand]
    · exact receiveFirst_stands { r.ep with loc := .recvSecond current } hroom.1 hsame
  · rw [harrived] at hresult
    cases hresult
    have hnone := message_arrive r.ep.pending source datagram ok
    rw [harrived] at hnone
    apply h.stays hopen hleaves
    · rw [hoverwrites, hnone]
      simp [Endpoint.held, hloc, hmessages]
    · exact ⟨rfl, hsame⟩

/-- The socket is empty, and the call returns 1. -/
theorem Kept.wouldBlock (h : Kept before call r) (hopen : r.ep.loc ≠ .idle)
    (hresult : r.ep.step .wouldBlock = some result) :
    Kept before call (r.after .wouldBlock result) := by
  have hleaves : r.ep.leavesRound .wouldBlock = none := by
    unfold Endpoint.leavesRound
    cases r.ep.loc <;> rfl
  cases hloc : r.ep.loc with
  | recvFirst current | recvSecond current =>
      simp only [Endpoint.step, hloc] at hresult
      cases hresult
      apply h.stays hopen hleaves
      · simp [Endpoint.held, hloc, RudpLoc.inHand, Endpoint.overwrites, Endpoint.discards,
          hleaves, RudpAction.message]
      · trivial
  | _ =>
      simp only [Endpoint.step, hloc] at hresult
      cases hresult

theorem Kept.after (h : Kept before call r) (hopen : r.ep.loc ≠ .idle)
    (hroom : r.ep.HasRoom) (hsucceeds : action.succeeds = true)
    (hresult : r.ep.step action = some result) : Kept before call (r.after action result) := by
  have hstands := h.stands
  have hfits : ∀ source ok frame, action = .arrive source (.frame frame) ok →
      frame.len ≤ maxFrameSize := by
    rintro source ok frame rfl
    simp only [RudpAction.succeeds, Bool.and_eq_true, decide_eq_true_eq] at hsucceeds
    exact hsucceeds.2
  cases Endpoint.acts_of_step hresult with
  | ackSent current round hloc => exact h.ackSent hloc hroom hresult
  | firstArrival current hloc source datagram ok harrival =>
      exact h.firstArrival hloc hroom hresult
  | waitArrival current round hloc source datagram ok harrival =>
      exact h.waitArrival hloc hroom (fun frame heq => hfits source ok frame (by rw [heq])) hresult
  | secondArrival current hloc source datagram ok harrival =>
      exact h.secondArrival hloc hroom hresult
  | recvTimeout current round hloc => exact h.recvTimeout hloc hroom hresult
  | firstBlocked current hloc | secondBlocked current hloc => exact h.wouldBlock hopen hresult
  | startSend hloc | startRecv hloc => exact absurd hloc hopen
  | frameSent current hloc | sendTimeout current hloc | sendArrival current hloc =>
      simp only [Stands, hloc] at hstands
  | ackAckSent current sent hloc => simp only [Stands, hloc] at hstands
  | frameFailed | ackAckFailed | ackFailed => cases hsucceeds
  | sendWaitFailed | firstFailed | recvWaitFailed | secondFailed => cases hsucceeds

theorem Kept.start (hidle : before.loc = .idle) (hroom : before.HasRoom) (call : RecvCall) :
    Kept before call (start before call) := by
  have hheld : (before.startRecv call).1.held = before.pending.messages.bag := by
    unfold Endpoint.startRecv
    split
    · simp [Endpoint.held, hidle, RudpLoc.inHand]
    · exact receiveFirst_held before call hroom.1
  constructor
  · simp [Reception.start, hheld]
  · simp only [Reception.start, Endpoint.startRecv]
    split
    · simp only [Stands, hidle]
    · exact receiveFirst_stands before hroom.1 (fun _ => rfl)
  · intro _
    rfl
  · exact nofun
  · intro message hmessage
    cases hmessage

theorem kept_of_reaches (hidle : before.loc = .idle) (hroom : before.HasRoom)
    (h : Lts.Reaches step Sound (Reception.start before call) r) : Kept before call r := by
  refine h.invariant (Kept before call) (Kept.start hidle hroom call) ?_
  intro now action later hnow hsound hstep
  unfold step at hstep
  split at hstep
  · cases hstep
  · rename_i hopen
    obtain ⟨result, hresult, rfl⟩ := Option.map_eq_some_iff.mp hstep
    exact hnow.after hopen hsound.1 hsound.2 hresult

end Steps

/-- A returned call of `rudp_recvfrom` has lost no message exactly when its
second receive got none. -/
theorem nothing_lost_iff {before : Endpoint} {call : RecvCall} {r : Reception}
    (hidle : before.loc = .idle) (hroom : before.HasRoom)
    (h : Lts.Reaches step Sound (start before call) r) (hreturned : r.ep.loc = .idle) :
    NothingLost before call r ↔ r.overwritten = 0 := by
  have hkept := kept_of_reaches hidle hroom h
  have hconserved := hkept.conserved
  have hheld : r.ep.held = r.ep.pending.messages.bag := by
    simp [Endpoint.held, hreturned, RudpLoc.inHand]
  rw [hheld] at hconserved
  constructor
  · intro hnothing
    rw [hnothing.conserved] at hconserved
    exact left_eq_add.mp hconserved
  · intro hnone
    rw [hnone, add_zero] at hconserved
    exact ⟨hconserved, hkept.handed, hkept.compared⟩

section Examples

def sender : SockAddr := ⟨2, 5001, 1⟩

def callForOne : RecvCall := ⟨1, []⟩

/-- The acknowledging loop for one message without an answer. -/
def unansweredRound : List RudpAction :=
  [.sendto true, .timeout, .sendto true, .timeout, .sendto true, .timeout]

theorem start_hasRoom : Endpoint.start.HasRoom := ⟨⟨0, rfl⟩, ⟨0, rfl⟩⟩

/-- A duplicate comes first, its acknowledgement is answered, and behind it the
socket holds a control frame only. -/
theorem duplicate_acknowledged_kept :
    ∃ r, Lts.Reaches step Sound (start Endpoint.start callForOne) r ∧
      r.duplicates.card = 1 ∧ r.out.getLast? = some .nothing ∧
      NothingLost Endpoint.start callForOne r := by
  have hexec : (Lts.exec (Lts.restrict (fun r action => decide (r.Sound action)) step)
      (start Endpoint.start callForOne)
      [.arrive sender (.frame ⟨.message, 1, [6]⟩) true, .sendto true, .timeout, .sendto true,
        .arrive sender (.frame (ackAckFrame 1)) true, .arrive sender (.frame (ackAckFrame 1)) true,
        .wouldBlock]).map
      (fun r => (r.ep.loc.isIdle, r.duplicates.card, r.out.getLast?, r.overwritten)) =
        some (true, 1, some .nothing, 0) := by
    decide +kernel
  obtain ⟨r, hrun, hfacts⟩ := Option.map_eq_some_iff.mp hexec
  simp only [Prod.mk.injEq] at hfacts
  obtain ⟨hidle, hduplicates, hout, hnone⟩ := hfacts
  have hreach : Lts.Reaches step Sound (start Endpoint.start callForOne) r :=
    Lts.reaches_of_exec_restrict (fun _ _ => of_decide_eq_true) hrun
  exact ⟨r, hreach, hduplicates, hout,
    (nothing_lost_iff rfl start_hasRoom hreach (RudpLoc.isIdle_iff.mp hidle)).mpr hnone⟩

/-- A duplicate and, behind it, the message that is expected: the call
acknowledges the first and returns with nothing, and the second is gone. -/
theorem message_behind_duplicate_lost :
    ¬ ∀ (before : Endpoint) (call : RecvCall) (r : Reception), before.loc = .idle →
      before.HasRoom → Lts.Reaches step Sound (start before call) r → r.ep.loc = .idle →
        NothingLost before call r := by
  intro hall
  have hexec : (Lts.exec (Lts.restrict (fun r action => decide (r.Sound action)) step)
      (start Endpoint.start callForOne)
      (.arrive sender (.frame ⟨.message, 1, [6]⟩) true :: unansweredRound ++
        [.arrive sender (.frame ⟨.message, 0, [7]⟩) true, .wouldBlock])).map
      (fun r => (r.ep.loc.isIdle, r.read.card, r.ep.pending.messages.bag.card, r.returned,
        r.duplicates.card)) = some (true, 2, 0, none, 1) := by
    decide +kernel
  obtain ⟨r, hrun, hfacts⟩ := Option.map_eq_some_iff.mp hexec
  simp only [Prod.mk.injEq] at hfacts
  obtain ⟨hidle, hread, hbag, hreturned, hduplicates⟩ := hfacts
  have hreach : Lts.Reaches step Sound (start Endpoint.start callForOne) r :=
    Lts.reaches_of_exec_restrict (fun _ _ => of_decide_eq_true) hrun
  have hnothing := hall Endpoint.start callForOne r rfl start_hasRoom hreach
    (RudpLoc.isIdle_iff.mp hidle)
  have hcards := congrArg Multiset.card hnothing.conserved
  rw [hreturned] at hcards
  simp only [Multiset.card_add, SlotTable.content_none, Multiset.card_zero] at hcards
  omega

end Examples

end Reception

end TokenRing
