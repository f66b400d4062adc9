import TokenRing.Rudp.Conservation

/-!
What `rudp_recvfrom` returns, and at which system call: the message that a
round begins with decides whether the peer table refuses its sender, and the
round that ends decides what the caller gets.
-/

namespace TokenRing

/-- The return of `rudp_recvfrom`: the record with the value 0, or one of the
values 1 and -1. -/
inductive RecvResult where
  | message (wire : Bytes)
  | nothing
  | failed
deriving DecidableEq

def RudpOutput.result : RudpOutput → Option RecvResult
  | .received _ payload => some (.message payload)
  | .nothing => some .nothing
  | .recvFailed => some .failed
  | .datagram _ _ | .sent _ _ | .sendFailed _ => none

def recvResult (out : List RudpOutput) : Option RecvResult := out.findSome? RudpOutput.result

namespace PendingFrames

/-- `rudp_has_pending`. -/
def hasMessage (pending : PendingFrames) : Bool :=
  (pending.firstSlot (fun content => content.any PendingFrame.isMessage)).isSome

def firstMessage (pending : PendingFrames) : Option PendingFrame :=
  pending.takeMessageAny.map Prod.fst

/-- The message that is first once the first one is taken. -/
def secondMessage (pending : PendingFrames) : Option PendingFrame :=
  pending.takeMessageAny.bind (fun taken => taken.2.firstMessage)

end PendingFrames

/-- The table has an entry of the address, or a free one. -/
def Peers.admits (peers : Peers) (addr : SockAddr) : Bool :=
  (peers.slotOf addr).isSome || decide (∃ i, peers i = none)

namespace Endpoint

/-- The message with which the action begins a round of `rudp_recvfrom`. After
a duplicate, the first message in the buffer is skipped. -/
def takesUp (ep : Endpoint) (action : RudpAction) : Option PendingFrame :=
  match ep.loc, action with
  | .idle, .recv _ _ => ep.pending.firstMessage
  | .recvFirst _, _ => action.message
  | .recvSecond _, _ => action.message.bind (fun _ => ep.pending.firstMessage)
  | _, _ => (ep.leavesRound action).bind (fun round =>
      if round.isExpected then none else ep.pending.secondMessage)

/-- The record that the action makes `rudp_recvfrom` return. -/
def handsOver (ep : Endpoint) (action : RudpAction) : Option Bytes :=
  match ep.loc with
  | .recvAck call _ | .recvWait call _ =>
      (ep.leavesRound action).bind (fun round =>
        if round.isExpected then some (call.copied round.frame) else none)
  | _ => none

/-- The sender of a message taken up gets an entry in the peer table. -/
def admits (ep : Endpoint) (action : RudpAction) : Bool :=
  (ep.takesUp action).all (fun message => ep.peers.admits message.addr)

end Endpoint

section Results

variable {ep ep' : Endpoint} {action : RudpAction} {out : List RudpOutput}

@[simp] theorem recvResult_nil : recvResult [] = none := rfl

@[simp] theorem recvResult_cons (output : RudpOutput) (rest : List RudpOutput) :
    recvResult (output :: rest) = output.result.or (recvResult rest) := by
  unfold recvResult
  rw [List.findSome?_cons]
  cases output.result <;> rfl

theorem recvResult_of_eq {result : Endpoint × List RudpOutput}
    (h : some result = some (ep', out)) : recvResult out = recvResult result.2 := by
  rw [Option.some.inj h]

theorem Peers.getPeer_eq_none {peers : Peers} {addr : SockAddr} :
    peers.getPeer addr true = none ↔ peers.admits addr = false := by
  unfold Peers.getPeer Peers.admits
  cases peers.slotOf addr with
  | some i => simp
  | none => simp [SlotTable.firstSlot_eq_none_iff, Option.isSome_iff_ne_none]

theorem PendingFrames.secondMessage_congr {pending pending' : PendingFrames}
    (hmessages : pending'.messages = pending.messages) :
    pending'.secondMessage = pending.secondMessage := by
  unfold PendingFrames.secondMessage PendingFrames.firstMessage
  rw [PendingFrames.takeMessageAny_eq, PendingFrames.takeMessageAny_eq, hmessages]
  cases pending.messages.firstSlot Option.isSome with
  | none => rfl
  | some i =>
      cases hslot : pending.messages i with
      | none => simp [hslot]
      | some entry =>
          have hset : PendingFrames.messages (pending'.set i none) =
              PendingFrames.messages (pending.set i none) := by
            rw [PendingFrames.messages_set, PendingFrames.messages_set, hmessages]
          simpa [hslot] using PendingFrames.takeMessageAny_congr hset

/-- What a message that is taken up leads to. -/
def Peers.outcome (peers : Peers) (message : Option PendingFrame) : Option RecvResult :=
  if message.all (fun entry => peers.admits entry.addr) then none else some .failed

theorem process_result (ep : Endpoint) (call : RecvCall) (source : SockAddr) (frame : Frame) :
    recvResult (ep.process call source frame).2 = ep.peers.outcome (some ⟨source, frame⟩) := by
  unfold Endpoint.process Peers.outcome
  cases hget : ep.peers.getPeer source true with
  | none => simp [Peers.getPeer_eq_none.mp hget, RudpOutput.result]
  | some got =>
      have hadmits : ep.peers.admits source = true := by
        by_contra hnot
        rw [Peers.getPeer_eq_none.mpr (by simpa using hnot)] at hget
        cases hget
      simp [hadmits]

theorem receiveFirst_result (ep : Endpoint) (call : RecvCall) :
    recvResult (ep.receiveFirst call).2 = ep.peers.outcome ep.pending.firstMessage := by
  unfold Endpoint.receiveFirst PendingFrames.firstMessage
  cases htake : ep.pending.takeMessageAny with
  | none => rfl
  | some taken =>
      exact process_result { ep with pending := taken.2 } call taken.1.addr taken.1.frame

theorem finishRound_result (ep : Endpoint) (call : RecvCall) (round : AckRound) :
    recvResult (ep.finishRound call round).2 =
      if round.isExpected then some (.message (call.copied round.frame))
      else ep.peers.outcome ep.pending.secondMessage := by
  unfold Endpoint.finishRound PendingFrames.secondMessage
  cases round.isExpected with
  | true => rfl
  | false =>
      cases htake : ep.pending.takeMessageAny with
      | none => rfl
      | some taken => exact receiveFirst_result { ep with pending := taken.2 } call

theorem waitArrival_result {pending pending' : PendingFrames} {expectedAddr source : SockAddr}
    {expectedType : FrameType} {expectedSeq : UInt8} {datagram : Datagram} {ok found : Bool}
    (h : Endpoint.waitArrival pending expectedAddr expectedType expectedSeq source datagram ok =
      (found, pending', out)) :
    recvResult out = none ∧ (found = true → pending' = pending ∧ out = []) := by
  unfold Endpoint.waitArrival at h
  split at h
  · cases h
    exact ⟨rfl, nofun⟩
  split at h
  · split at h
    · cases h
      exact ⟨by cases ok <;> rfl, nofun⟩
    · cases h
      exact ⟨rfl, nofun⟩
  split at h
  · cases h
    exact ⟨rfl, fun _ => ⟨rfl, rfl⟩⟩
  · cases h
    exact ⟨rfl, nofun⟩

/-- The return that an action leads to, in a call of `rudp_recvfrom`. -/
def Endpoint.returns (ep : Endpoint) (action : RudpAction) : Option RecvResult :=
  match ep.handsOver action, action with
  | some wire, _ => some (.message wire)
  | none, .wouldBlock => some .nothing
  | none, _ => ep.peers.outcome (ep.takesUp action)

theorem returns_of_none (haction : action ≠ .wouldBlock) (hhands : ep.handsOver action = none)
    (htakes : ep.takesUp action = none) : ep.returns action = none := by
  unfold Endpoint.returns
  rw [hhands, htakes]
  cases action <;> first | rfl | exact absurd rfl haction

/-- The end of a round, seen from the action that ends it. -/
theorem returns_of_leaves {call : RecvCall} {round round' : AckRound}
    (hloc : ep.loc = .recvAck call round' ∨ ep.loc = .recvWait call round')
    (hleaves : ep.leavesRound action = some round) :
    ep.returns action =
      if round.isExpected then some (.message (call.copied round.frame))
      else ep.peers.outcome ep.pending.secondMessage := by
  have haction : action ≠ .wouldBlock := by
    rintro rfl
    rcases hloc with hloc | hloc <;> simp [Endpoint.leavesRound, hloc] at hleaves
  have htakes : ep.takesUp action =
      if round.isExpected then none else ep.pending.secondMessage := by
    rcases hloc with hloc | hloc <;> simp [Endpoint.takesUp, hloc, hleaves]
  have hhands : ep.handsOver action =
      if round.isExpected then some (call.copied round.frame) else none := by
    rcases hloc with hloc | hloc <;> simp [Endpoint.handsOver, hloc, hleaves]
  unfold Endpoint.returns
  rw [hhands, htakes]
  cases round.isExpected with
  | true => rfl
  | false => cases action <;> first | rfl | exact absurd rfl haction

/-- An action within a round leads to no return. -/
theorem returns_of_stays {call : RecvCall} {round : AckRound}
    (hloc : ep.loc = .recvAck call round ∨ ep.loc = .recvWait call round)
    (haction : action ≠ .wouldBlock) (hleaves : ep.leavesRound action = none) :
    ep.returns action = none := by
  have htakes : ep.takesUp action = none := by
    rcases hloc with hloc | hloc <;> simp [Endpoint.takesUp, hloc, hleaves]
  have hhands : ep.handsOver action = none := by
    rcases hloc with hloc | hloc <;> simp [Endpoint.handsOver, hloc, hleaves]
  exact returns_of_none haction hhands htakes

theorem startSend_result (dest : SockAddr) (payload : Bytes) (maxAttempts : Int)
    (allocated : Bool) :
    recvResult (ep.startSend dest payload maxAttempts allocated).2 = none := by
  unfold Endpoint.startSend
  split
  · rfl
  split
  · rfl
  split <;> rfl

theorem sendTimeout_result (call : SendCall) : recvResult (ep.sendTimeout call).2 = none := by
  unfold Endpoint.sendTimeout
  simp only
  split <;> rfl

theorem ackAckSent_result (call : SendCall) (sent : Nat) :
    recvResult (ep.ackAckSent call sent).2 = none := by
  unfold Endpoint.ackAckSent
  simp only
  split <;> rfl

theorem sendto_result {call : RecvCall} {round : AckRound} (hloc : ep.loc = .recvAck call round)
    (hstep : ep.step (.sendto true) = some (ep', out)) :
    recvResult out = ep.returns (.sendto true) := by
  have hout : out = .datagram round.source (ackFrame round.frame.seqBit) ::
      (ep.ackSent call round).2 := by
    simp only [Endpoint.step, hloc, Option.some.injEq, Prod.mk.injEq] at hstep
    exact hstep.2.symm
  rw [hout, recvResult_cons]
  unfold Endpoint.ackSent
  cases htake : ep.pending.takeFrame round.source .ackAck round.frame.seqBit with
  | none =>
      have hleaves : ep.leavesRound (.sendto true) = none := by
        simp [Endpoint.leavesRound, hloc, htake]
      rw [returns_of_stays (.inl hloc) (by simp) hleaves]
      rfl
  | some pending =>
      have hleaves : ep.leavesRound (.sendto true) = some round := by
        simp [Endpoint.leavesRound, hloc, htake]
      have hmessages := PendingFrames.takeFrame_messages (by simp) htake
      rw [returns_of_leaves (.inl hloc) hleaves,
        ← PendingFrames.secondMessage_congr hmessages]
      exact finishRound_result { ep with pending := pending } call round

theorem timeout_result {call : RecvCall} {round : AckRound} (hloc : ep.loc = .recvWait call round)
    (hstep : ep.step .timeout = some (ep', out)) : recvResult out = ep.returns .timeout := by
  have hout : out = (ep.recvTimeout call round).2 := by
    simp only [Endpoint.step, hloc, Option.some.injEq] at hstep
    rw [hstep]
  rw [hout]
  unfold Endpoint.recvTimeout
  by_cases hmore : round.attempts + 1 < maxTransmisionAttempts
  · have hleaves : ep.leavesRound .timeout = none := by
      simp [Endpoint.leavesRound, hloc, hmore]
    rw [returns_of_stays (.inr hloc) (by simp) hleaves]
    simp [hmore]
  · have hleaves : ep.leavesRound .timeout = some round := by
      simp [Endpoint.leavesRound, hloc, hmore]
    rw [returns_of_leaves (.inr hloc) hleaves]
    simp only [hmore, if_false]
    exact finishRound_result ep call { round with attempts := round.attempts + 1 }

theorem waited_result {call : RecvCall} {round : AckRound} {source : SockAddr}
    {datagram : Datagram} {ok : Bool} (hloc : ep.loc = .recvWait call round)
    (hstep : ep.step (.arrive source datagram ok) = some (ep', out)) :
    recvResult out = ep.returns (.arrive source datagram ok) := by
  simp only [Endpoint.step, Endpoint.arrival, hloc] at hstep
  cases hwait : Endpoint.waitArrival ep.pending round.source .ackAck round.frame.seqBit source
      datagram ok with
  | mk found rest =>
      obtain ⟨pending, waited⟩ := rest
      obtain ⟨hnone, hfound⟩ := waitArrival_result hwait
      rw [hwait] at hstep
      cases found with
      | false =>
          have hleaves : ep.leavesRound (.arrive source datagram ok) = none := by
            simp [Endpoint.leavesRound, hloc, hwait]
          cases hstep
          rw [returns_of_stays (.inr hloc) (by simp) hleaves, hnone]
      | true =>
          have hleaves : ep.leavesRound (.arrive source datagram ok) = some round := by
            simp [Endpoint.leavesRound, hloc, hwait]
          obtain ⟨rfl, rfl⟩ := hfound rfl
          cases hstep
          rw [returns_of_leaves (.inr hloc) hleaves]
          exact finishRound_result ep call round

theorem receivedFirst_result {call : RecvCall} {source : SockAddr} {datagram : Datagram}
    {ok : Bool} (hloc : ep.loc = .recvFirst call)
    (hstep : ep.step (.arrive source datagram ok) = some (ep', out)) :
    recvResult out = ep.returns (.arrive source datagram ok) := by
  have hreturns : ep.returns (.arrive source datagram ok) =
      ep.peers.outcome (RudpAction.arrive source datagram ok).message := by
    simp [Endpoint.returns, Endpoint.handsOver, Endpoint.takesUp, hloc]
  rw [hreturns, message_arrive ep.pending source datagram ok]
  simp only [Endpoint.step, Endpoint.arrival, hloc] at hstep
  split at hstep
  · rename_i frame pending harrival
    rw [harrival, recvResult_of_eq hstep]
    exact process_result { ep with pending := pending } call source frame
  · rename_i pending harrival
    cases hstep
    rw [harrival]
    rfl

/-- The message read here is overwritten: the round begins with the first one
in the buffer. -/
theorem receivedSecond_result {call : RecvCall} {source : SockAddr} {datagram : Datagram}
    {ok : Bool} (hloc : ep.loc = .recvSecond call)
    (hstep : ep.step (.arrive source datagram ok) = some (ep', out)) :
    recvResult out = ep.returns (.arrive source datagram ok) := by
  have hreturns : ep.returns (.arrive source datagram ok) =
      ep.peers.outcome ((RudpAction.arrive source datagram ok).message.bind
        (fun _ => ep.pending.firstMessage)) := by
    simp [Endpoint.returns, Endpoint.handsOver, Endpoint.takesUp, hloc]
  rw [hreturns, message_arrive ep.pending source datagram ok]
  simp only [Endpoint.step, Endpoint.arrival, hloc] at hstep
  split at hstep
  · rename_i frame pending harrival
    have hsame : pending = ep.pending := by
      unfold Endpoint.receiveArrival at harrival
      split at harrival
      · cases harrival
      · split at harrival <;> cases harrival
        rfl
    rw [harrival, recvResult_of_eq hstep, hsame]
    exact receiveFirst_result { ep with pending := ep.pending } call
  · rename_i pending harrival
    cases hstep
    rw [harrival]
    rfl

theorem receivedSending_result {call : SendCall} {source : SockAddr} {datagram : Datagram}
    {ok : Bool} (hloc : ep.loc = .sendWait call)
    (hstep : ep.step (.arrive source datagram ok) = some (ep', out)) :
    recvResult out = ep.returns (.arrive source datagram ok) := by
  rw [returns_of_none (by simp) (by simp [Endpoint.handsOver, hloc])
    (by simp [Endpoint.takesUp, Endpoint.leavesRound, hloc])]
  simp only [Endpoint.step, Endpoint.arrival, hloc] at hstep
  cases hwait : Endpoint.waitArrival ep.pending call.dest .ack
      (ep.peers.stateAt call.peer).sendSeqBit source datagram ok with
  | mk found rest =>
      have hnone := (waitArrival_result hwait).1
      rw [hwait] at hstep
      cases found <;> cases hstep <;> exact hnone

/-- What `rudp_recvfrom` returns at a system call that does not fail. -/
theorem Endpoint.step_result (hsucceeds : action.succeeds = true)
    (hfits : ∀ len buffer, action = .recv len buffer → headerSize + len ≤ maxFrameSize)
    (hstep : ep.step action = some (ep', out)) : recvResult out = ep.returns action := by
  have hacts := Endpoint.acts_of_step hstep
  generalize hresult : (ep', out) = result at hacts
  have hout : out = result.2 := congrArg Prod.snd hresult
  cases hacts with
  | ackSent call round hloc => exact sendto_result hloc hstep
  | firstArrival call hloc source datagram ok harrival => exact receivedFirst_result hloc hstep
  | waitArrival call round hloc source datagram ok harrival => exact waited_result hloc hstep
  | secondArrival call hloc source datagram ok harrival =>
      exact receivedSecond_result hloc hstep
  | sendArrival call hloc source datagram ok harrival =>
      exact receivedSending_result hloc hstep
  | recvTimeout call round hloc => exact timeout_result hloc hstep
  | startRecv hloc len buffer =>
      rw [hout, Endpoint.startRecv, if_neg (Nat.not_lt.mpr (hfits len buffer rfl)),
        receiveFirst_result]
      simp [Endpoint.returns, Endpoint.handsOver, Endpoint.takesUp, hloc]
  | startSend hloc dest payload maxAttempts allocated =>
      rw [hout, startSend_result]
      exact (returns_of_none (by simp) (by simp [Endpoint.handsOver, hloc])
        (by simp [Endpoint.takesUp, Endpoint.leavesRound, hloc])).symm
  | frameSent call hloc =>
      rw [hout]
      exact (returns_of_none (by simp) (by simp [Endpoint.handsOver, hloc])
        (by simp [Endpoint.takesUp, Endpoint.leavesRound, hloc])).symm
  | ackAckSent call sent hloc =>
      rw [hout, ackAckSent_result]
      exact (returns_of_none (by simp) (by simp [Endpoint.handsOver, hloc])
        (by simp [Endpoint.takesUp, Endpoint.leavesRound, hloc])).symm
  | sendTimeout call hloc =>
      rw [hout, sendTimeout_result]
      exact (returns_of_none (by simp) (by simp [Endpoint.handsOver, hloc])
        (by simp [Endpoint.takesUp, Endpoint.leavesRound, hloc])).symm
  | firstBlocked call hloc | secondBlocked call hloc =>
      rw [hout]
      simp [Endpoint.returns, Endpoint.handsOver, hloc, RudpOutput.result]
  | frameFailed | ackAckFailed | ackFailed => cases hsucceeds
  | sendWaitFailed | firstFailed | recvWaitFailed | secondFailed => cases hsucceeds

theorem takesUp_of_handsOver {wire : Bytes} (h : ep.handsOver action = some wire) :
    ep.takesUp action = none := by
  unfold Endpoint.handsOver at h
  split at h
  all_goals first | cases h | skip
  all_goals
    rename_i call round hloc
    obtain ⟨left, hleaves, hgiven⟩ := Option.bind_eq_some_iff.mp h
    have hexpected : left.isExpected = true := by
      by_contra hnot
      rw [if_neg hnot] at hgiven
      cases hgiven
    simp [Endpoint.takesUp, hloc, hleaves, hexpected]

theorem takesUp_wouldBlock (ep : Endpoint) : ep.takesUp .wouldBlock = none := by
  cases hloc : ep.loc <;>
    simp [Endpoint.takesUp, Endpoint.leavesRound, RudpAction.message, hloc]

/-- `rudp_recvfrom` returns a record, or -1 for a sender that finds no room in
the peer table, or neither. -/
theorem Endpoint.returns_cases (ep : Endpoint) (action : RudpAction) :
    (∃ wire, ep.handsOver action = some wire ∧ ep.admits action = true ∧
        ep.returns action = some (.message wire)) ∨
      (ep.handsOver action = none ∧ ep.admits action = false ∧
        ep.returns action = some .failed) ∨
      (ep.handsOver action = none ∧ ep.admits action = true ∧
        (ep.returns action = some .nothing ∨ ep.returns action = none)) := by
  cases hhands : ep.handsOver action with
  | some wire =>
      have hadmits : ep.admits action = true := by
        simp [Endpoint.admits, takesUp_of_handsOver hhands]
      exact .inl ⟨wire, rfl, hadmits, by simp [Endpoint.returns, hhands]⟩
  | none =>
      by_cases hblock : action = .wouldBlock
      · subst hblock
        have hadmits : ep.admits .wouldBlock = true := by
          simp [Endpoint.admits, takesUp_wouldBlock]
        exact .inr (.inr ⟨rfl, hadmits, .inl (by simp [Endpoint.returns, hhands])⟩)
      · have hreturns : ep.returns action =
            if ep.admits action then none else some .failed := by
          unfold Endpoint.returns
          rw [hhands]
          cases action <;> first | rfl | exact absurd rfl hblock
        rw [hreturns]
        cases ep.admits action with
        | true => exact .inr (.inr ⟨rfl, rfl, .inr rfl⟩)
        | false => exact .inr (.inl ⟨rfl, rfl, rfl⟩)

end Results

end TokenRing
