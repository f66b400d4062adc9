import TokenRing.Lib.Lts
import TokenRing.Lib.SlotKeys
import TokenRing.Rudp.Machine

/-!
One call of `rudp_sendto_with_limits` or `rudp_recvfrom` as a run of the
machine, whatever the system calls do, and what it does to the peer table: a
bit flips with the return value 0, and entries are made with both bits 0.
-/

namespace TokenRing

/-- One system call of a call under way, with the outputs of the call so far;
after the return there is none. -/
def callStep (run : Endpoint × List RudpOutput) (action : RudpAction) :
    Option (Endpoint × List RudpOutput) :=
  match run.1.loc with
  | .idle => none
  | _ => Lts.logged Endpoint.step run action

/-- A call that begins with this action and returns, with its outputs. -/
def Endpoint.Ends (before : Endpoint) (start : RudpAction) (after : Endpoint)
    (out : List RudpOutput) : Prop :=
  before.loc = .idle ∧ after.loc = .idle ∧ ∃ first, before.step start = some first ∧
    Lts.Reachable callStep first (after, out)

/-- The outputs are datagrams up to the return, which comes last. -/
def Returns (out : List RudpOutput) (value : RudpOutput) : Prop :=
  ∃ front, out = front ++ [value] ∧ ∀ output ∈ front, ∃ dest frame,
    output = .datagram dest frame

def OnlyDatagrams (out : List RudpOutput) : Prop :=
  ∀ output ∈ out, ∃ dest frame, output = .datagram dest frame

namespace Peers

/-- No two entries have one address. -/
def AddrsDistinct (peers : Peers) : Prop :=
  peers.KeysDistinct (fun peer => some peer.addr)

/-- The table with new entries: both bits are 0, and the address has no entry
before. -/
structure Opens (who : SockAddr → Prop) (before after : Peers) : Prop where
  kept : ∀ i peer, before i = some peer → after i = some peer
  new : ∀ i peer, before i = none → after i = some peer →
    who peer.addr ∧ peer.state = ⟨0, 0⟩ ∧ before.slotOf peer.addr = none
  distinct : before.AddrsDistinct → after.AddrsDistinct

section Opens

variable {who who' : SockAddr → Prop} {before mid after : Peers} {addr : SockAddr} {i : Fin 32}

theorem Opens.refl (who : SockAddr → Prop) (peers : Peers) : Opens who peers peers := by
  constructor
  · intro i peer hpeer
    exact hpeer
  · intro i peer hfree hpeer
    rw [hfree] at hpeer
    cases hpeer
  · exact id

theorem slotOf_none_iff {peers : Peers} :
    peers.slotOf addr = none ↔ ∀ i peer, peers i = some peer → peer.addr ≠ addr := by
  unfold slotOf
  rw [SlotTable.firstSlot_eq_none_iff]
  constructor
  · intro h i peer hpeer haddr
    have hnone := h i
    simp [hpeer, haddr] at hnone
  · intro h i
    cases hpeer : peers i with
    | none => rfl
    | some peer => simpa using h i peer hpeer

theorem Opens.slotOf_none (h : Opens who before after) (hnone : after.slotOf addr = none) :
    before.slotOf addr = none := by
  rw [slotOf_none_iff] at hnone ⊢
  intro i peer hpeer
  exact hnone i peer (h.kept i peer hpeer)

theorem Opens.trans (hfirst : Opens who before mid) (hrest : Opens who mid after) :
    Opens who before after := by
  constructor
  · intro i peer hpeer
    exact hrest.kept i peer (hfirst.kept i peer hpeer)
  · intro i peer hfree hpeer
    cases hmid : mid i with
    | some old =>
        have hsame := hrest.kept i old hmid
        rw [hpeer] at hsame
        cases hsame
        exact hfirst.new i peer hfree hmid
    | none =>
        obtain ⟨hwho, hbits, hunknown⟩ := hrest.new i peer hmid hpeer
        exact ⟨hwho, hbits, hfirst.slotOf_none hunknown⟩
  · intro hdistinct
    exact hrest.distinct (hfirst.distinct hdistinct)

/-- No bit of an address changes when entries are made. -/
theorem Opens.stateOf (h : Opens who before after) (addr : SockAddr) :
    after.stateOf addr = before.stateOf addr := by
  cases hslot : before.slotOf addr with
  | some i =>
      obtain ⟨peer, hpeer, haddr⟩ := slotOf_some hslot
      have hsame : after.slotOf addr = some i := by
        apply (SlotTable.firstSlot_eq_some_iff _ _ i).mpr
        constructor
        · simp [h.kept i peer hpeer, haddr]
        · intro j hj
          have hlow := ((SlotTable.firstSlot_eq_some_iff _ _ i).mp hslot).2 j hj
          cases hold : before j with
          | some other =>
              rw [h.kept j other hold]
              rwa [hold] at hlow
          | none =>
              cases hnew : after j with
              | none => rfl
              | some other =>
                  -- a new entry has an address that had none
                  have hunknown := (h.new j other hold hnew).2.2
                  have hother := slotOf_none_iff.mp hunknown i peer hpeer
                  rw [haddr] at hother
                  simpa using hother.symm
      rw [stateOf_eq hslot, stateOf_eq hsame]
      simp [stateAt, hpeer, h.kept i peer hpeer]
  | none =>
      have hbefore : before.stateOf addr = ⟨0, 0⟩ := by simp [Peers.stateOf, hslot]
      rw [hbefore]
      cases hafter : after.slotOf addr with
      | none => simp [Peers.stateOf, hafter]
      | some i =>
          obtain ⟨peer, hpeer, haddr⟩ := slotOf_some hafter
          have hfree : before i = none := by
            cases hold : before i with
            | none => rfl
            | some old =>
                have hkept := h.kept i old hold
                rw [hpeer] at hkept
                cases hkept
                exact absurd haddr (slotOf_none_iff.mp hslot i peer hold)
          rw [stateOf_eq hafter]
          simp [stateAt, hpeer, (h.new i peer hfree hpeer).2.1]

/-- What `get_peer` does to the table. -/
theorem getPeer_opens (h : before.getPeer addr true = some (i, after)) :
    Opens (· = addr) before after := by
  unfold getPeer at h
  split at h
  · cases h
    exact .refl _ _
  · rename_i hunknown
    simp only [Bool.not_true, Bool.false_eq_true, if_false] at h
    obtain ⟨k, hfirst, heq⟩ := Option.map_eq_some_iff.mp h
    cases heq
    have hfree : before i = none := by simpa using SlotTable.firstSlot_spec hfirst
    constructor
    · intro j peer hpeer
      have hj : j ≠ i := by
        rintro rfl
        rw [hfree] at hpeer
        cases hpeer
      rw [SlotTable.set_of_ne _ _ hj, hpeer]
    · intro j peer hnone hpeer
      rw [SlotTable.set_apply] at hpeer
      split at hpeer
      · cases hpeer
        exact ⟨rfl, rfl, hunknown⟩
      · rw [hnone] at hpeer
        cases hpeer
    · intro hdistinct
      apply hdistinct.set_some
      intro j peer key _ hpeer hkey hsame
      cases hkey
      exact slotOf_none_iff.mp hunknown j peer hpeer (Option.some.inj hsame)

theorem Opens.mono (h : Opens who before after) (hwho : ∀ addr, who addr → who' addr) :
    Opens who' before after := by
  constructor
  · exact h.kept
  · intro i peer hfree hpeer
    obtain ⟨hpermitted, hrest⟩ := h.new i peer hfree hpeer
    exact ⟨hwho _ hpermitted, hrest⟩
  · exact h.distinct

end Opens

end Peers

/-- `send_seq_bit` of the destination flips when the call returns 0; nothing
else changes but that the destination may get its entry. -/
def SendFlips (before : Peers) (dest : SockAddr) (after : Peers) (out : List RudpOutput) : Prop :=
  (∃ payload, Returns out (.sent dest payload) ∧ ∃ opened i,
    Peers.Opens (· = dest) before opened ∧ opened.slotOf dest = some i ∧
      after = opened.flipSend i) ∨
  Returns out (.sendFailed dest) ∧ Peers.Opens (· = dest) before after

/-- `expected_seq_bit` of the returned source flips when the call returns 0;
nothing else changes but that senders may get their entries. -/
def RecvFlips (before after : Peers) (out : List RudpOutput) : Prop :=
  (∃ source payload, Returns out (.received source payload) ∧ ∃ opened i,
    Peers.Opens (fun _ => True) before opened ∧ opened.slotOf source = some i ∧
      after = opened.flipExpected i) ∨
  (Returns out .nothing ∨ Returns out .recvFailed) ∧ Peers.Opens (fun _ => True) before after

/-- What a call does to the peer table. -/
def CallFlips (before : Peers) (start : RudpAction) (after : Peers) (out : List RudpOutput) :
    Prop :=
  match start with
  | .send dest _ _ _ => SendFlips before dest after out
  | .recv _ _ => RecvFlips before after out
  | _ => False

section Outputs

variable {out more : List RudpOutput} {value : RudpOutput}

theorem onlyDatagrams_nil : OnlyDatagrams [] := by
  intro output houtput
  cases houtput

theorem OnlyDatagrams.append (h : OnlyDatagrams out) (hmore : OnlyDatagrams more) :
    OnlyDatagrams (out ++ more) := by
  intro output houtput
  rcases List.mem_append.mp houtput with hfirst | hrest
  · exact h output hfirst
  · exact hmore output hrest

theorem onlyDatagrams_singleton (dest : SockAddr) (frame : Frame) :
    OnlyDatagrams [.datagram dest frame] := by
  intro output houtput
  exact ⟨dest, frame, List.mem_singleton.mp houtput⟩

theorem OnlyDatagrams.returns (h : OnlyDatagrams out) (value : RudpOutput) :
    Returns (out ++ [value]) value := ⟨out, rfl, h⟩

theorem waitArrival_onlyDatagrams {pending : PendingFrames} {expectedAddr source : SockAddr}
    {expectedType : FrameType} {expectedSeq : UInt8} {datagram : Datagram} {ok found : Bool}
    {pending' : PendingFrames}
    (h : Endpoint.waitArrival pending expectedAddr expectedType expectedSeq source datagram ok =
      (found, pending', out)) : OnlyDatagrams out := by
  unfold Endpoint.waitArrival at h
  split at h
  · cases h
    exact onlyDatagrams_nil
  split at h
  · split at h
    · cases h
      cases ok
      · exact onlyDatagrams_nil
      · exact onlyDatagrams_singleton _ _
    · cases h
      exact onlyDatagrams_nil
  split at h <;> cases h <;> exact onlyDatagrams_nil

end Outputs

section Sending

/-- What the system call at hand says about a call of
`rudp_sendto_with_limits`. -/
def SendStands (before : Peers) (dest : SockAddr) (run : Endpoint × List RudpOutput) : Prop :=
  match run.1.loc with
  | .idle => SendFlips before dest run.1.peers run.2
  | .sendFrame call | .sendWait call | .sendAckAck call _ =>
      call.dest = dest ∧ Peers.Opens (· = dest) before run.1.peers ∧
        run.1.peers.slotOf dest = some call.peer ∧ OnlyDatagrams run.2
  | _ => False

variable {before : Peers} {dest : SockAddr} {ep : Endpoint} {out : List RudpOutput}
  {action : RudpAction} {result : Endpoint × List RudpOutput}

theorem startSend_sendStands (ep : Endpoint) (hloc : ep.loc = .idle) (dest : SockAddr)
    (payload : Bytes) (maxAttempts : Int) (allocated : Bool) :
    SendStands ep.peers dest (ep.startSend dest payload maxAttempts allocated) := by
  have hfailed : Returns [.sendFailed dest] (.sendFailed dest) :=
    onlyDatagrams_nil.returns _
  unfold Endpoint.startSend
  split
  · simp only [SendStands, hloc]
    exact .inr ⟨hfailed, .refl _ _⟩
  · cases hget : ep.peers.getPeer dest true with
    | none =>
        simp only [SendStands, hloc]
        exact .inr ⟨hfailed, .refl _ _⟩
    | some got =>
        obtain ⟨i, peers⟩ := got
        have hopens := Peers.getPeer_opens hget
        cases allocated with
        | false =>
            simp only [SendStands, Bool.not_false, if_true, hloc]
            exact .inr ⟨hfailed, hopens⟩
        | true => exact ⟨rfl, hopens, (Peers.getPeer_some hget).1, onlyDatagrams_nil⟩

/-- A failing system call ends the call. -/
theorem sendFlips_failed (hopens : Peers.Opens (· = dest) before ep.peers)
    (hout : OnlyDatagrams out) :
    SendFlips before dest ep.peers (out ++ [.sendFailed dest]) :=
  .inr ⟨hout.returns _, hopens⟩

theorem sendStands_step (h : SendStands before dest (ep, out)) (hloc : ep.loc ≠ .idle)
    (hacts : ep.Acts action result) : SendStands before dest (result.1, out ++ result.2) := by
  cases hacts with
  | startSend hidle | startRecv hidle => exact absurd hidle hloc
  | frameSent call hat =>
      simp only [SendStands, hat] at h
      obtain ⟨rfl, hopens, hslot, hout⟩ := h
      have hmore := hout.append (onlyDatagrams_singleton call.dest call.frame)
      unfold Endpoint.frameSent
      split <;> exact ⟨rfl, hopens, hslot, hmore⟩
  | frameFailed call hat =>
      simp only [SendStands, hat] at h
      obtain ⟨rfl, hopens, _, hout⟩ := h
      exact sendFlips_failed hopens hout
  | ackAckSent call sent hat =>
      simp only [SendStands, hat] at h
      obtain ⟨rfl, hopens, hslot, hout⟩ := h
      have hmore := hout.append (onlyDatagrams_singleton call.dest
        (ackAckFrame (ep.peers.stateAt call.peer).sendSeqBit))
      unfold Endpoint.ackAckSent
      simp only
      split
      · exact ⟨rfl, hopens, hslot, hmore⟩
      · simp only [SendStands]
        rw [← List.append_assoc]
        exact .inl ⟨call.frame.data, hmore.returns _, ep.peers, call.peer, hopens, hslot, rfl⟩
  | ackAckFailed call sent hat =>
      simp only [SendStands, hat] at h
      obtain ⟨rfl, hopens, _, hout⟩ := h
      exact sendFlips_failed hopens hout
  | sendArrival call hat source datagram ok harrival =>
      simp only [SendStands, hat] at h
      obtain ⟨rfl, hopens, hslot, hout⟩ := h
      simp only [Endpoint.arrival, hat] at harrival
      cases hwait : Endpoint.waitArrival ep.pending call.dest .ack
          (ep.peers.stateAt call.peer).sendSeqBit source datagram ok with
      | mk found rest =>
          have hmore := hout.append (waitArrival_onlyDatagrams hwait)
          rw [hwait] at harrival
          cases found with
          | true =>
              cases harrival
              exact ⟨rfl, hopens, hslot, hmore⟩
          | false =>
              cases harrival
              simp only [SendStands]
              exact ⟨trivial, hopens, hslot, hmore⟩
  | sendTimeout call hat =>
      simp only [SendStands, hat] at h
      obtain ⟨rfl, hopens, hslot, hout⟩ := h
      unfold Endpoint.sendTimeout
      simp only
      split
      · exact sendFlips_failed hopens hout
      · simp only [SendStands, List.append_nil]
        exact ⟨trivial, hopens, hslot, hout⟩
  | sendWaitFailed call hat =>
      simp only [SendStands, hat] at h
      obtain ⟨rfl, hopens, _, hout⟩ := h
      exact sendFlips_failed hopens hout
  | ackSent _ _ hat | ackFailed _ _ hat | firstArrival _ hat | waitArrival _ _ hat
  | secondArrival _ hat | recvTimeout _ _ hat | firstBlocked _ hat | secondBlocked _ hat
  | firstFailed _ hat | recvWaitFailed _ _ hat | secondFailed _ hat =>
      simp [SendStands, hat] at h

end Sending

section Receiving

/-- What the system call at hand says about a call of `rudp_recvfrom`. -/
def RecvStands (before : Peers) (run : Endpoint × List RudpOutput) : Prop :=
  match run.1.loc with
  | .idle => RecvFlips before run.1.peers run.2
  | .recvFirst _ | .recvSecond _ =>
      Peers.Opens (fun _ => True) before run.1.peers ∧ OnlyDatagrams run.2
  | .recvAck _ round | .recvWait _ round =>
      Peers.Opens (fun _ => True) before run.1.peers ∧ OnlyDatagrams run.2 ∧
        run.1.peers.slotOf round.source = some round.peer
  | _ => False

variable {before : Peers} {ep : Endpoint} {out : List RudpOutput} {action : RudpAction}
  {result : Endpoint × List RudpOutput} {call : RecvCall} {round : AckRound}

theorem recvFlips_failed (hopens : Peers.Opens (fun _ => True) before ep.peers)
    (hout : OnlyDatagrams out) : RecvFlips before ep.peers (out ++ [.recvFailed]) :=
  .inr ⟨.inr (hout.returns _), hopens⟩

theorem recvFlips_nothing (hopens : Peers.Opens (fun _ => True) before ep.peers)
    (hout : OnlyDatagrams out) : RecvFlips before ep.peers (out ++ [.nothing]) :=
  .inr ⟨.inl (hout.returns _), hopens⟩

theorem process_recvStands (ep : Endpoint) (hopens : Peers.Opens (fun _ => True) before ep.peers)
    (hout : OnlyDatagrams out) (call : RecvCall) (source : SockAddr) (frame : Frame) :
    RecvStands before ((ep.process call source frame).1,
      out ++ (ep.process call source frame).2) := by
  unfold Endpoint.process
  cases hget : ep.peers.getPeer source true with
  | none => exact recvFlips_failed hopens hout
  | some got =>
      obtain ⟨i, peers⟩ := got
      have hmore := hopens.trans ((Peers.getPeer_opens hget).mono (fun _ _ => trivial))
      simp only [RecvStands, List.append_nil]
      exact ⟨hmore, hout, (Peers.getPeer_some hget).1⟩

theorem receiveFirst_recvStands (ep : Endpoint)
    (hopens : Peers.Opens (fun _ => True) before ep.peers)
    (hout : OnlyDatagrams out) (call : RecvCall) :
    RecvStands before ((ep.receiveFirst call).1, out ++ (ep.receiveFirst call).2) := by
  unfold Endpoint.receiveFirst
  split
  · rename_i entry pending htake
    exact process_recvStands { ep with pending := pending } hopens hout call _ _
  · simp only [RecvStands, List.append_nil]
    exact ⟨hopens, hout⟩

theorem finishRound_recvStands (ep : Endpoint) (round : AckRound)
    (hopens : Peers.Opens (fun _ => True) before ep.peers) (hout : OnlyDatagrams out)
    (hslot : ep.peers.slotOf round.source = some round.peer)
    (call : RecvCall) :
    RecvStands before ((ep.finishRound call round).1, out ++ (ep.finishRound call round).2) := by
  unfold Endpoint.finishRound
  split
  · exact .inl ⟨_, _, hout.returns _, ep.peers, round.peer, hopens, hslot, rfl⟩
  · split
    · rename_i pending htake
      exact receiveFirst_recvStands { ep with pending := pending } hopens hout call
    · simp only [RecvStands, List.append_nil]
      exact ⟨hopens, hout⟩

theorem startRecv_recvStands (ep : Endpoint) (hloc : ep.loc = .idle) (call : RecvCall) :
    RecvStands ep.peers (ep.startRecv call) := by
  unfold Endpoint.startRecv
  split
  · simp only [RecvStands, hloc]
    exact recvFlips_failed (.refl _ _) onlyDatagrams_nil
  · exact receiveFirst_recvStands ep (.refl _ _) onlyDatagrams_nil call

theorem recvStands_step (h : RecvStands before (ep, out)) (hloc : ep.loc ≠ .idle)
    (hacts : ep.Acts action result) : RecvStands before (result.1, out ++ result.2) := by
  cases hacts with
  | startSend hidle | startRecv hidle => exact absurd hidle hloc
  | ackSent call round hat =>
      simp only [RecvStands, hat] at h
      obtain ⟨hopens, hout, hslot⟩ := h
      have hmore := hout.append (onlyDatagrams_singleton round.source
        (ackFrame round.frame.seqBit))
      simp only
      rw [← List.singleton_append, ← List.append_assoc]
      unfold Endpoint.ackSent
      split
      · rename_i pending htake
        exact finishRound_recvStands { ep with pending := pending } round hopens hmore
          hslot call
      · simp only [RecvStands, List.append_nil]
        exact ⟨hopens, hmore, hslot⟩
  | ackFailed call round hat =>
      simp only [RecvStands, hat] at h
      exact recvFlips_failed h.1 h.2.1
  | firstArrival call hat source datagram ok harrival =>
      simp only [RecvStands, hat] at h
      obtain ⟨hopens, hout⟩ := h
      simp only [Endpoint.arrival, hat] at harrival
      split at harrival
      · rename_i frame pending _
        cases harrival
        exact process_recvStands { ep with pending := pending } hopens hout call _ _
      · cases harrival
        simp only [RecvStands, List.append_nil]
        exact ⟨hopens, hout⟩
  | waitArrival call round hat source datagram ok harrival =>
      simp only [RecvStands, hat] at h
      obtain ⟨hopens, hout, hslot⟩ := h
      simp only [Endpoint.arrival, hat] at harrival
      cases hwait : Endpoint.waitArrival ep.pending round.source .ackAck round.frame.seqBit
          source datagram ok with
      | mk found rest =>
          obtain ⟨pending, waited⟩ := rest
          have hmore := hout.append (waitArrival_onlyDatagrams hwait)
          rw [hwait] at harrival
          cases found with
          | true =>
              cases harrival
              simp only
              rw [← List.append_assoc]
              exact finishRound_recvStands { ep with pending := pending } round hopens hmore
                hslot call
          | false =>
              cases harrival
              exact ⟨hopens, hmore, hslot⟩
  | secondArrival call hat source datagram ok harrival =>
      simp only [RecvStands, hat] at h
      obtain ⟨hopens, hout⟩ := h
      simp only [Endpoint.arrival, hat] at harrival
      split at harrival
      · rename_i frame pending _
        cases harrival
        exact receiveFirst_recvStands { ep with pending := pending } hopens hout call
      · cases harrival
        simp only [RecvStands, List.append_nil]
        exact ⟨hopens, hout⟩
  | recvTimeout call round hat =>
      simp only [RecvStands, hat] at h
      obtain ⟨hopens, hout, hslot⟩ := h
      unfold Endpoint.recvTimeout
      simp only
      split
      · simp only [RecvStands, List.append_nil]
        exact ⟨hopens, hout, hslot⟩
      · exact finishRound_recvStands ep { round with attempts := round.attempts + 1 }
          hopens hout hslot call
  | firstBlocked call hat =>
      simp only [RecvStands, hat] at h
      exact recvFlips_nothing h.1 h.2
  | secondBlocked call hat =>
      simp only [RecvStands, hat] at h
      exact recvFlips_nothing h.1 h.2
  | firstFailed call hat =>
      simp only [RecvStands, hat] at h
      exact recvFlips_failed h.1 h.2
  | recvWaitFailed call round hat =>
      simp only [RecvStands, hat] at h
      exact recvFlips_failed h.1 h.2.1
  | secondFailed call hat =>
      simp only [RecvStands, hat] at h
      exact recvFlips_nothing h.1 h.2
  | frameSent _ hat | frameFailed _ hat | ackAckSent _ _ hat | ackAckFailed _ _ hat
  | sendArrival _ hat | sendTimeout _ hat | sendWaitFailed _ hat =>
      simp [RecvStands, hat] at h

end Receiving

section Calls

variable {before after : Endpoint} {start : RudpAction} {out : List RudpOutput}

/-- What every system call of the call keeps holds at its return. -/
theorem reaches_stands {stands : Endpoint × List RudpOutput → Prop}
    {first last : Endpoint × List RudpOutput} (hfirst : stands first)
    (hreach : Lts.Reachable callStep first last)
    (hstep : ∀ ep out action result, stands (ep, out) → ep.loc ≠ .idle →
      ep.Acts action result → stands (result.1, out ++ result.2)) : stands last := by
  apply hreach.invariant stands hfirst
  intro run action next hrun _ hnext
  obtain ⟨ep, out⟩ := run
  have hloc : ep.loc ≠ .idle := by
    intro hidle
    simp [callStep, hidle] at hnext
  have hlogged : Lts.logged Endpoint.step (ep, out) action = some next := by
    rw [← hnext]
    unfold callStep
    split
    · rename_i hidle
      exact absurd hidle hloc
    · rfl
  obtain ⟨result, hresult, rfl⟩ := Option.map_eq_some_iff.mp hlogged
  exact hstep ep out action result hrun hloc (Endpoint.acts_of_step hresult)

/-- Whatever the system calls do, a call flips the bit it has to flip when it
returns 0, flips none otherwise, and makes no other entries than new ones with
both bits 0. -/
theorem bits_flip_exactly_on_success (h : before.Ends start after out) :
    CallFlips before.peers start after.peers out := by
  obtain ⟨hidle, hafter, first, hfirst, hreach⟩ := h
  have hacts := Endpoint.acts_of_step hfirst
  cases hacts with
  | startSend hloc dest payload maxAttempts allocated =>
      have hlast := reaches_stands (startSend_sendStands before hloc dest payload maxAttempts
        allocated) hreach (fun _ _ _ _ => sendStands_step)
      simp only [SendStands, hafter] at hlast
      exact hlast
  | startRecv hloc len buffer =>
      have hlast := reaches_stands (startRecv_recvStands before hloc ⟨len, buffer⟩) hreach
        (fun _ _ _ _ => recvStands_step)
      simp only [RecvStands, hafter] at hlast
      exact hlast
  | frameSent _ hat | frameFailed _ hat | ackAckSent _ _ hat | ackAckFailed _ _ hat
  | sendArrival _ hat | sendTimeout _ hat | sendWaitFailed _ hat | ackSent _ _ hat
  | ackFailed _ _ hat | firstArrival _ hat | waitArrival _ _ hat | secondArrival _ hat
  | recvTimeout _ _ hat | firstBlocked _ hat | secondBlocked _ hat | firstFailed _ hat
  | recvWaitFailed _ _ hat | secondFailed _ hat =>
      rw [hidle] at hat
      cases hat

end Calls

section Runs

def senderOne : SockAddr := ⟨2, 5001, 1⟩

def senderTwo : SockAddr := ⟨2, 5002, 1⟩

/-- A message arrives that no one has acknowledged yet. -/
def receiveOnce : List RudpAction :=
  [.arrive senderOne (.frame ⟨.message, 0, [7]⟩) true, .sendto true,
    .arrive senderOne (.frame ⟨.ackAck, 0, []⟩) true]

theorem message_received_flips_bit :
    ∃ after out, Endpoint.start.Ends (.recv 1 []) after out ∧
      out.getLast? = some (.received senderOne [7]) ∧
      CallFlips Endpoint.start.peers (.recv 1 []) after.peers out := by
  have hexec : (Lts.exec callStep (Endpoint.start.startRecv ⟨1, []⟩) receiveOnce).map
      (fun run => (run.1.loc.isIdle, run.2.getLast?)) =
        some (true, some (.received senderOne [7])) := by
    decide +kernel
  obtain ⟨⟨after, out⟩, hrun, hfacts⟩ := Option.map_eq_some_iff.mp hexec
  simp only [Prod.mk.injEq] at hfacts
  have hends : Endpoint.start.Ends (.recv 1 []) after out :=
    ⟨rfl, RudpLoc.isIdle_iff.mp hfacts.1, _, rfl, Lts.reachable_of_exec hrun⟩
  exact ⟨after, out, hends, hfacts.2, bits_flip_exactly_on_success hends⟩

/-- Two unknown senders: the first message does not carry the bit 0 that a new
entry expects, so it is acknowledged as a duplicate and the call goes on. -/
def receiveFromTwo : List RudpAction :=
  [.arrive senderOne (.frame ⟨.message, 1, [7]⟩) true, .sendto true, .timeout, .sendto true,
    .timeout, .sendto true, .timeout, .arrive senderOne (.frame ⟨.message, 1, [7]⟩) true,
    .arrive senderTwo (.frame ⟨.message, 0, [8]⟩) true, .sendto false]

/-- One call makes an entry for each of them. -/
theorem call_opens_two_entries :
    ¬ ∀ (before after : Endpoint) (start : RudpAction) (out : List RudpOutput),
      before.peers.AddrsDistinct → before.Ends start after out →
      ∀ i j, before.peers i = none → after.peers i ≠ none → before.peers j = none →
        after.peers j ≠ none → i = j := by
  intro h
  have hexec : (Lts.exec callStep (Endpoint.start.startRecv ⟨1, []⟩) receiveFromTwo).map
      (fun run => (run.1.loc.isIdle, (run.1.peers 0).isSome, (run.1.peers 1).isSome)) =
        some (true, true, true) := by
    decide +kernel
  obtain ⟨⟨after, out⟩, hrun, hfacts⟩ := Option.map_eq_some_iff.mp hexec
  simp only [Prod.mk.injEq] at hfacts
  obtain ⟨hidle, hone, htwo⟩ := hfacts
  have hends : Endpoint.start.Ends (.recv 1 []) after out :=
    ⟨rfl, RudpLoc.isIdle_iff.mp hidle, _, rfl, Lts.reachable_of_exec hrun⟩
  have hsame := h Endpoint.start _ _ _ SlotTable.keysDistinct_empty hends 0 1 rfl
    (Option.isSome_iff_ne_none.mp hone) rfl (Option.isSome_iff_ne_none.mp htwo)
  cases hsame

end Runs

end TokenRing
