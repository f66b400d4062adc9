import TokenRing.Rudp.Link

/-!
The receiving side. B has accepted a number of A's messages, that is stored
them or taken them up: it has returned the first of them and has the others in
its hands, in order and with no duplicate in front of them.
-/

namespace TokenRing

/-- What B holds when it has accepted so many messages of A. -/
structure Holds (link : Link) (posted : List Bytes) (accepted : Nat) (returned : List Bytes)
    (peers : Peers) (hands : List PendingFrame) : Prop where
  bit : peers.expectedBit link.addrA = bitOf returned.length
  inHand : returned ++ (newFrom link.addrA (peers.expectedBit link.addrA) hands).map
    (fun entry => entry.frame.data) = posted.take accepted
  upper : accepted ≤ posted.length
  shielded : AlternatingBit.Shielded PendingFrame.addr PendingFrame.seqBit (· ^^^ 1) link.addrA
    peers.expectedBit hands

/-- What the system call at hand says. -/
def StandsAt (link : Link) (peers : Peers) (pending : PendingFrames) : RudpLoc → Prop
  | .idle => True
  | .sendFrame call | .sendWait call | .sendAckAck call _ =>
      call.dest ≠ link.addrA ∧ peers.slotOf call.dest = some call.peer
  | .recvFirst call | .recvSecond call =>
      call.len = link.size ∧ ∀ i, pending.messages i = none
  | .recvAck call round | .recvWait call round =>
      call.len = link.size ∧ peers.slotOf round.source = some round.peer ∧
        round.isExpected = decide (round.frame.seqBit = peers.expectedBit round.source)

structure Receiver (link : Link) (posted : List Bytes) (accepted : Nat) (returned : List Bytes)
    (b : Endpoint) : Prop where
  holds : Holds link posted accepted returned b.peers b.hands
  stands : StandsAt link b.peers b.pending b.loc

section Facts

variable {link : Link} {posted : List Bytes} {accepted n : Nat} {returned : List Bytes}
  {peers peers' : Peers} {pending pending' : PendingFrames} {b : Endpoint}
  {front back hands kept : List PendingFrame} {a entry : PendingFrame}

theorem Endpoint.exists_free (h : b.hasRoom = true) : ∃ i, b.peers i = none := by
  by_contra hfull
  push Not at hfull
  have hall : b.peers.used = Finset.univ := by
    ext i
    simpa using Option.isSome_iff_ne_none.mpr (hfull i)
  have hcount : b.newcomers.card + b.peers.used.card < 32 := of_decide_eq_true h
  rw [hall, Finset.card_univ, Fintype.card_fin] at hcount
  omega

/-- A new entry is made when there is room for it. -/
theorem getPeer_of_room (hroom : ∃ i, peers i = none) (addr : SockAddr) :
    ∃ i peers', peers.getPeer addr true = some (i, peers') := by
  unfold Peers.getPeer
  cases hslot : peers.slotOf addr with
  | some i => exact ⟨i, peers, rfl⟩
  | none =>
      obtain ⟨i, hfree⟩ := hroom
      have hsome : Option.isNone (peers i) = true := by rw [hfree]; rfl
      obtain ⟨j, hfirst⟩ := SlotTable.firstSlot_isSome hsome
      exact ⟨j, peers.set j (some ⟨addr, ⟨0, 0⟩⟩), by simp [hfirst]⟩

/-- A new entry expects what the unknown address would have been expected to
send. -/
theorem getPeer_expectedBit {i : Fin 32} {addr : SockAddr}
    (h : peers.getPeer addr true = some (i, peers')) : peers'.expectedBit = peers.expectedBit := by
  obtain ⟨_, _, hstates⟩ := Peers.getPeer_some h
  funext other
  rw [Peers.expectedBit, hstates, Peers.expectedBit]

theorem flipExpected_expectedBit {i : Fin 32} (entry : PendingFrame)
    (h : peers.slotOf entry.addr = some i) : (peers.flipExpected i).expectedBit =
      AlternatingBit.advance PendingFrame.addr (· ^^^ 1) peers.expectedBit entry := by
  funext other
  rw [Peers.expectedBit, Peers.flipExpected_stateOf h, AlternatingBit.advance,
    Function.update_apply]
  split <;> rfl

theorem flipSend_expectedBit {i : Fin 32} {addr : SockAddr} (h : peers.slotOf addr = some i) :
    (peers.flipSend i).expectedBit = peers.expectedBit := by
  funext other
  rw [Peers.expectedBit, Peers.flipSend_stateOf h, Peers.expectedBit]
  split
  · rename_i hsame
    rw [hsame]
  · rfl

theorem Holds.congr (h : Holds link posted accepted returned peers hands)
    (hbits : peers'.expectedBit = peers.expectedBit) :
    Holds link posted accepted returned peers' hands := by
  obtain ⟨hbit, hinHand, hupper, hshielded⟩ := h
  rw [← hbits] at hbit hinHand hshielded
  exact ⟨hbit, hinHand, hupper, hshielded⟩

theorem bitOf_iterate (k : Nat) : (· ^^^ 1)^[k] (bitOf n) = bitOf (n + k) := by
  induction k with
  | zero => rfl
  | succ k ih => rw [Function.iterate_succ_apply', ih, ← bitOf_succ, Nat.add_assoc]

/-- B expects the first message that it has not accepted once it has dealt with
those in its hands. -/
theorem Holds.bitAhead (h : Holds link posted accepted returned peers hands) :
    bitBehind link.addrA (peers.expectedBit link.addrA) hands = bitOf accepted := by
  have hlength := congrArg List.length h.inHand
  rw [List.length_append, List.length_map, List.length_take, Nat.min_eq_left h.upper] at hlength
  rw [bitBehind, AlternatingBit.bitAfter_eq_iterate, h.bit, bitOf_iterate, ← h.bit, hlength]

theorem Holds.inOrder (h : Holds link posted accepted returned peers hands) :
    returned <+: posted := by
  have hprefix := List.take_prefix accepted posted
  rw [← h.inHand] at hprefix
  exact (List.prefix_append _ _).trans hprefix

/-- A message is put among those in B's hands: it is a duplicate, or the next
one of A. -/
theorem Holds.insert (h : Holds link posted accepted returned peers (front ++ back))
    (hback : ∀ entry ∈ back, entry.addr ≠ link.addrA)
    (hfront : a.addr = link.addrA →
      a.seqBit = bitBehind link.addrA (peers.expectedBit link.addrA) front →
        noDuplicate peers.expectedBit front = true)
    (hbrings : a.addr = link.addrA →
      ∃ n, frameOf posted n = some a.frame ∧ (n = accepted ∨ n + 1 = accepted)) :
    ∃ accepted', Holds link posted accepted' returned peers (front ++ a :: back) ∧
      (accepted' = accepted ∨
        accepted' = accepted + 1 ∧ a.addr = link.addrA ∧
          frameOf posted accepted = some a.frame) := by
  have hshielded := h.shielded.insert hback hfront
  have hinserted : newFrom link.addrA (peers.expectedBit link.addrA) (front ++ a :: back) =
      newFrom link.addrA (peers.expectedBit link.addrA) (front ++ back) ++
        if a.addr = link.addrA ∧ a.seqBit =
          bitBehind link.addrA (peers.expectedBit link.addrA) (front ++ back) then [a] else [] :=
    AlternatingBit.newOf_insert hback a
  rw [h.bitAhead] at hinserted
  by_cases hnew : a.addr = link.addrA ∧ a.seqBit = bitOf accepted
  · obtain ⟨haddr, hbit⟩ := hnew
    obtain ⟨n, hframe, hn⟩ := hbrings haddr
    obtain ⟨_, hseq, hpayload⟩ := frameOf_some hframe
    have hnumber : n = accepted := by
      refine hn.resolve_right ?_
      rintro rfl
      exact bitOf_succ_ne n (hbit.symm.trans hseq)
    subst hnumber
    refine ⟨n + 1, ⟨h.bit, ?_, frameOf_lt hframe, hshielded⟩, .inr ⟨rfl, haddr, hframe⟩⟩
    rw [hinserted, if_pos ⟨haddr, hbit⟩, List.map_append, ← List.append_assoc, h.inHand,
      List.take_add_one, hpayload]
    rfl
  · refine ⟨accepted, ⟨h.bit, ?_, h.upper, hshielded⟩, .inl rfl⟩
    rw [hinserted, if_neg hnew, List.append_nil, h.inHand]

/-- Of messages among which there is no new one of A any may be gone. -/
theorem Holds.quiet (h : Holds link posted accepted returned peers hands)
    (hquiet : ∀ entry ∈ hands, entry.addr = link.addrA →
      entry.seqBit ≠ peers.expectedBit link.addrA) (hkept : ∀ entry ∈ kept, entry ∈ hands) :
    Holds link posted accepted returned peers kept := by
  have hquiet' : ∀ entry ∈ kept, entry.addr = link.addrA →
      entry.seqBit ≠ peers.expectedBit link.addrA :=
    fun entry hmem => hquiet entry (hkept entry hmem)
  have hinHand := h.inHand
  rw [newFrom, (AlternatingBit.newOf_quiet _ hquiet).1] at hinHand
  refine ⟨h.bit, ?_, h.upper, AlternatingBit.shielded_of_quiet hquiet'⟩
  rw [newFrom, (AlternatingBit.newOf_quiet _ hquiet').1, hinHand]

/-- B takes up a message. -/
theorem process_receiver {call : RecvCall} {source : SockAddr} {frame : Frame}
    (hlen : call.len = link.size) (hroom : ∃ i, b.peers i = none)
    (h : Holds link posted accepted returned b.peers
      (⟨source, frame⟩ :: b.pending.messages.entries)) :
    Receiver link posted accepted returned (b.process call source frame).1 ∧
      (b.process call source frame).2 = [] := by
  obtain ⟨i, peers, hget⟩ := getPeer_of_room hroom source
  have hbits := getPeer_expectedBit hget
  obtain ⟨hslot, _, _⟩ := Peers.getPeer_some hget
  have hprocess : b.process call source frame =
      ({ b with
          peers := peers
          loc := .recvAck call
            ⟨i, source, frame, frame.seqBit = (peers.stateAt i).expectedSeqBit, 0⟩ }, []) := by
    simp [Endpoint.process, hget]
  rw [hprocess]
  refine ⟨⟨h.congr hbits, hlen, hslot, ?_⟩, rfl⟩
  rw [Peers.expectedBit, Peers.stateOf_eq hslot]

/-- The first `receive_message_frame` of a round. -/
theorem receiveFirst_receiver {call : RecvCall} (hlen : call.len = link.size)
    (hroom : ∃ i, b.peers i = none)
    (h : Holds link posted accepted returned b.peers b.pending.messages.entries) :
    Receiver link posted accepted returned (b.receiveFirst call).1 ∧
      (b.receiveFirst call).2 = [] := by
  unfold Endpoint.receiveFirst
  split
  · rename_i entry pending htake
    refine process_receiver (b := { b with pending := pending }) hlen hroom ?_
    rw [← PendingFrames.takeMessageAny_entries htake]
    exact h
  · rename_i hnone
    exact ⟨⟨h, hlen, PendingFrames.takeMessageAny_none hnone⟩, rfl⟩

/-- The copy that `rudp_recvfrom` returns of a full message. -/
theorem copied_eq {call : RecvCall} {frame : Frame} (h : frame.data.length = call.len) :
    call.copied frame = frame.data := by
  unfold RecvCall.copied
  rw [← h, List.take_left]

/-- B returns the message that it was acknowledging. -/
theorem finish_expected {call : RecvCall} {round : AckRound} (hlen : call.len = link.size)
    (hslot : b.peers.slotOf round.source = some round.peer)
    (hsize : ∀ payload ∈ posted, payload.length = link.size)
    (hnew : round.frame.seqBit = b.peers.expectedBit round.source)
    (h : Holds link posted accepted returned b.peers
      (⟨round.source, round.frame⟩ :: b.pending.messages.entries)) :
    Receiver link posted accepted
      (returned ++ receivedFrom link.addrA [.received round.source (call.copied round.frame)])
      { b with peers := b.peers.flipExpected round.peer, loc := .idle } := by
  have hturn : PendingFrame.seqBit ⟨round.source, round.frame⟩ =
      b.peers.expectedBit (PendingFrame.addr ⟨round.source, round.frame⟩) := hnew
  have hbits := flipExpected_expectedBit ⟨round.source, round.frame⟩ hslot
  have hinHand := h.inHand
  rw [newFrom, AlternatingBit.newOf_cons_new hturn] at hinHand
  have hshielded := h.shielded.of_new hturn
  rw [← hbits] at hinHand hshielded
  have hbit := congrFun hbits link.addrA
  rw [AlternatingBit.advance, Function.update_apply] at hbit
  by_cases ha : round.source = link.addrA
  · have hpayload : round.frame.data ∈ posted := by
      refine List.mem_of_mem_take (i := accepted) ?_
      rw [← hinHand, if_pos ha]
      simp
    have hfull : round.frame.data.length = call.len := (hsize _ hpayload).trans hlen.symm
    have hreceived : receivedFrom link.addrA
        [.received round.source (call.copied round.frame)] = [round.frame.data] := by
      simp [receivedFrom, ha, copied_eq hfull]
    rw [hreceived]
    refine ⟨⟨?_, ?_, h.upper, hshielded⟩, trivial⟩
    · rw [hbit, if_pos ha.symm, List.length_append, List.length_singleton, bitOf_succ, ← h.bit,
        ha]
    · rw [if_pos ha] at hinHand
      simpa [newFrom, Endpoint.hands, RudpLoc.acknowledging] using hinHand
  · have hreceived : receivedFrom link.addrA
        [.received round.source (call.copied round.frame)] = [] := by
      simp [receivedFrom, ha]
    rw [hreceived, List.append_nil]
    refine ⟨⟨?_, ?_, h.upper, hshielded⟩, trivial⟩
    · rw [hbit, if_neg (Ne.symm ha), h.bit]
    · rw [if_neg ha] at hinHand
      simpa [newFrom, Endpoint.hands, RudpLoc.acknowledging] using hinHand

/-- The round ends: its message is returned, or a duplicate is followed by the
second `receive_message_frame`, which takes no new message of A. -/
theorem finishRound_receiver {call : RecvCall} {round : AckRound} (hlen : call.len = link.size)
    (hroom : ∃ i, b.peers i = none)
    (hslot : b.peers.slotOf round.source = some round.peer)
    (hsize : ∀ payload ∈ posted, payload.length = link.size)
    (hexpected : round.isExpected =
      decide (round.frame.seqBit = b.peers.expectedBit round.source))
    (h : Holds link posted accepted returned b.peers
      (⟨round.source, round.frame⟩ :: b.pending.messages.entries)) :
    Receiver link posted accepted
        (returned ++ receivedFrom link.addrA (b.finishRound call round).2)
        (b.finishRound call round).1 := by
  by_cases hnew : round.frame.seqBit = b.peers.expectedBit round.source
  · have hfinish : b.finishRound call round =
        ({ b with peers := b.peers.flipExpected round.peer, loc := .idle },
          [.received round.source (call.copied round.frame)]) := by
      simp [Endpoint.finishRound, hexpected, hnew]
    rw [hfinish]
    exact finish_expected hlen hslot hsize hnew h
  · have hquiet := h.shielded.of_dup hnew
    have hwaiting : Holds link posted accepted returned b.peers b.pending.messages.entries := by
      have hinHand := h.inHand
      rw [newFrom, (AlternatingBit.newOf_cons_dup hnew _).1] at hinHand
      exact ⟨h.bit, hinHand, h.upper, AlternatingBit.shielded_of_quiet hquiet⟩
    cases htake : b.pending.takeMessageAny with
    | some taken =>
        obtain ⟨entry, pending⟩ := taken
        have hfinish : b.finishRound call round =
            Endpoint.receiveFirst { b with pending := pending } call := by
          simp [Endpoint.finishRound, hexpected, hnew, htake]
        have hentries := PendingFrames.takeMessageAny_entries htake
        have hrest : Holds link posted accepted returned b.peers pending.messages.entries := by
          refine hwaiting.quiet hquiet fun other hmem => ?_
          rw [hentries]
          exact List.mem_cons_of_mem _ hmem
        obtain ⟨hreceiver, hout⟩ :=
          receiveFirst_receiver (b := { b with pending := pending }) hlen hroom hrest
        rw [hfinish, hout]
        simpa [receivedFrom] using hreceiver
    | none =>
        have hfinish : b.finishRound call round = ({ b with loc := .recvSecond call }, []) := by
          simp [Endpoint.finishRound, hexpected, hnew, htake]
        rw [hfinish]
        refine ⟨?_, hlen, PendingFrames.takeMessageAny_none htake⟩
        simpa [receivedFrom, Endpoint.hands, RudpLoc.acknowledging] using hwaiting

/-- A step accepts nothing, or the next message, which it reads. -/
def Accepts (link : Link) (posted : List Bytes) (accepted accepted' : Nat) (source : SockAddr)
    (datagram : Datagram) : Prop :=
  accepted' = accepted ∨ (accepted' = accepted + 1 ∧ source = link.addrA ∧
    ∃ frame, datagram = .frame frame ∧ frameOf posted accepted = some frame)

/-- A control frame is stored, or there is no room for it. -/
theorem storeFrame_getD_messages {source : SockAddr} {frame : Frame}
    (hcontrol : frame.frameType ≠ .message) :
    PendingFrames.messages ((pending.storeFrame source frame).getD pending) =
      pending.messages := by
  cases hstore : pending.storeFrame source frame with
  | none => rfl
  | some stored => exact PendingFrames.storeFrame_control hcontrol hstore

/-- A message that is stored in turn. -/
theorem Holds.store {source : SockAddr} {frame : Frame}
    (h : Holds link posted accepted returned b.peers b.hands)
    (hmessage : frame.frameType = .message) (hturn : b.inTurn link.addrA source frame = true)
    (hbrings : source = link.addrA →
      ∃ n, frameOf posted n = some frame ∧ (n = accepted ∨ n + 1 = accepted))
    (hstore : b.pending.storeFrame source frame = some pending') :
    ∃ accepted', Holds link posted accepted' returned b.peers
        (b.loc.acknowledging ++ pending'.messages.entries) ∧
      Accepts link posted accepted accepted' source (.frame frame) := by
  obtain ⟨i, hfirst, hfree, hmessages⟩ := PendingFrames.storeFrame_firstFree hmessage hstore
  rw [Endpoint.hands, SlotTable.entries_free hfree, ← List.append_assoc] at h
  rw [Endpoint.inTurn, hfirst] at hturn
  simp only [Bool.and_eq_true, List.all_eq_true, decide_eq_true_eq, Bool.or_eq_true,
    Bool.not_eq_true', Bool.and_eq_false_iff, decide_eq_false_iff_not] at hturn
  obtain ⟨hback, hfront⟩ := hturn
  obtain ⟨accepted', hholds, hnext⟩ := h.insert (a := ⟨source, frame⟩) hback
    (fun haddr hbit => (hfront.resolve_left fun hnot => hnot.elim (· haddr) (· hbit))) hbrings
  refine ⟨accepted', ?_, hnext.imp_right fun ⟨hsucc, haddr, hframe⟩ =>
    ⟨hsucc, haddr, frame, rfl, hframe⟩⟩
  rw [hmessages, SlotTable.entries_fill, ← List.append_assoc]
  exact hholds

/-- The arrival of a datagram in `wait_for_frame`. -/
theorem waitArrival_holds {expectedAddr source : SockAddr} {expectedType : FrameType}
    {expectedSeq : UInt8} {datagram : Datagram} {ok found : Bool} {out : List RudpOutput}
    (h : Holds link posted accepted returned b.peers b.hands)
    (hturn : ∀ frame, datagram = .frame frame → frame.frameType = .message →
      b.inTurn link.addrA source frame = true)
    (hbrings : ∀ frame, source = link.addrA → datagram = .frame frame →
      frame.frameType = .message →
        ∃ n, frameOf posted n = some frame ∧ (n = accepted ∨ n + 1 = accepted))
    (harrived : Endpoint.waitArrival b.pending expectedAddr expectedType expectedSeq source
      datagram ok = (found, pending', out)) :
    ∃ accepted', Holds link posted accepted' returned b.peers
        (b.loc.acknowledging ++ pending'.messages.entries) ∧
      Accepts link posted accepted accepted' source datagram ∧
      receivedFrom link.addrA out = [] ∧
      (found = true → accepted' = accepted ∧ pending' = b.pending ∧ out = []) := by
  cases datagram with
  | short =>
      cases harrived
      exact ⟨accepted, h, .inl rfl, rfl, fun _ => ⟨rfl, rfl, rfl⟩⟩
  | frame frame =>
      by_cases hmessage : frame.frameType = .message
      · simp only [Endpoint.waitArrival, hmessage, if_true] at harrived
        cases hstore : b.pending.storeFrame source frame with
        | none =>
            rw [hstore] at harrived
            cases harrived
            exact ⟨accepted, h, .inl rfl, rfl, fun hfound => by cases hfound⟩
        | some stored =>
            rw [hstore] at harrived
            cases harrived
            obtain ⟨accepted', hholds, haccepts⟩ := h.store hmessage
              (hturn frame rfl hmessage) (fun ha => hbrings frame ha rfl hmessage) hstore
            refine ⟨accepted', hholds, haccepts, ?_, fun hfound => by cases hfound⟩
            cases ok <;> rfl
      · simp only [Endpoint.waitArrival, hmessage, if_false] at harrived
        split at harrived
        · cases harrived
          exact ⟨accepted, h, .inl rfl, rfl, fun _ => ⟨rfl, rfl, rfl⟩⟩
        · cases harrived
          refine ⟨accepted, ?_, .inl rfl, rfl, fun hfound => by cases hfound⟩
          rw [storeFrame_getD_messages hmessage]
          exact h

/-- A step of B: what it accepts and returns. -/
def Progress (link : Link) (posted : List Bytes) (accepted : Nat) (returned : List Bytes)
    (action : RudpAction) (result : Endpoint × List RudpOutput) : Prop :=
  ∃ accepted', Receiver link posted accepted' (returned ++ receivedFrom link.addrA result.2)
      result.1 ∧
    (accepted' = accepted ∨ (accepted' = accepted + 1 ∧ ∃ frame ok,
      action = .arrive link.addrA (.frame frame) ok ∧ frameOf posted accepted = some frame))

variable {action : RudpAction} {out : List RudpOutput} {b' : Endpoint}

/-- A step that returns nothing of A to the program. -/
theorem Progress.silent (h : Receiver link posted accepted returned b')
    (hreceived : receivedFrom link.addrA out = []) :
    Progress link posted accepted returned action (b', out) := by
  refine ⟨accepted, ?_, .inl rfl⟩
  rw [hreceived, List.append_nil]
  exact h

theorem Receiver.at_loc {loc : RudpLoc} (h : Receiver link posted accepted returned b)
    (hloc : b.loc = loc) :
    Holds link posted accepted returned b.peers
        (loc.acknowledging ++ b.pending.messages.entries) ∧
      StandsAt link b.peers b.pending loc := by
  subst hloc
  exact ⟨h.holds, h.stands⟩

/-- B starts a send to somebody else. -/
theorem Receiver.startSend (h : Receiver link posted accepted returned b) (hidle : b.loc = .idle)
    {dest : SockAddr} (hdest : dest ≠ link.addrA) (payload : Bytes) (maxAttempts : Int)
    (allocated : Bool) :
    Progress link posted accepted returned action
      (b.startSend dest payload maxAttempts allocated) := by
  have hholds := h.holds
  unfold Endpoint.startSend
  split
  · exact .silent h rfl
  · split
    · exact .silent h rfl
    · rename_i i peers hget
      have hbits := getPeer_expectedBit hget
      obtain ⟨hslot, _, _⟩ := Peers.getPeer_some hget
      split
      · refine .silent ⟨hholds.congr hbits, ?_⟩ rfl
        rw [hidle]
        trivial
      · refine .silent ⟨?_, hdest, hslot⟩ rfl
        rw [Endpoint.hands, hidle] at hholds
        rw [Endpoint.hands, PendingFrames.dropPeerFrames_messages (by decide),
          PendingFrames.dropPeerFrames_messages (by decide)]
        exact hholds.congr hbits

/-- A frame of B to somebody else is sent. -/
theorem Receiver.frameSent {call : SendCall} (h : Receiver link posted accepted returned b)
    (hloc : b.loc = .sendFrame call) :
    Progress link posted accepted returned action
      (b.frameSent call, [.datagram call.dest call.frame]) := by
  obtain ⟨hholds, hstands⟩ := h.at_loc hloc
  refine .silent ?_ rfl
  unfold Endpoint.frameSent
  split
  · rename_i pending htake
    refine ⟨?_, hstands⟩
    rw [Endpoint.hands, PendingFrames.takeFrame_messages (by decide) htake]
    exact hholds
  · exact ⟨hholds, hstands⟩

theorem Receiver.sendTimeout {call : SendCall} (h : Receiver link posted accepted returned b)
    (hloc : b.loc = .sendWait call) :
    Progress link posted accepted returned action (b.sendTimeout call) := by
  obtain ⟨hholds, hstands⟩ := h.at_loc hloc
  unfold Endpoint.sendTimeout
  simp only
  split
  · exact .silent ⟨hholds, trivial⟩ rfl
  · exact .silent ⟨hholds, hstands⟩ rfl

theorem Receiver.ackAckSent {call : SendCall} {count : Nat}
    (h : Receiver link posted accepted returned b) (hloc : b.loc = .sendAckAck call count) :
    Progress link posted accepted returned action (b.ackAckSent call count) := by
  obtain ⟨hholds, hdest, hslot⟩ := h.at_loc hloc
  unfold Endpoint.ackAckSent
  simp only
  split
  · exact .silent ⟨hholds, hdest, hslot⟩ rfl
  · exact .silent ⟨hholds.congr (flipSend_expectedBit hslot), trivial⟩ rfl

theorem Receiver.startRecv (h : Receiver link posted accepted returned b) (hidle : b.loc = .idle)
    (hroom : ∃ i, b.peers i = none) {call : RecvCall} (hlen : call.len = link.size) :
    Progress link posted accepted returned action (b.startRecv call) := by
  obtain ⟨hholds, _⟩ := h.at_loc hidle
  unfold Endpoint.startRecv
  split
  · exact .silent h rfl
  · obtain ⟨hreceiver, hout⟩ := receiveFirst_receiver hlen hroom hholds
    have heq : b.receiveFirst call = ((b.receiveFirst call).1, []) := by rw [← hout]
    rw [heq]
    exact .silent hreceiver rfl

/-- An acknowledgement of `rudp_recvfrom` is sent. -/
theorem Receiver.ackSent {call : RecvCall} {round : AckRound}
    (h : Receiver link posted accepted returned b) (hloc : b.loc = .recvAck call round)
    (hroom : ∃ i, b.peers i = none) (hsize : ∀ payload ∈ posted, payload.length = link.size) :
    Progress link posted accepted returned (.sendto true)
      ((b.ackSent call round).1, .datagram round.source (ackFrame round.frame.seqBit) ::
        (b.ackSent call round).2) := by
  obtain ⟨hholds, hlen, hslot, hexpected⟩ := h.at_loc hloc
  unfold Endpoint.ackSent
  split
  · rename_i pending htake
    have hsame := PendingFrames.takeFrame_messages (by decide) htake
    rw [← hsame] at hholds
    exact ⟨accepted, finishRound_receiver (b := { b with pending := pending }) hlen hroom hslot
      hsize hexpected hholds, .inl rfl⟩
  · exact .silent ⟨hholds, hlen, hslot, hexpected⟩ rfl

theorem Receiver.recvTimeout {call : RecvCall} {round : AckRound}
    (h : Receiver link posted accepted returned b) (hloc : b.loc = .recvWait call round)
    (hroom : ∃ i, b.peers i = none) (hsize : ∀ payload ∈ posted, payload.length = link.size) :
    Progress link posted accepted returned .timeout (b.recvTimeout call round) := by
  obtain ⟨hholds, hlen, hslot, hexpected⟩ := h.at_loc hloc
  unfold Endpoint.recvTimeout
  simp only
  split
  · exact .silent ⟨hholds, hlen, hslot, hexpected⟩ rfl
  · exact ⟨accepted, finishRound_receiver hlen hroom hslot hsize hexpected hholds, .inl rfl⟩

/-- What the arrival of a message of A tells: it is the last one accepted or
the next. -/
def Brings (link : Link) (posted : List Bytes) (accepted : Nat) (action : RudpAction) : Prop :=
  ∀ frame ok, action = .arrive link.addrA (.frame frame) ok → frame.frameType = .message →
    ∃ n, frameOf posted n = some frame ∧ (n = accepted ∨ n + 1 = accepted)

theorem Brings.frame {source : SockAddr} {datagram : Datagram} {ok : Bool}
    (h : Brings link posted accepted (.arrive source datagram ok)) (frame : Frame)
    (ha : source = link.addrA) (hdatagram : datagram = .frame frame)
    (hmessage : frame.frameType = .message) :
    ∃ n, frameOf posted n = some frame ∧ (n = accepted ∨ n + 1 = accepted) := by
  subst ha hdatagram
  exact h frame ok rfl hmessage

theorem Accepts.progress {accepted' : Nat} {source : SockAddr} {datagram : Datagram} {ok : Bool}
    (h : Accepts link posted accepted accepted' source datagram)
    (hreceiver : Receiver link posted accepted' returned b')
    (hreceived : receivedFrom link.addrA out = []) :
    Progress link posted accepted returned (.arrive source datagram ok) (b', out) := by
  refine ⟨accepted', ?_, h.imp_right ?_⟩
  · rw [hreceived, List.append_nil]
    exact hreceiver
  · rintro ⟨hnext, rfl, frame, rfl, hframe⟩
    exact ⟨hnext, frame, ok, rfl, hframe⟩

/-- A datagram arrives while B waits for an acknowledgement of its own. -/
theorem Receiver.sendArrival {call : SendCall} {source : SockAddr} {datagram : Datagram}
    {ok : Bool} {result : Endpoint × List RudpOutput}
    (h : Receiver link posted accepted returned b) (hloc : b.loc = .sendWait call)
    (hbrings : Brings link posted accepted (.arrive source datagram ok))
    (hturn : b.storesInTurn link.addrA (.arrive source datagram ok) = true)
    (hresult : b.arrival source datagram ok = some result) :
    Progress link posted accepted returned (.arrive source datagram ok) result := by
  have hstands := h.stands
  rw [hloc] at hstands
  cases harrived : Endpoint.waitArrival b.pending call.dest .ack
    (b.peers.stateAt call.peer).sendSeqBit source datagram ok with
  | mk found rest =>
      obtain ⟨pending, out⟩ := rest
      obtain ⟨accepted', hafter, haccepts, hreceived, _⟩ :=
        waitArrival_holds h.holds (fun frame hdatagram hmessage => by
          subst hdatagram
          simpa [Endpoint.storesInTurn, hloc, hmessage] using hturn) hbrings.frame harrived
      rw [hloc] at hafter
      simp only [Endpoint.arrival, hloc, harrived] at hresult
      cases found with
      | true =>
          cases hresult
          exact haccepts.progress ⟨hafter, hstands⟩ hreceived
      | false =>
          cases hresult
          exact haccepts.progress ⟨hafter, hstands⟩ hreceived

/-- A datagram arrives while B waits for an `ACK_ACK`. -/
theorem Receiver.recvArrival {call : RecvCall} {round : AckRound} {source : SockAddr}
    {datagram : Datagram} {ok : Bool} {result : Endpoint × List RudpOutput}
    (h : Receiver link posted accepted returned b) (hloc : b.loc = .recvWait call round)
    (hroom : ∃ i, b.peers i = none) (hsize : ∀ payload ∈ posted, payload.length = link.size)
    (hbrings : Brings link posted accepted (.arrive source datagram ok))
    (hturn : b.storesInTurn link.addrA (.arrive source datagram ok) = true)
    (hresult : b.arrival source datagram ok = some result) :
    Progress link posted accepted returned (.arrive source datagram ok) result := by
  have hstands := h.stands
  rw [hloc] at hstands
  obtain ⟨hlen, hslot, hexpected⟩ := hstands
  cases harrived : Endpoint.waitArrival b.pending round.source .ackAck round.frame.seqBit source
    datagram ok with
  | mk found rest =>
      obtain ⟨pending, out⟩ := rest
      obtain ⟨accepted', hafter, haccepts, hreceived, hfound⟩ :=
        waitArrival_holds h.holds (fun frame hdatagram hmessage => by
          subst hdatagram
          simpa [Endpoint.storesInTurn, hloc, hmessage] using hturn) hbrings.frame harrived
      rw [hloc] at hafter
      simp only [Endpoint.arrival, hloc, harrived] at hresult
      cases found with
      | true =>
          obtain ⟨rfl, rfl, rfl⟩ := hfound rfl
          cases hresult
          exact ⟨accepted', finishRound_receiver hlen hroom hslot hsize hexpected hafter, .inl rfl⟩
      | false =>
          cases hresult
          exact haccepts.progress ⟨hafter, hlen, hslot, hexpected⟩ hreceived

/-- What `receive_message_frame` makes of a datagram. -/
theorem receiveArrival_cases (pending : PendingFrames) (source : SockAddr)
    (datagram : Datagram) :
    (∃ frame, datagram = .frame frame ∧ frame.frameType = .message ∧
      Endpoint.receiveArrival pending source datagram = (some frame, pending)) ∨
    ∃ pending', pending'.messages = pending.messages ∧
      Endpoint.receiveArrival pending source datagram = (none, pending') := by
  cases datagram with
  | short => exact .inr ⟨pending, rfl, rfl⟩
  | frame frame =>
      by_cases hmessage : frame.frameType = .message
      · exact .inl ⟨frame, rfl, hmessage, by simp [Endpoint.receiveArrival, hmessage]⟩
      · have harrived : Endpoint.receiveArrival pending source (.frame frame) =
            (none, (pending.storeFrame source frame).getD pending) := by
          simp [Endpoint.receiveArrival, hmessage]
        exact .inr ⟨_, storeFrame_getD_messages hmessage, harrived⟩

/-- A datagram arrives at the first `receive_message_frame`, whose buffer
holds no message. -/
theorem Receiver.firstArrival {call : RecvCall} {source : SockAddr} {datagram : Datagram}
    {ok : Bool} {result : Endpoint × List RudpOutput}
    (h : Receiver link posted accepted returned b) (hloc : b.loc = .recvFirst call)
    (hroom : ∃ i, b.peers i = none)
    (hbrings : Brings link posted accepted (.arrive source datagram ok))
    (hresult : b.arrival source datagram ok = some result) :
    Progress link posted accepted returned (.arrive source datagram ok) result := by
  obtain ⟨hholds, hlen, hnone⟩ := h.at_loc hloc
  rcases receiveArrival_cases b.pending source datagram with
    ⟨frame, rfl, hmessage, harrived⟩ | ⟨pending', hmessages, harrived⟩
  · simp only [Endpoint.arrival, hloc, harrived] at hresult
    cases hresult
    have hempty : b.pending.messages.entries = [] := SlotTable.entries_eq_nil.mpr hnone
    have hhands : Holds link posted accepted returned b.peers ([] ++ []) := by
      rw [hempty] at hholds
      exact hholds
    obtain ⟨accepted', htaken, hnext⟩ := hhands.insert (a := ⟨source, frame⟩) (by simp)
      (fun _ _ => rfl) (fun ha => hbrings.frame frame ha rfl hmessage)
    have htaken' : Holds link posted accepted' returned b.peers
        (⟨source, frame⟩ :: b.pending.messages.entries) := by
      rw [hempty]
      exact htaken
    obtain ⟨hreceiver, hout⟩ := process_receiver hlen hroom htaken'
    refine ⟨accepted', ?_, hnext.imp_right ?_⟩
    · rw [← hloc, hout]
      simpa [receivedFrom] using hreceiver
    · rintro ⟨hsucc, rfl, hframe⟩
      exact ⟨hsucc, frame, ok, rfl, hframe⟩
  · simp only [Endpoint.arrival, hloc, harrived] at hresult
    cases hresult
    refine .silent ⟨?_, hlen, fun i => by rw [hmessages, hnone]⟩ rfl
    rw [Endpoint.hands, hmessages]
    exact hholds

/-- A datagram arrives at the second `receive_message_frame`, which throws a
message away without an acknowledgement. -/
theorem Receiver.secondArrival {call : RecvCall} {source : SockAddr} {datagram : Datagram}
    {ok : Bool} {result : Endpoint × List RudpOutput}
    (h : Receiver link posted accepted returned b) (hloc : b.loc = .recvSecond call)
    (hroom : ∃ i, b.peers i = none)
    (hresult : b.arrival source datagram ok = some result) :
    Progress link posted accepted returned (.arrive source datagram ok) result := by
  obtain ⟨hholds, hlen, hnone⟩ := h.at_loc hloc
  rcases receiveArrival_cases b.pending source datagram with
    ⟨frame, _, _, harrived⟩ | ⟨pending', hmessages, harrived⟩
  · simp only [Endpoint.arrival, hloc, harrived] at hresult
    cases hresult
    obtain ⟨hreceiver, hout⟩ := receiveFirst_receiver hlen hroom hholds
    refine ⟨accepted, ?_, .inl rfl⟩
    rw [← hloc, hout]
    simpa [receivedFrom] using hreceiver
  · simp only [Endpoint.arrival, hloc, harrived] at hresult
    cases hresult
    refine .silent ⟨?_, hlen, fun i => by rw [hmessages, hnone]⟩ rfl
    rw [Endpoint.hands, hmessages]
    exact hholds

/-- Every step of B that stores in turn. -/
theorem Receiver.step {result : Endpoint × List RudpOutput}
    (h : Receiver link posted accepted returned b)
    (hsize : ∀ payload ∈ posted, payload.length = link.size)
    (hroom : b.hasRoom = true) (haction : action.ofReceiver link = true)
    (hturn : b.storesInTurn link.addrA action = true)
    (hbrings : Brings link posted accepted action) (hstep : b.step action = some result) :
    Progress link posted accepted returned action result := by
  have hholds := h.holds
  have hfree := Endpoint.exists_free hroom
  cases Endpoint.acts_of_step hstep with
  | startSend hidle dest payload maxAttempts allocated =>
      exact h.startSend hidle (by simpa [RudpAction.ofReceiver] using haction) _ _ _
  | startRecv hidle len buffer =>
      exact h.startRecv hidle hfree (by simpa [RudpAction.ofReceiver] using haction)
  | frameSent call hloc => exact h.frameSent hloc
  | ackAckSent call count hloc => exact h.ackAckSent hloc
  | ackSent call round hloc => exact h.ackSent hloc hfree hsize
  | sendArrival call hloc source datagram ok harrival =>
      exact h.sendArrival hloc hbrings hturn harrival
  | firstArrival call hloc source datagram ok harrival =>
      exact h.firstArrival hloc hfree hbrings harrival
  | waitArrival call round hloc source datagram ok harrival =>
      exact h.recvArrival hloc hfree hsize hbrings hturn harrival
  | secondArrival call hloc source datagram ok harrival =>
      exact h.secondArrival hloc hfree harrival
  | sendTimeout call hloc => exact h.sendTimeout hloc
  | recvTimeout call round hloc => exact h.recvTimeout hloc hfree hsize
  | firstBlocked call hloc | secondBlocked call hloc =>
      rw [Endpoint.hands, hloc] at hholds
      exact .silent ⟨hholds, trivial⟩ rfl
  | frameFailed | ackAckFailed | ackFailed => cases haction
  | sendWaitFailed | firstFailed | recvWaitFailed | secondFailed => cases haction

end Facts

end TokenRing
