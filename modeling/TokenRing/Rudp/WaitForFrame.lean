import TokenRing.Lib.Lts
import TokenRing.Lib.SlotBag
import TokenRing.Rudp.Machine

/-!
A whole call of `wait_for_frame`: the frame is taken out of the buffer, or the
datagrams that arrive are gone through until it is among them or the time is
over. What is not returned is kept, and a message is acknowledged when it is
stored.
-/

namespace TokenRing

/-- What `recvfrom` writes into a frame buffer. -/
def Datagram.cut : Datagram → Datagram
  | .short => .short
  | .frame whole => .frame { whole with data := whole.data.take (maxFrameSize - headerSize) }

def Datagram.entryFrom (source : SockAddr) : Datagram → Option PendingFrame
  | .short => none
  | .frame whole => some ⟨source, whole⟩

/-- A message read in the loop, with the buffer it met and the acknowledgement
handed to `sendto` for it. -/
structure MessageRead where
  entry : PendingFrame
  before : PendingFrames
  acks : List RudpOutput

/-- What a call comes to: the frame returned, the slot it was in if it was
taken out of the buffer, the buffer left, the datagrams not read and the
messages read. -/
structure WaitRun where
  returned : Option PendingFrame
  taken : Option (Fin 256)
  pending : PendingFrames
  unread : List (SockAddr × Datagram)
  reads : List MessageRead

/-- An arrival in the loop: the frame with its source, as it is read. -/
def readEntry (arrival : SockAddr × Datagram) : Option PendingFrame :=
  arrival.2.cut.entryFrom arrival.1

/-- The message among the arrivals, if this is one. -/
def readMessage (arrival : SockAddr × Datagram) : Option PendingFrame :=
  (readEntry arrival).filter PendingFrame.isMessage

namespace PendingFrames

section Wait

variable (expectedAddr : SockAddr) (expectedType : FrameType) (expectedSeq : UInt8)

/-- The slot in which `pending_take_frame` finds the frame. -/
def takeSlot (pending : PendingFrames) : Option (Fin 256) :=
  pending.firstSlot (fun content => content.any (fun entry =>
    entry.frame.frameType = expectedType && entry.frame.seqBit = expectedSeq &&
      entry.addr = expectedAddr))

/-- The loop of `wait_for_frame`. The result of `send_ack_frame` is not looked
at. At the end of the list the time is over, or a system call failed. -/
def waitLoop : List (SockAddr × Datagram) → PendingFrames → WaitRun
  | [], pending => ⟨none, none, pending, [], []⟩
  | arrival :: rest, pending =>
      match Endpoint.waitArrival pending expectedAddr expectedType expectedSeq arrival.1
          arrival.2.cut true with
      | (true, pending', _) => ⟨readEntry arrival, none, pending', rest, []⟩
      | (false, pending', acks) =>
          let run := waitLoop rest pending'
          { run with
            reads := (readMessage arrival).toList.map (⟨·, pending, acks⟩) ++ run.reads }

/-- `wait_for_frame`. -/
def waitForFrame (pending : PendingFrames) (arrivals : List (SockAddr × Datagram)) : WaitRun :=
  match pending.takeFrame expectedAddr expectedType expectedSeq with
  | some pending' =>
      let taken := pending.takeSlot expectedAddr expectedType expectedSeq
      ⟨taken.bind pending, taken, pending', arrivals, []⟩
  | none => waitLoop expectedAddr expectedType expectedSeq arrivals pending

end Wait

end PendingFrames

/-- The entry is the frame that the caller waits for. -/
def PendingFrame.Answers (entry : PendingFrame) (expectedAddr : SockAddr)
    (expectedType : FrameType) (expectedSeq : UInt8) : Prop :=
  entry.addr = expectedAddr ∧ entry.frame.frameType = expectedType ∧
    entry.frame.seqBit = expectedSeq

/-- A control frame of the same source, type and bit. -/
def PendingFrame.Renews (newer entry : PendingFrame) : Prop :=
  entry.frame.frameType ≠ .message ∧
    newer.Answers entry.addr entry.frame.frameType entry.frame.seqBit

/-- A message is acknowledged with its bit to its source, or not. -/
def MessageRead.ack (read : MessageRead) : RudpOutput :=
  .datagram read.entry.addr (ackFrame read.entry.frame.seqBit)

/-- What is not returned is kept. Every frame that was pending still is, but
for the one returned and control frames that newer ones replaced; the messages
read that were acknowledged are pending, and the others met a full buffer. -/
structure Conserves (pending : PendingFrames) (expectedAddr : SockAddr)
    (expectedType : FrameType) (expectedSeq : UInt8) (consumed : List (SockAddr × Datagram))
    (run : WaitRun) : Prop where
  returned : ∀ entry, run.returned = some entry →
    entry.Answers expectedAddr expectedType expectedSeq
  reads : run.reads.map MessageRead.entry = consumed.filterMap readMessage
  acks : ∀ read ∈ run.reads, read.acks = [] ∨ read.acks = [read.ack]
  messages : run.pending.messages.bag = pending.messages.bag +
    ((run.reads.filter (fun read => read.acks ≠ [])).map MessageRead.entry : List PendingFrame)
  stored : ∀ read ∈ run.reads, read.acks ≠ [] → ∃ i, run.pending i = some read.entry
  full : ∀ read ∈ run.reads, read.acks = [] → ∀ i, (read.before i).isSome = true
  kept : ∀ i entry, pending i = some entry → run.pending i = some entry ∨
    (run.taken = some i ∧ run.returned = some entry) ∨
    ∃ newer, run.pending i = some newer ∧ newer.Renews entry ∧
      newer ∈ consumed.filterMap readEntry

section Arrival

variable {pending pending' : PendingFrames} {expectedAddr : SockAddr} {expectedType : FrameType}
  {expectedSeq : UInt8} {arrival : SockAddr × Datagram}

/-- What one datagram does in the loop. -/
inductive WaitStep (pending : PendingFrames) (expectedAddr : SockAddr)
    (expectedType : FrameType) (expectedSeq : UInt8) (arrival : SockAddr × Datagram) :
    Bool × PendingFrames × List RudpOutput → Prop where
  | found (entry : PendingFrame) (hentry : readEntry arrival = some entry)
      (hcontrol : entry.frame.frameType ≠ .message)
      (hanswers : entry.Answers expectedAddr expectedType expectedSeq) :
      WaitStep pending expectedAddr expectedType expectedSeq arrival (true, pending, [])
  | dropped (hfull : ∀ entry, readMessage arrival = some entry →
        ∀ i, (pending i).isSome = true) :
      WaitStep pending expectedAddr expectedType expectedSeq arrival (false, pending, [])
  | message (entry : PendingFrame) (hmessage : readMessage arrival = some entry) (i : Fin 256)
      (hfree : pending i = none) :
      WaitStep pending expectedAddr expectedType expectedSeq arrival
        (false, pending.set i (some entry),
          [.datagram entry.addr (ackFrame entry.frame.seqBit)])
  | control (entry : PendingFrame) (hentry : readEntry arrival = some entry)
      (hcontrol : entry.frame.frameType ≠ .message) (i : Fin 256)
      (hslot : pending i = none ∨ ∃ old, pending i = some old ∧ entry.Renews old) :
      WaitStep pending expectedAddr expectedType expectedSeq arrival
        (false, pending.set i (some entry), [])

theorem readMessage_of_message {entry : PendingFrame} (hentry : readEntry arrival = some entry)
    (hmessage : entry.frame.frameType = .message) : readMessage arrival = some entry := by
  unfold readMessage
  rw [hentry]
  exact PendingFrames.filter_message (by simp [PendingFrame.isMessage, hmessage])

theorem readMessage_of_control {entry : PendingFrame} (hentry : readEntry arrival = some entry)
    (hcontrol : entry.frame.frameType ≠ .message) : readMessage arrival = none := by
  unfold readMessage
  rw [hentry]
  exact PendingFrames.filter_control hcontrol

theorem cut_fits (frame : Frame) :
    ({ frame with data := frame.data.take (maxFrameSize - headerSize) } : Frame).len ≤
      maxFrameSize := by
  simp only [Frame.len, List.length_take, maxFrameSize, headerSize]
  omega

theorem waitStep_waitArrival (pending : PendingFrames) (expectedAddr : SockAddr)
    (expectedType : FrameType) (expectedSeq : UInt8) (arrival : SockAddr × Datagram) :
    WaitStep pending expectedAddr expectedType expectedSeq arrival
      (Endpoint.waitArrival pending expectedAddr expectedType expectedSeq arrival.1
        arrival.2.cut true) := by
  obtain ⟨source, datagram⟩ := arrival
  cases datagram with
  | short =>
      apply WaitStep.dropped
      intro entry hmessage
      cases hmessage
  | frame whole =>
      have hfits := cut_fits whole
      have hentry : readEntry (source, Datagram.frame whole) = some
          ⟨source, { whole with data := whole.data.take (maxFrameSize - headerSize) }⟩ := rfl
      simp only [Datagram.cut]
      generalize ({ whole with data := whole.data.take (maxFrameSize - headerSize) } : Frame) =
        frame at hfits hentry ⊢
      unfold Endpoint.waitArrival
      simp only
      by_cases hmessage : frame.frameType = .message
      · rw [if_pos hmessage]
        have hread := readMessage_of_message hentry hmessage
        cases hstore : pending.storeFrame source frame with
        | none =>
            apply WaitStep.dropped
            intro _ _
            exact PendingFrames.storeFrame_none hfits hstore
        | some stored =>
            obtain ⟨i, hslot, rfl⟩ := PendingFrames.storeFrame_some hstore
            rcases PendingFrames.storeSlot_some hslot with hfree | ⟨hcontrol, _⟩
            · exact .message ⟨source, frame⟩ hread i hfree
            · exact absurd hmessage hcontrol
      · rw [if_neg hmessage]
        split
        · rename_i hanswers
          exact .found ⟨source, frame⟩ hentry hmessage hanswers
        · cases hstore : pending.storeFrame source frame with
          | none =>
              apply WaitStep.dropped
              intro entry hread
              rw [readMessage_of_control hentry hmessage] at hread
              cases hread
          | some stored =>
              obtain ⟨i, hslot, rfl⟩ := PendingFrames.storeFrame_some hstore
              apply WaitStep.control ⟨source, frame⟩ hentry hmessage i
              rcases PendingFrames.storeSlot_some hslot with hfree | ⟨_, old, hold, hsame⟩
              · exact .inl hfree
              · obtain ⟨haddr, htype, hbit⟩ := hsame
                exact .inr ⟨old, hold, htype ▸ hmessage, haddr.symm, htype.symm, hbit.symm⟩

theorem readMessage_some {entry : PendingFrame} (h : readMessage arrival = some entry) :
    readEntry arrival = some entry ∧ entry.frame.frameType = .message := by
  obtain ⟨hentry, hmessage⟩ := Option.filter_eq_some_iff.mp h
  exact ⟨hentry, by simpa [PendingFrame.isMessage] using hmessage⟩

/-- The loop goes on: what the datagram left of the buffer, and what became of
it if it was a message. -/
structure Advances (pending : PendingFrames) (arrival : SockAddr × Datagram)
    (pending' : PendingFrames) (acks : List RudpOutput) : Prop where
  control : readMessage arrival = none → pending'.messages = pending.messages
  message : ∀ entry, readMessage arrival = some entry →
    (acks = [] ∧ pending' = pending ∧ ∀ i, (pending i).isSome = true) ∨
      acks = [.datagram entry.addr (ackFrame entry.frame.seqBit)] ∧
        ∃ i, pending i = none ∧ pending' = pending.set i (some entry)
  kept : ∀ i entry, pending i = some entry → pending' i = some entry ∨
    ∃ newer, pending' i = some newer ∧ newer.Renews entry ∧ readEntry arrival = some newer

theorem WaitStep.advances {acks : List RudpOutput}
    (h : WaitStep pending expectedAddr expectedType expectedSeq arrival (false, pending', acks)) :
    Advances pending arrival pending' acks := by
  cases h with
  | dropped hfull =>
      constructor
      · intro _
        rfl
      · intro entry hmessage
        exact .inl ⟨rfl, rfl, hfull entry hmessage⟩
      · intro i entry hentry
        exact .inl hentry
  | message read hread i hfree =>
      constructor
      · intro hnone
        rw [hread] at hnone
        cases hnone
      · intro entry hmessage
        rw [hread] at hmessage
        cases hmessage
        exact .inr ⟨rfl, i, hfree, rfl⟩
      · intro j entry hentry
        have hj : j ≠ i := by
          rintro rfl
          rw [hfree] at hentry
          cases hentry
        rw [SlotTable.set_of_ne _ _ hj]
        exact .inl hentry
  | control newer hnewer hcontrol i hslot =>
      constructor
      · intro _
        refine PendingFrames.messages_set_control ?_ (PendingFrames.filter_control hcontrol)
        rcases hslot with hfree | ⟨old, hold, hrenews⟩
        · rw [hfree]
          rfl
        · rw [hold]
          exact PendingFrames.filter_control hrenews.1
      · intro entry hmessage
        rw [readMessage_of_control hnewer hcontrol] at hmessage
        cases hmessage
      · intro j entry hentry
        by_cases hj : j = i
        · subst hj
          rcases hslot with hfree | ⟨old, hold, hrenews⟩
          · rw [hfree] at hentry
            cases hentry
          · rw [hold] at hentry
            cases hentry
            exact .inr ⟨newer, SlotTable.set_self _ _ _, hrenews, hnewer⟩
        · rw [SlotTable.set_of_ne _ _ hj]
          exact .inl hentry

/-- Nothing is acknowledged but a message. -/
theorem WaitStep.acks_read {found : Bool} {acks : List RudpOutput}
    (h : WaitStep pending expectedAddr expectedType expectedSeq arrival (found, pending', acks)) :
    (readMessage arrival).toList.flatMap (fun _ => acks) = acks := by
  cases h with
  | found | dropped | control => simp
  | message entry hmessage i hfree => simp [hmessage]

theorem PendingFrame.Renews.trans {newest newer entry : PendingFrame}
    (h : newest.Renews newer) (hnewer : newer.Renews entry) : newest.Renews entry := by
  obtain ⟨_, haddr, htype, hbit⟩ := h
  obtain ⟨hcontrol, haddr', htype', hbit'⟩ := hnewer
  exact ⟨hcontrol, haddr.trans haddr', htype.trans htype', hbit.trans hbit'⟩

end Arrival

section Loop

variable {pending pending' : PendingFrames} {expectedAddr : SockAddr} {expectedType : FrameType}
  {expectedSeq : UInt8} {arrival : SockAddr × Datagram}
  {consumed : List (SockAddr × Datagram)} {run : WaitRun} {acks : List RudpOutput}

/-- What was pending after the first datagram is pending in the end. -/
theorem Advances.keeps (h : Advances pending arrival pending' acks)
    (hrest : Conserves pending' expectedAddr expectedType expectedSeq consumed run)
    (htaken : run.taken = none) (i : Fin 256) (entry : PendingFrame)
    (hentry : pending i = some entry) : run.pending i = some entry ∨
      ∃ newer, run.pending i = some newer ∧ newer.Renews entry ∧
        newer ∈ (arrival :: consumed).filterMap readEntry := by
  have hlater : ∀ old, pending' i = some old → run.pending i = some old ∨
      ∃ newer, run.pending i = some newer ∧ newer.Renews old ∧
        newer ∈ (arrival :: consumed).filterMap readEntry := by
    intro old hold
    rcases hrest.kept i old hold with hsame | ⟨htake, _⟩ | ⟨newer, hnewer, hrenews, hread⟩
    · exact .inl hsame
    · rw [htaken] at htake
      cases htake
    · obtain ⟨source, hsource, hentry⟩ := List.mem_filterMap.mp hread
      exact .inr ⟨newer, hnewer, hrenews,
        List.mem_filterMap.mpr ⟨source, List.mem_cons_of_mem _ hsource, hentry⟩⟩
  rcases h.kept i entry hentry with hsame | ⟨newer, hnewer, hrenews, hread⟩
  · exact hlater entry hsame
  · have hmem : newer ∈ (arrival :: consumed).filterMap readEntry :=
      List.mem_filterMap.mpr ⟨arrival, List.mem_cons_self, hread⟩
    rcases hlater newer hnewer with hsame | ⟨newest, hnewest, hagain, hread'⟩
    · exact .inr ⟨newer, hsame, hrenews, hmem⟩
    · exact .inr ⟨newest, hnewest, hagain.trans hrenews, hread'⟩

/-- The loop goes on after a datagram that was no message. -/
theorem Advances.conserves_control (h : Advances pending arrival pending' acks)
    (hnone : readMessage arrival = none)
    (hrest : Conserves pending' expectedAddr expectedType expectedSeq consumed run)
    (htaken : run.taken = none) :
    Conserves pending expectedAddr expectedType expectedSeq (arrival :: consumed) run := by
  constructor
  · exact hrest.returned
  · rw [List.filterMap_cons_none hnone]
    exact hrest.reads
  · exact hrest.acks
  · rw [hrest.messages, h.control hnone]
  · exact hrest.stored
  · exact hrest.full
  · intro i entry hentry
    rcases h.keeps hrest htaken i entry hentry with hsame | hrenewed
    · exact .inl hsame
    · exact .inr (.inr hrenewed)

/-- The loop goes on after a message. -/
theorem Advances.conserves_message (h : Advances pending arrival pending' acks)
    {entry : PendingFrame} (hmessage : readMessage arrival = some entry)
    (hrest : Conserves pending' expectedAddr expectedType expectedSeq consumed run)
    (htaken : run.taken = none) :
    Conserves pending expectedAddr expectedType expectedSeq (arrival :: consumed)
      { run with reads := ⟨entry, pending, acks⟩ :: run.reads } := by
  have hcase := h.message entry hmessage
  have htype := (readMessage_some hmessage).2
  constructor
  · exact hrest.returned
  · rw [List.filterMap_cons_some hmessage]
    exact congrArg (entry :: ·) hrest.reads
  · intro read hread
    rcases List.mem_cons.mp hread with rfl | hlater
    · rcases hcase with ⟨hnone, _⟩ | ⟨hack, _⟩
      · exact .inl hnone
      · exact .inr hack
    · exact hrest.acks read hlater
  · rcases hcase with ⟨hnone, hsame, _⟩ | ⟨hack, i, hfree, hstored⟩
    · subst hsame
      simpa [hnone] using hrest.messages
    · have hbag : pending'.messages.bag = pending.messages.bag + {entry} := by
        have hslot : pending.messages i = none := by simp [PendingFrames.messages, hfree]
        rw [hstored, PendingFrames.messages_set, PendingFrames.filter_message,
          SlotTable.bag_fill hslot]
        simp [PendingFrame.isMessage, htype]
      have hmessages := hrest.messages
      rw [hbag] at hmessages
      simp only [hmessages, hack, ne_eq, List.cons_ne_self, not_false_eq_true, decide_true,
        List.filter_cons_of_pos, List.map_cons, ← Multiset.cons_coe]
      rw [← Multiset.singleton_add, add_assoc]
  · intro read hread hacked
    rcases List.mem_cons.mp hread with rfl | hlater
    · rcases hcase with ⟨hnone, _⟩ | ⟨_, i, _, hstored⟩
      · exact absurd hnone hacked
      · have hslot : pending' i = some entry := by rw [hstored, SlotTable.set_self]
        refine ⟨i, ?_⟩
        rcases hrest.kept i entry hslot with hsame | ⟨htake, _⟩ | ⟨_, _, ⟨hcontrol, _⟩, _⟩
        · exact hsame
        · rw [htaken] at htake
          cases htake
        · exact absurd htype hcontrol
    · exact hrest.stored read hlater hacked
  · intro read hread hacked
    rcases List.mem_cons.mp hread with rfl | hlater
    · rcases hcase with ⟨_, _, hfull⟩ | ⟨hack, _⟩
      · exact hfull
      · rw [hack] at hacked
        cases hacked
    · exact hrest.full read hlater hacked
  · intro i old hold
    rcases h.keeps hrest htaken i old hold with hsame | hrenewed
    · exact .inl hsame
    · exact .inr (.inr hrenewed)

theorem waitLoop_conserves (expectedAddr : SockAddr) (expectedType : FrameType)
    (expectedSeq : UInt8) (arrivals : List (SockAddr × Datagram)) (pending : PendingFrames) :
    (PendingFrames.waitLoop expectedAddr expectedType expectedSeq arrivals pending).taken = none ∧
      ∃ consumed, arrivals = consumed ++
          (PendingFrames.waitLoop expectedAddr expectedType expectedSeq arrivals pending).unread ∧
        Conserves pending expectedAddr expectedType expectedSeq consumed
          (PendingFrames.waitLoop expectedAddr expectedType expectedSeq arrivals pending) := by
  induction arrivals generalizing pending with
  | nil =>
      refine ⟨rfl, [], rfl, ?_⟩
      constructor <;> simp [PendingFrames.waitLoop]
  | cons arrival rest ih =>
      have hstep := waitStep_waitArrival pending expectedAddr expectedType expectedSeq arrival
      unfold PendingFrames.waitLoop
      generalize Endpoint.waitArrival pending expectedAddr expectedType expectedSeq arrival.1
        arrival.2.cut true = result at hstep ⊢
      obtain ⟨found, pending', acks⟩ := result
      cases found with
      | true =>
          cases hstep with
          | found entry hentry hcontrol hanswers =>
              refine ⟨rfl, [arrival], rfl, ?_⟩
              constructor <;>
                simp [hentry, hanswers, readMessage_of_control hentry hcontrol]
              intro i entry hentry
              exact .inl hentry
      | false =>
          have hadvances := hstep.advances
          obtain ⟨htaken, consumed, hsplit, hrest⟩ := ih pending'
          refine ⟨htaken, arrival :: consumed, congrArg (arrival :: ·) hsplit, ?_⟩
          cases hread : readMessage arrival with
          | none => exact hadvances.conserves_control hread hrest htaken
          | some entry => exact hadvances.conserves_message hread hrest htaken

end Loop

section Call

variable {pending : PendingFrames} {expectedAddr : SockAddr} {expectedType : FrameType}
  {expectedSeq : UInt8}

/-- The frame is taken out of the buffer, and no datagram is read. -/
theorem conserves_takeFrame {pending' : PendingFrames} (hcontrol : expectedType ≠ .message)
    (htake : pending.takeFrame expectedAddr expectedType expectedSeq = some pending')
    (arrivals : List (SockAddr × Datagram)) :
    Conserves pending expectedAddr expectedType expectedSeq []
      ⟨(pending.takeSlot expectedAddr expectedType expectedSeq).bind pending,
        pending.takeSlot expectedAddr expectedType expectedSeq, pending', arrivals, []⟩ := by
  have hmessages := PendingFrames.takeFrame_messages hcontrol htake
  obtain ⟨i, hslot, rfl⟩ := Option.map_eq_some_iff.mp htake
  change pending.takeSlot expectedAddr expectedType expectedSeq = some i at hslot
  obtain ⟨entry, hentry, hmatch⟩ :=
    (Option.any_eq_true _ _).mp (SlotTable.firstSlot_spec hslot)
  simp only [Bool.and_eq_true, decide_eq_true_eq] at hmatch
  obtain ⟨⟨htype, hbit⟩, haddr⟩ := hmatch
  rw [hslot]
  constructor
  · intro returned hreturned
    have hsame : pending i = some returned := hreturned
    rw [hentry] at hsame
    cases hsame
    exact ⟨haddr, htype, hbit⟩
  · rfl
  · intro read hread
    cases hread
  · simp [hmessages]
  · intro read hread
    cases hread
  · intro read hread
    cases hread
  · intro j old hold
    by_cases hj : j = i
    · subst hj
      exact .inr (.inl ⟨rfl, hold⟩)
    · simp only [SlotTable.set_of_ne _ _ hj]
      exact .inl hold

end Call

/-- Whatever the buffer and the datagrams are, and whenever the time is over. -/
theorem wait_for_frame_conserves (pending : PendingFrames) (expectedAddr : SockAddr)
    (expectedType : FrameType) (hcontrol : expectedType = .ack ∨ expectedType = .ackAck)
    (expectedSeq : UInt8) (arrivals : List (SockAddr × Datagram)) :
    ∃ consumed, arrivals = consumed ++
        (pending.waitForFrame expectedAddr expectedType expectedSeq arrivals).unread ∧
      Conserves pending expectedAddr expectedType expectedSeq consumed
        (pending.waitForFrame expectedAddr expectedType expectedSeq arrivals) := by
  have htype : expectedType ≠ .message := by
    rintro rfl
    rcases hcontrol with h | h <;> cases h
  unfold PendingFrames.waitForFrame
  cases htake : pending.takeFrame expectedAddr expectedType expectedSeq with
  | some pending' => exact ⟨[], rfl, conserves_takeFrame htype htake arrivals⟩
  | none => exact (waitLoop_conserves expectedAddr expectedType expectedSeq arrivals pending).2

/-- A message arrives before the answer. -/
def answerBehindMessage : List (SockAddr × Datagram) :=
  [(⟨2, 5002, 1⟩, .frame ⟨.message, 1, [7]⟩), (⟨2, 5001, 1⟩, .frame ⟨.ack, 0, []⟩)]

theorem message_kept_while_waiting :
    (PendingFrames.waitForFrame ⟨2, 5001, 1⟩ .ack 0 SlotTable.empty answerBehindMessage).returned =
        some ⟨⟨2, 5001, 1⟩, ⟨.ack, 0, []⟩⟩ ∧
      ∃ consumed, answerBehindMessage = consumed ++
          (PendingFrames.waitForFrame ⟨2, 5001, 1⟩ .ack 0 SlotTable.empty
            answerBehindMessage).unread ∧
        Conserves SlotTable.empty ⟨2, 5001, 1⟩ .ack 0 consumed
          (PendingFrames.waitForFrame ⟨2, 5001, 1⟩ .ack 0 SlotTable.empty answerBehindMessage) :=
  ⟨by decide +kernel, wait_for_frame_conserves _ _ _ (.inl rfl) _ _⟩

section Machine

/-- The arrivals as the machine reads them. -/
def readActions (consumed : List (SockAddr × Datagram)) : List RudpAction :=
  consumed.map (fun arrival => .arrive arrival.1 arrival.2.cut true)

/-- The machine in the wait of `rudp_sendto_with_limits` makes the passes of
the loop. -/
theorem exec_sendWait (arrivals : List (SockAddr × Datagram)) (ep : Endpoint) (call : SendCall)
    (hloc : ep.loc = .sendWait call) (out : List RudpOutput) (run : WaitRun)
    (hrun : PendingFrames.waitLoop call.dest .ack (ep.peers.stateAt call.peer).sendSeqBit
      arrivals ep.pending = run) :
    ∃ consumed, arrivals = consumed ++ run.unread ∧
      Lts.exec (Lts.logged Endpoint.step) (ep, out) (readActions consumed) =
        some ({ ep with
            pending := run.pending
            loc := if run.returned.isSome then .sendAckAck call 0 else .sendWait call },
          out ++ run.reads.flatMap MessageRead.acks) := by
  induction arrivals generalizing ep out run with
  | nil =>
      subst hrun
      refine ⟨[], rfl, ?_⟩
      simp [PendingFrames.waitLoop, readActions, ← hloc]
  | cons arrival rest ih =>
      have hstep := waitStep_waitArrival ep.pending call.dest .ack
        (ep.peers.stateAt call.peer).sendSeqBit arrival
      unfold PendingFrames.waitLoop at hrun
      rcases hresult : Endpoint.waitArrival ep.pending call.dest .ack
        (ep.peers.stateAt call.peer).sendSeqBit arrival.1 arrival.2.cut true with
        ⟨found, pending', acks⟩
      rw [hresult] at hrun hstep
      cases found with
      | true =>
          cases hstep with
          | found entry hentry hcontrol hanswers =>
              subst hrun
              refine ⟨[arrival], rfl, ?_⟩
              simp [readActions, Lts.logged, Endpoint.step, Endpoint.arrival, hloc, hresult,
                hentry]
      | false =>
          have hpass : Lts.logged Endpoint.step (ep, out)
              (.arrive arrival.1 arrival.2.cut true) =
                some ({ ep with pending := pending' }, out ++ acks) := by
            simp [Lts.logged, Endpoint.step, Endpoint.arrival, hloc, hresult]
          obtain ⟨consumed, hsplit, hrest⟩ :=
            ih { ep with pending := pending' } hloc (out ++ acks) _ rfl
          subst hrun
          refine ⟨arrival :: consumed, congrArg (arrival :: ·) hsplit, ?_⟩
          have hacks := hstep.acks_read
          simp only [readActions, List.map_cons, Lts.exec_cons, hpass, Option.bind_some]
          simp only [readActions] at hrest
          rw [hrest]
          simp [List.flatMap_append, List.flatMap_map, hacks]

end Machine

end TokenRing
