import TokenRing.Rudp.Conservation
import TokenRing.Rudp.SequenceBits

/-!
The length of the frame in a call of `rudp_recvfrom`. Both ways to a message
report how long it is, and the call does not look at it: a message with the
expected bit that is shorter than the record is returned like a whole one.
-/

namespace TokenRing

/-- A system call that fails. -/
def RudpAction.fails : RudpAction → Bool
  | .sendto ok => !ok
  | .fail => true
  | _ => false

/-- The message that the call has just taken up with the bit expected of its
sender. -/
def RudpLoc.takenUp : RudpLoc → Option PendingFrame
  | .recvAck _ round =>
      if round.isExpected && round.attempts = 0 then some round.message else none
  | _ => none

/-- A call of `rudp_recvfrom` under way, with the messages read from the socket,
those taken up with the expected bit, whether a system call has failed, and the
outputs. -/
structure Intake where
  ep : Endpoint
  read : List PendingFrame
  taken : List PendingFrame
  failed : Bool
  out : List RudpOutput

namespace Intake

def start (ep : Endpoint) (call : RecvCall) : Intake :=
  ⟨(ep.startRecv call).1, [], (ep.startRecv call).1.loc.takenUp.toList, false,
    (ep.startRecv call).2⟩

/-- The call after a system call with this result. -/
def after (run : Intake) (action : RudpAction) (result : Endpoint × List RudpOutput) : Intake :=
  { ep := result.1
    read := run.read ++ action.message.toList
    taken := run.taken ++ result.1.loc.takenUp.toList
    failed := run.failed || action.fails
    out := run.out ++ result.2 }

/-- One system call; after the return there is none. -/
def step (run : Intake) (action : RudpAction) : Option Intake :=
  match run.ep.loc with
  | .idle => none
  | _ => (run.ep.step action).map (run.after action)

/-- What is returned is the beginning of a message that has all the bytes asked
for, and only the sender of such a message has its expected bit flipped. -/
structure NoneTruncated (before : Endpoint) (call : RecvCall) (run : Intake) : Prop where
  delivered : ∀ source payload, .received source payload ∈ run.out →
    ∃ message ∈ run.taken, message.addr = source ∧ call.len ≤ message.frame.data.length ∧
      payload = message.frame.data.take call.len
  flipped : ∀ addr, (run.ep.peers.stateOf addr).expectedSeqBit ≠
      (before.peers.stateOf addr).expectedSeqBit →
    ∃ message ∈ run.taken, message.addr = addr ∧ call.len ≤ message.frame.data.length
  genuine : ∀ message ∈ run.taken,
    (∃ i, before.pending.messages i = some message) ∨ message ∈ run.read

/-- The messages taken up with the expected bit are long enough, or the call
fails in a system call. -/
def LongOrFailed (call : RecvCall) (run : Intake) : Prop :=
  (∀ message ∈ run.taken, call.len ≤ message.frame.data.length) ∨ run.failed = true

section Known

variable {known : PendingFrame → Prop} {ep : Endpoint} {call : RecvCall} {round : AckRound}

/-- The messages in the buffer and the one in hand are known. -/
def Known (known : PendingFrame → Prop) (ep : Endpoint) : Prop :=
  (∀ i message, ep.pending.messages i = some message → known message) ∧
    ∀ message, ep.loc.inHand = some message → known message

/-- The message taken out of the buffer is known, and so are those left. -/
theorem takeMessageAny_known {pending rest : PendingFrames} {entry : PendingFrame}
    (htake : pending.takeMessageAny = some (entry, rest))
    (hpending : ∀ i message, pending.messages i = some message → known message) :
    known entry ∧ ∀ i message, rest.messages i = some message → known message := by
  obtain ⟨i, hentry, hmessages⟩ := PendingFrames.takeMessageAny_some htake
  refine ⟨hpending i entry hentry, ?_⟩
  intro j message hmessage
  rw [hmessages, SlotTable.set_apply] at hmessage
  split at hmessage
  · cases hmessage
  · exact hpending j message hmessage

theorem process_known (ep : Endpoint) (call : RecvCall) (source : SockAddr) (frame : Frame)
    (hpending : ∀ i message, ep.pending.messages i = some message → known message)
    (hmessage : known ⟨source, frame⟩) : Known known (ep.process call source frame).1 := by
  unfold Endpoint.process
  split
  · exact ⟨hpending, fun message hnone => by cases hnone⟩
  · refine ⟨hpending, ?_⟩
    intro message hhand
    cases hhand
    exact hmessage

theorem receiveFirst_known (ep : Endpoint) (call : RecvCall)
    (hpending : ∀ i message, ep.pending.messages i = some message → known message) :
    Known known (ep.receiveFirst call).1 := by
  unfold Endpoint.receiveFirst
  split
  · rename_i entry pending htake
    obtain ⟨hentry, hrest⟩ := takeMessageAny_known htake hpending
    exact process_known { ep with pending := pending } call entry.addr entry.frame hrest hentry
  · exact ⟨hpending, fun message hnone => by cases hnone⟩

theorem finishRound_known (ep : Endpoint) (call : RecvCall) (round : AckRound)
    (hpending : ∀ i message, ep.pending.messages i = some message → known message) :
    Known known (ep.finishRound call round).1 := by
  unfold Endpoint.finishRound
  split
  · exact ⟨hpending, fun message hnone => by cases hnone⟩
  · split
    · rename_i entry pending htake
      exact receiveFirst_known { ep with pending := pending } call
        (takeMessageAny_known htake hpending).2
    · exact ⟨hpending, fun message hnone => by cases hnone⟩

theorem ackSent_known (ep : Endpoint) (call : RecvCall) (round : AckRound)
    (hpending : ∀ i message, ep.pending.messages i = some message → known message)
    (hround : known round.message) : Known known (ep.ackSent call round).1 := by
  unfold Endpoint.ackSent
  split
  · rename_i pending htake
    apply finishRound_known { ep with pending := pending } call round
    intro i message hmessage
    rw [PendingFrames.takeFrame_messages (by simp) htake] at hmessage
    exact hpending i message hmessage
  · refine ⟨hpending, ?_⟩
    intro message hhand
    cases hhand
    exact hround

theorem recvTimeout_known (ep : Endpoint) (call : RecvCall) (round : AckRound)
    (hpending : ∀ i message, ep.pending.messages i = some message → known message)
    (hround : known round.message) : Known known (ep.recvTimeout call round).1 := by
  unfold Endpoint.recvTimeout
  simp only
  split
  · refine ⟨hpending, ?_⟩
    intro message hhand
    cases hhand
    exact hround
  · exact finishRound_known ep call _ hpending

/-- A datagram in `wait_for_frame` adds no other message than itself. -/
theorem waitArrival_messages {pending pending' : PendingFrames} {expectedAddr source : SockAddr}
    {expectedType : FrameType} {expectedSeq : UInt8} {datagram : Datagram} {ok found : Bool}
    {out : List RudpOutput}
    (h : Endpoint.waitArrival pending expectedAddr expectedType expectedSeq source datagram ok =
      (found, pending', out)) {i : Fin 256} {message : PendingFrame}
    (hmessage : pending'.messages i = some message) :
    pending.messages i = some message ∨
      (RudpAction.arrive source datagram ok).message = some message := by
  unfold Endpoint.waitArrival at h
  split at h
  · cases h
    exact .inl hmessage
  rename_i frame
  split at h
  · rename_i htype
    cases hstore : pending.storeFrame source frame with
    | none =>
        simp only [hstore] at h
        cases h
        exact .inl hmessage
    | some stored =>
        simp only [hstore] at h
        cases h
        obtain ⟨j, _, hset⟩ := PendingFrames.storeFrame_message htype hstore
        rw [hset, SlotTable.set_apply] at hmessage
        split at hmessage
        · exact .inr (by simpa [RudpAction.message, htype] using hmessage)
        · exact .inl hmessage
  · rename_i hcontrol
    split at h
    · cases h
      exact .inl hmessage
    · cases h
      rw [storeFrame_getD_messages hcontrol] at hmessage
      exact .inl hmessage

end Known

section Taken

variable {call : RecvCall} {taken : List PendingFrame} {failed : Bool} {out : List RudpOutput}

/-- What is returned is the message taken up with the expected bit, and without
a failure there is none of these that is not returned. -/
def Ended (call : RecvCall) (taken : List PendingFrame) (failed : Bool) (out : List RudpOutput) :
    Prop :=
  (∀ source payload, .received source payload ∈ out →
    failed = false ∧ ∃ message, taken = [message] ∧ message.addr = source ∧
      payload = call.copied message.frame) ∧
  (failed = true ∨ taken = [] ∨ ∃ message, taken = [message] ∧
    .received message.addr (call.copied message.frame) ∈ out)

/-- What the system call at hand says about the messages taken up. -/
def TakenStands (call : RecvCall) (taken : List PendingFrame) (failed : Bool) (ep : Endpoint)
    (out : List RudpOutput) : Prop :=
  match ep.loc with
  | .idle => Ended call taken failed out
  | .recvFirst current | .recvSecond current =>
      current = call ∧ failed = false ∧ taken = [] ∧ OnlyDatagrams out
  | .recvAck current round | .recvWait current round =>
      current = call ∧ failed = false ∧
        taken = (if round.isExpected then [round.message] else []) ∧ OnlyDatagrams out
  | _ => False

/-- A return without a message. -/
theorem ended_without (hout : OnlyDatagrams out) {value : RudpOutput}
    (hvalue : ∀ source payload, value ≠ .received source payload)
    (hnone : failed = true ∨ taken = []) : Ended call taken failed (out ++ [value]) := by
  constructor
  · intro source payload hreceived
    rcases List.mem_append.mp hreceived with hearlier | hlast
    · obtain ⟨dest, frame, heq⟩ := hout _ hearlier
      cases heq
    · exact absurd (List.mem_singleton.mp hlast).symm (hvalue source payload)
  · rcases hnone with hfailed | htaken
    · exact .inl hfailed
    · exact .inr (.inl htaken)

theorem process_taken (ep : Endpoint) (call : RecvCall) (source : SockAddr) (frame : Frame)
    (hout : OnlyDatagrams out) :
    TakenStands call (ep.process call source frame).1.loc.takenUp.toList false
      (ep.process call source frame).1 (out ++ (ep.process call source frame).2) := by
  unfold Endpoint.process
  cases hget : ep.peers.getPeer source true with
  | none => exact ended_without hout (by simp) (.inr rfl)
  | some got =>
      simp only [TakenStands, RudpLoc.takenUp, AckRound.message, List.append_nil]
      refine ⟨trivial, trivial, ?_, hout⟩
      cases decide (frame.seqBit = (got.2.stateAt got.1).expectedSeqBit) <;> rfl

theorem receiveFirst_taken (ep : Endpoint) (call : RecvCall) (hout : OnlyDatagrams out) :
    TakenStands call (ep.receiveFirst call).1.loc.takenUp.toList false (ep.receiveFirst call).1
      (out ++ (ep.receiveFirst call).2) := by
  unfold Endpoint.receiveFirst
  split
  · rename_i entry pending htake
    exact process_taken { ep with pending := pending } call entry.addr entry.frame hout
  · simp only [TakenStands, List.append_nil]
    exact ⟨trivial, trivial, rfl, hout⟩

theorem finishRound_taken (ep : Endpoint) (call : RecvCall) (round : AckRound)
    (hout : OnlyDatagrams out) :
    TakenStands call
      ((if round.isExpected then [round.message] else []) ++
        (ep.finishRound call round).1.loc.takenUp.toList) false
      (ep.finishRound call round).1 (out ++ (ep.finishRound call round).2) := by
  unfold Endpoint.finishRound
  cases hexpected : round.isExpected with
  | true =>
      simp only [if_true, TakenStands, RudpLoc.takenUp, Option.toList_none, List.append_nil]
      constructor
      · intro source payload hreceived
        rcases List.mem_append.mp hreceived with hearlier | hlast
        · obtain ⟨dest, frame, heq⟩ := hout _ hearlier
          cases heq
        · cases List.mem_singleton.mp hlast
          exact ⟨rfl, round.message, rfl, rfl, rfl⟩
      · exact .inr (.inr ⟨round.message, rfl,
          List.mem_append_right _ (List.mem_singleton.mpr rfl)⟩)
  | false =>
      simp only [Bool.false_eq_true, if_false, List.nil_append]
      split
      · rename_i entry pending htake
        exact receiveFirst_taken { ep with pending := pending } call hout
      · simp only [TakenStands, List.append_nil]
        exact ⟨trivial, trivial, rfl, hout⟩

theorem ackSent_taken (ep : Endpoint) (call : RecvCall) (round : AckRound)
    (hout : OnlyDatagrams out) :
    TakenStands call
      ((if round.isExpected then [round.message] else []) ++
        (ep.ackSent call round).1.loc.takenUp.toList) false
      (ep.ackSent call round).1 (out ++ (ep.ackSent call round).2) := by
  unfold Endpoint.ackSent
  cases htake : ep.pending.takeFrame round.source .ackAck round.frame.seqBit with
  | some pending => exact finishRound_taken { ep with pending := pending } call round hout
  | none =>
      simp only [TakenStands, RudpLoc.takenUp, Option.toList_none, List.append_nil]
      exact ⟨trivial, trivial, trivial, hout⟩

theorem recvTimeout_taken (ep : Endpoint) (call : RecvCall) (round : AckRound)
    (hout : OnlyDatagrams out) :
    TakenStands call
      ((if round.isExpected then [round.message] else []) ++
        (ep.recvTimeout call round).1.loc.takenUp.toList) false
      (ep.recvTimeout call round).1 (out ++ (ep.recvTimeout call round).2) := by
  unfold Endpoint.recvTimeout
  simp only
  by_cases hmore : round.attempts + 1 < maxTransmisionAttempts
  · simp only [hmore, if_true, TakenStands, RudpLoc.takenUp, List.append_nil]
    refine ⟨trivial, trivial, ?_, hout⟩
    simp [AckRound.message]
  · simp only [hmore, if_false]
    exact finishRound_taken ep call { round with attempts := round.attempts + 1 } hout

end Taken

section Steps

variable {before : Endpoint} {call : RecvCall} {run : Intake} {action : RudpAction}
  {result : Endpoint × List RudpOutput}

/-- A message that was in the buffer when the call began or that it has read. -/
def Source (before : Endpoint) (read : List PendingFrame) (message : PendingFrame) : Prop :=
  (∃ i, before.pending.messages i = some message) ∨ message ∈ read

theorem Source.append {read : List PendingFrame} {message : PendingFrame}
    (h : Source before read message) (more : List PendingFrame) :
    Source before (read ++ more) message := by
  rcases h with hold | hread
  · exact .inl hold
  · exact .inr (List.mem_append_left more hread)

theorem source_read (read : List PendingFrame) {message : PendingFrame}
    (h : action.message = some message) :
    Source before (read ++ action.message.toList) message := by
  rw [h]
  exact .inr (List.mem_append_right read (List.mem_singleton.mpr rfl))

/-- What holds at every system call of the call. -/
structure Kept (before : Endpoint) (call : RecvCall) (run : Intake) : Prop where
  bits : RecvStands before.peers (run.ep, run.out)
  known : Known (Source before run.read) run.ep
  taken : TakenStands call run.taken run.failed run.ep run.out
  genuine : ∀ message ∈ run.taken, Source before run.read message

/-- A message that the call has just taken up is in its hand. -/
theorem takenUp_inHand {loc : RudpLoc} {message : PendingFrame}
    (h : loc.takenUp = some message) : loc.inHand = some message := by
  cases loc with
  | recvAck current round =>
      simp only [RudpLoc.takenUp] at h
      split at h
      · exact h
      · cases h
  | _ => cases h

theorem Kept.of_stands (h : Kept before call run)
    (hbits : RecvStands before.peers (result.1, run.out ++ result.2))
    (hknown : Known (Source before (run.read ++ action.message.toList)) result.1)
    (htaken : TakenStands call (run.taken ++ result.1.loc.takenUp.toList)
      (run.failed || action.fails) result.1 (run.out ++ result.2)) :
    Kept before call (run.after action result) := by
  constructor
  · exact hbits
  · exact hknown
  · exact htaken
  · intro message hmessage
    rcases List.mem_append.mp hmessage with hearlier | hnow
    · exact (h.genuine message hearlier).append _
    · exact hknown.2 message (takenUp_inHand (Option.mem_toList.mp hnow))

/-- A return without a message. -/
theorem Kept.returns_nothing (h : Kept before call run) (hout : OnlyDatagrams run.out)
    {value : RudpOutput} (hvalue : ∀ source payload, value ≠ .received source payload)
    (hbits : RecvStands before.peers ({ run.ep with loc := .idle }, run.out ++ [value]))
    (hnone : action.fails = true ∨ run.taken = []) :
    Kept before call (run.after action ({ run.ep with loc := .idle }, [value])) := by
  apply h.of_stands hbits
  · constructor
    · intro i message hmessage
      exact (h.known.1 i message hmessage).append _
    · intro message hhand
      cases hhand
  · simp only [RudpLoc.takenUp, Option.toList_none, List.append_nil, TakenStands]
    apply ended_without hout hvalue
    rcases hnone with hfails | htaken
    · exact .inl (by simp [hfails])
    · exact .inr htaken

/-- A datagram after which the call waits as before: only the buffer changes,
and an acknowledgement may be sent. -/
theorem Kept.goes_on (h : Kept before call run) {source : SockAddr} {datagram : Datagram}
    {ok : Bool} {pending : PendingFrames} {sent : List RudpOutput}
    (hidle : run.ep.loc ≠ .idle) (hnone : run.ep.loc.takenUp = none) (hsent : OnlyDatagrams sent)
    (hbits : RecvStands before.peers ({ run.ep with pending := pending }, run.out ++ sent))
    (hpending : ∀ i message, pending.messages i = some message →
      Source before (run.read ++ (RudpAction.arrive source datagram ok).message.toList)
        message) :
    Kept before call
      (run.after (.arrive source datagram ok) ({ run.ep with pending := pending }, sent)) := by
  have htaken := h.taken
  apply h.of_stands hbits
  · refine ⟨hpending, ?_⟩
    intro message hhand
    exact (h.known.2 message hhand).append _
  · simp only [hnone, Option.toList_none, List.append_nil, RudpAction.fails, Bool.or_false]
    unfold TakenStands at htaken ⊢
    cases hloc : run.ep.loc with
    | idle => exact absurd hloc hidle
    | recvFirst current | recvSecond current | recvAck current round | recvWait current round =>
        simp only [hloc] at htaken ⊢
        exact ⟨htaken.1, htaken.2.1, htaken.2.2.1, htaken.2.2.2.append hsent⟩
    | _ => simp [hloc] at htaken

section Arrivals

variable {current : RecvCall} {source : SockAddr} {datagram : Datagram} {ok : Bool}

theorem Kept.pending_append (h : Kept before call run) (more : List PendingFrame) (i : Fin 256)
    (message : PendingFrame) (hmessage : run.ep.pending.messages i = some message) :
    Source before (run.read ++ more) message :=
  (h.known.1 i message hmessage).append more

theorem Kept.firstArrival (h : Kept before call run) (hat : run.ep.loc = .recvFirst current)
    (harrival : run.ep.arrival source datagram ok = some result)
    (hbits : RecvStands before.peers (result.1, run.out ++ result.2)) :
    Kept before call (run.after (.arrive source datagram ok) result) := by
  have htaken := h.taken
  simp only [TakenStands, hat] at htaken
  obtain ⟨rfl, hfailed, hnone, hout⟩ := htaken
  simp only [Endpoint.arrival, hat] at harrival
  rcases receiveArrival_cases run.ep.pending source datagram with
    ⟨frame, rfl, hmessage, harrived⟩ | ⟨pending, hmessages, harrived⟩
  · rw [harrived] at harrival
    cases harrival
    apply h.of_stands hbits
    · apply process_known { run.ep with loc := .recvFirst current } current source frame
        (h.pending_append _)
      exact source_read _ (by simp [RudpAction.message, hmessage])
    · rw [hfailed, hnone]
      exact process_taken { run.ep with loc := .recvFirst current } current source frame hout
  · rw [harrived, ← hat] at harrival
    cases harrival
    apply h.goes_on (by simp [hat]) (by rw [hat]; rfl) onlyDatagrams_nil hbits
    rw [hmessages]
    exact h.pending_append _

theorem Kept.secondArrival (h : Kept before call run) (hat : run.ep.loc = .recvSecond current)
    (harrival : run.ep.arrival source datagram ok = some result)
    (hbits : RecvStands before.peers (result.1, run.out ++ result.2)) :
    Kept before call (run.after (.arrive source datagram ok) result) := by
  have htaken := h.taken
  simp only [TakenStands, hat] at htaken
  obtain ⟨rfl, hfailed, hnone, hout⟩ := htaken
  simp only [Endpoint.arrival, hat] at harrival
  rcases receiveArrival_cases run.ep.pending source datagram with
    ⟨frame, rfl, hmessage, harrived⟩ | ⟨pending, hmessages, harrived⟩
  · rw [harrived] at harrival
    cases harrival
    apply h.of_stands hbits
    · exact receiveFirst_known { run.ep with loc := .recvSecond current } current
        (h.pending_append _)
    · rw [hfailed, hnone]
      exact receiveFirst_taken { run.ep with loc := .recvSecond current } current hout
  · rw [harrived, ← hat] at harrival
    cases harrival
    apply h.goes_on (by simp [hat]) (by rw [hat]; rfl) onlyDatagrams_nil hbits
    rw [hmessages]
    exact h.pending_append _

theorem Kept.waitArrival (h : Kept before call run) {round : AckRound}
    (hat : run.ep.loc = .recvWait current round)
    (harrival : run.ep.arrival source datagram ok = some result)
    (hbits : RecvStands before.peers (result.1, run.out ++ result.2)) :
    Kept before call (run.after (.arrive source datagram ok) result) := by
  have htaken := h.taken
  simp only [TakenStands, hat] at htaken
  obtain ⟨rfl, hfailed, hrounds, hout⟩ := htaken
  simp only [Endpoint.arrival, hat] at harrival
  cases hwait : Endpoint.waitArrival run.ep.pending round.source .ackAck round.frame.seqBit
      source datagram ok with
  | mk found rest =>
      obtain ⟨pending, waited⟩ := rest
      have hsent := waitArrival_onlyDatagrams hwait
      have hlater : ∀ i message, pending.messages i = some message →
          Source before (run.read ++ (RudpAction.arrive source datagram ok).message.toList)
            message := by
        intro i message hmessage
        rcases waitArrival_messages hwait hmessage with hold | hread
        · exact h.pending_append _ i message hold
        · exact source_read _ hread
      rw [hwait] at harrival
      cases found with
      | true =>
          cases harrival
          apply h.of_stands hbits
          · exact finishRound_known { run.ep with pending := pending } current round hlater
          · rw [hfailed, hrounds, ← List.append_assoc]
            exact finishRound_taken { run.ep with pending := pending } current round
              (hout.append hsent)
      | false =>
          simp only [Bool.false_eq_true, if_false, ← hat] at harrival
          cases harrival
          exact h.goes_on (by simp [hat]) (by rw [hat]; rfl) hsent hbits hlater

end Arrivals

theorem Kept.step (h : Kept before call run) (hloc : run.ep.loc ≠ .idle)
    (hacts : run.ep.Acts action result) : Kept before call (run.after action result) := by
  have hbits := recvStands_step h.bits hloc hacts
  have htaken := h.taken
  have hround : ∀ message, run.ep.loc.inHand = some message →
      Source before (run.read ++ action.message.toList) message := by
    intro message hhand
    exact (h.known.2 message hhand).append _
  cases hacts with
  | startSend hidle | startRecv hidle => exact absurd hidle hloc
  | ackSent current round hat =>
      simp only [TakenStands, hat] at htaken
      obtain ⟨rfl, hfailed, hrounds, hout⟩ := htaken
      have hmore := hout.append (onlyDatagrams_singleton round.source
        (ackFrame round.frame.seqBit))
      apply h.of_stands hbits
      · exact ackSent_known run.ep current round (h.pending_append _)
          (hround _ (by rw [hat]; rfl))
      · rw [hfailed, hrounds]
        have hstands := ackSent_taken run.ep current round hmore
        rwa [List.append_assoc] at hstands
  | ackFailed current round hat =>
      simp only [TakenStands, hat] at htaken
      exact h.returns_nothing htaken.2.2.2 (by simp) hbits (.inl rfl)
  | firstArrival current hat source datagram ok harrival => exact h.firstArrival hat harrival hbits
  | waitArrival current round hat source datagram ok harrival =>
      exact h.waitArrival hat harrival hbits
  | secondArrival current hat source datagram ok harrival =>
      exact h.secondArrival hat harrival hbits
  | recvTimeout current round hat =>
      simp only [TakenStands, hat] at htaken
      obtain ⟨rfl, hfailed, hrounds, hout⟩ := htaken
      apply h.of_stands hbits
      · exact recvTimeout_known run.ep current round (h.pending_append _)
          (hround _ (by rw [hat]; rfl))
      · rw [hfailed, hrounds]
        exact recvTimeout_taken run.ep current round hout
  | firstBlocked current hat | secondBlocked current hat =>
      simp only [TakenStands, hat] at htaken
      exact h.returns_nothing htaken.2.2.2 (by simp) hbits (.inr htaken.2.2.1)
  | firstFailed current hat | secondFailed current hat | recvWaitFailed current round hat =>
      simp only [TakenStands, hat] at htaken
      exact h.returns_nothing htaken.2.2.2 (by simp) hbits (.inl rfl)
  | frameSent _ hat | frameFailed _ hat | ackAckSent _ _ hat | ackAckFailed _ _ hat
  | sendArrival _ hat | sendTimeout _ hat | sendWaitFailed _ hat =>
      simp [TakenStands, hat] at htaken

theorem Kept.start (hidle : before.loc = .idle) (call : RecvCall) :
    Kept before call (start before call) := by
  have hpending : ∀ i message, before.pending.messages i = some message →
      Source before [] message := fun i message hmessage => .inl ⟨i, hmessage⟩
  have hknown : Known (Source before []) (before.startRecv call).1 := by
    unfold Endpoint.startRecv
    split
    · refine ⟨hpending, ?_⟩
      intro message hhand
      simp [hidle, RudpLoc.inHand] at hhand
    · exact receiveFirst_known before call hpending
  constructor
  · exact startRecv_recvStands before hidle call
  · exact hknown
  · change TakenStands call (before.startRecv call).1.loc.takenUp.toList false
      (before.startRecv call).1 (before.startRecv call).2
    unfold Endpoint.startRecv
    split
    · simp only [TakenStands, RudpLoc.takenUp, hidle]
      exact ended_without onlyDatagrams_nil (by simp) (.inr rfl)
    · exact receiveFirst_taken before call onlyDatagrams_nil
  · intro message hmessage
    exact hknown.2 message (takenUp_inHand (Option.mem_toList.mp hmessage))

theorem kept_of_reachable (hidle : before.loc = .idle)
    (h : Lts.Reachable step (start before call) run) : Kept before call run := by
  refine h.invariant (Kept before call) (Kept.start hidle call) ?_
  intro now action later hnow _ hstep
  unfold step at hstep
  split at hstep
  · cases hstep
  · rename_i hopen
    obtain ⟨result, hresult, rfl⟩ := Option.map_eq_some_iff.mp hstep
    exact hnow.step hopen (Endpoint.acts_of_step hresult)

end Steps

section Returned

variable {before : Endpoint} {call : RecvCall} {run : Intake}

theorem copied_of_long {frame : Frame} (hlong : call.len ≤ frame.data.length) :
    call.copied frame = frame.data.take call.len := by
  unfold RecvCall.copied
  rw [List.take_append_of_le_length hlong]

/-- A flipped bit is the one of the message returned. -/
theorem flipped_received (hflips : RecvFlips before.peers run.ep.peers run.out) (addr : SockAddr)
    (hchanged : (run.ep.peers.stateOf addr).expectedSeqBit ≠
      (before.peers.stateOf addr).expectedSeqBit) :
    ∃ payload, .received addr payload ∈ run.out := by
  rcases hflips with ⟨source, payload, hreturns, opened, i, hopens, hslot, hafter⟩ | ⟨_, hopens⟩
  · obtain ⟨front, hout, _⟩ := hreturns
    have hsame := hopens.stateOf addr
    rw [hafter, Peers.flipExpected_stateOf hslot, hsame] at hchanged
    by_cases haddr : addr = source
    · subst haddr
      exact ⟨payload, by simp [hout]⟩
    · rw [if_neg haddr] at hchanged
      exact absurd rfl hchanged
  · rw [hopens.stateOf addr] at hchanged
    exact absurd rfl hchanged

/-- A call of `rudp_recvfrom` that has returned treated no short message like a
whole one exactly when every message it took up with the expected bit was long
enough, or one of its system calls failed. -/
theorem none_truncated_iff (hidle : before.loc = .idle)
    (h : Lts.Reachable step (start before call) run) (hreturned : run.ep.loc = .idle) :
    NoneTruncated before call run ↔ LongOrFailed call run := by
  have hkept := kept_of_reachable hidle h
  have hflips := hkept.bits
  have hended := hkept.taken
  simp only [RecvStands, hreturned] at hflips
  simp only [TakenStands, hreturned] at hended
  obtain ⟨hreceived, hcase⟩ := hended
  constructor
  · intro hnone
    rcases hcase with hfailed | htaken | ⟨message, htaken, hout⟩
    · exact .inr hfailed
    · left
      rw [htaken]
      intro message hmessage
      cases hmessage
    · left
      obtain ⟨long, hlong, _, hlength, _⟩ := hnone.delivered _ _ hout
      rw [htaken] at hlong ⊢
      intro other hother
      rw [List.mem_singleton.mp hother, ← List.mem_singleton.mp hlong]
      exact hlength
  · intro hlong
    -- a message that is returned was taken up, and then no system call failed
    have hdelivered : ∀ source payload, .received source payload ∈ run.out →
        ∃ message ∈ run.taken, message.addr = source ∧
          call.len ≤ message.frame.data.length ∧
          payload = message.frame.data.take call.len := by
      intro source payload hout
      obtain ⟨hsucceeded, message, htaken, haddr, hpayload⟩ := hreceived source payload hout
      have hmem : message ∈ run.taken := by
        rw [htaken]
        exact List.mem_singleton.mpr rfl
      rcases hlong with hall | hfailed
      · have hlength := hall message hmem
        exact ⟨message, hmem, haddr, hlength, hpayload.trans (copied_of_long hlength)⟩
      · rw [hsucceeded] at hfailed
        cases hfailed
    constructor
    · exact hdelivered
    · intro addr hchanged
      obtain ⟨payload, hout⟩ := flipped_received hflips addr hchanged
      obtain ⟨message, hmem, haddr, hlength, _⟩ := hdelivered addr payload hout
      exact ⟨message, hmem, haddr, hlength⟩
    · exact hkept.genuine

end Returned

section Examples

/-- The acknowledging loop for the message of a sender without an answer. -/
def receiveUnanswered (data : Bytes) : List RudpAction :=
  .arrive senderOne (.frame ⟨.message, 0, data⟩) true ::
    [.sendto true, .timeout, .sendto true, .timeout, .sendto true, .timeout]

/-- A message of one byte for a caller that asks for one. -/
theorem whole_message_delivered :
    ∃ run, Lts.Reachable step (start Endpoint.start ⟨1, [9]⟩) run ∧
      run.out.getLast? = some (.received senderOne [7]) ∧
      (NoneTruncated Endpoint.start ⟨1, [9]⟩ run ↔ LongOrFailed ⟨1, [9]⟩ run) := by
  have hexec : (Lts.exec step (start Endpoint.start ⟨1, [9]⟩) (receiveUnanswered [7])).map
      (fun run => (run.ep.loc.isIdle, run.out.getLast?)) =
        some (true, some (.received senderOne [7])) := by
    decide +kernel
  obtain ⟨run, hrun, hfacts⟩ := Option.map_eq_some_iff.mp hexec
  simp only [Prod.mk.injEq] at hfacts
  have hreach : Lts.Reachable step (start Endpoint.start ⟨1, [9]⟩) run :=
    Lts.reachable_of_exec hrun
  exact ⟨run, hreach, hfacts.2, none_truncated_iff rfl hreach (RudpLoc.isIdle_iff.mp hfacts.1)⟩

/-- A message that is nothing but its header: the byte that the caller gets is
what the frame buffer held before. -/
theorem bare_header_delivered :
    ¬ ∀ (before : Endpoint) (call : RecvCall) (run : Intake), before.loc = .idle →
      Lts.Reachable step (start before call) run → run.ep.loc = .idle →
        NoneTruncated before call run := by
  intro hall
  have hexec : (Lts.exec step (start Endpoint.start ⟨1, [9]⟩) (receiveUnanswered [])).map
      (fun run => (run.ep.loc.isIdle, run.out.getLast?, run.taken)) =
        some (true, some (.received senderOne [9]), [⟨senderOne, ⟨.message, 0, []⟩⟩]) := by
    decide +kernel
  obtain ⟨run, hrun, hfacts⟩ := Option.map_eq_some_iff.mp hexec
  simp only [Prod.mk.injEq] at hfacts
  obtain ⟨hidle, hlast, htaken⟩ := hfacts
  have hnone := hall Endpoint.start ⟨1, [9]⟩ run rfl (Lts.reachable_of_exec hrun)
    (RudpLoc.isIdle_iff.mp hidle)
  obtain ⟨message, hmessage, _, hlength, _⟩ :=
    hnone.delivered _ _ (List.mem_of_getLast? hlast)
  rw [htaken] at hmessage
  rw [List.mem_singleton.mp hmessage] at hlength
  cases hlength

end Examples

end Intake

end TokenRing
