import TokenRing.Lib.Lts
import TokenRing.Lib.SlotOrder
import TokenRing.Rudp.Tables

/-!
The order in which stored messages leave the buffer of pending frames. Every
call that stores a frame gives its slot a stamp, the number of frames stored
before; the source has no such stamps. A first free slot below a waiting
message of the same address lets the newer message overtake.
-/

namespace TokenRing

/-- A call of a function of `rudp.c` on the pending buffer. -/
inductive PendingOp where
  | storeFrame (addr : SockAddr) (frame : Frame)
  | takeFrame (expectedAddr : SockAddr) (expectedType : FrameType) (expectedSeq : UInt8)
  | takeMessageAny
  | dropPeerFrames (addr : SockAddr) (frameType : FrameType)

/-- The buffer with the stamps of its slots, the frames stored so far and the
messages that `pending_take_message_any` returned, with their stamps. -/
structure Traced where
  pending : PendingFrames
  stamps : Fin 256 → Nat
  stored : List PendingFrame
  returned : List (Nat × PendingFrame)

namespace Traced

def empty : Traced := ⟨SlotTable.empty, fun _ => 0, [], []⟩

def apply (run : Traced) : PendingOp → Traced
  | .storeFrame addr frame =>
      match run.pending.storeSlot addr frame, run.pending.storeFrame addr frame with
      | some i, some pending =>
          { run with
            pending := pending
            stamps := Function.update run.stamps i run.stored.length
            stored := run.stored ++ [⟨addr, frame⟩] }
      | _, _ => run
  | .takeFrame expectedAddr expectedType expectedSeq =>
      { run with
        pending :=
          (run.pending.takeFrame expectedAddr expectedType expectedSeq).getD run.pending }
  | .takeMessageAny =>
      match run.pending.firstSlot (fun content => content.any PendingFrame.isMessage),
        run.pending.takeMessageAny with
      | some i, some (entry, pending) =>
          { run with
            pending := pending
            returned := run.returned ++ [(run.stamps i, entry)] }
      | _, _ => run
  | .dropPeerFrames addr frameType =>
      { run with pending := run.pending.dropPeerFrames addr frameType }

/-- Every call sequence is a run. -/
def step (run : Traced) (op : PendingOp) : Option Traced := some (run.apply op)

/-- Of two returned messages of one address the one stored earlier was returned
earlier, and each is the frame that was stored. -/
structure InOrder (run : Traced) : Prop where
  genuine : ∀ message ∈ run.returned, run.stored[message.1]? = some message.2
  sorted : run.returned.Pairwise (fun first second =>
    first.2.addr = second.2.addr → first.1 < second.1)

/-- A message that fits is stored only while no free slot lies below a slot
that holds a message of its address. -/
def NoneOvertaken (run : Traced) : PendingOp → Prop
  | .storeFrame addr frame => frame.len ≤ maxFrameSize → frame.frameType = .message →
      ∀ i j entry, run.pending i = none → run.pending.messages j = some entry →
        entry.addr = addr → j < i
  | _ => True

section Calls

variable {run : Traced} {addr : SockAddr} {frame : Frame}

/-- The stamped slots: what is waiting was stored under its stamp. -/
def Stamped (run : Traced) : Prop :=
  ∀ i entry, run.pending i = some entry → run.stored[run.stamps i]? = some entry

theorem Stamped.lt (h : run.Stamped) {i : Fin 256} {entry : PendingFrame}
    (hentry : run.pending i = some entry) : run.stamps i < run.stored.length :=
  (List.getElem?_eq_some_iff.mp (h i entry hentry)).1

theorem apply_storeFrame_cases (run : Traced) (addr : SockAddr) (frame : Frame) :
    run.apply (.storeFrame addr frame) = run ∨
      ∃ i, run.pending.storeSlot addr frame = some i ∧ frame.len ≤ maxFrameSize ∧
        run.apply (.storeFrame addr frame) =
          { run with
            pending := run.pending.set i (some ⟨addr, frame⟩)
            stamps := Function.update run.stamps i run.stored.length
            stored := run.stored ++ [⟨addr, frame⟩] } := by
  cases hstore : run.pending.storeFrame addr frame with
  | none => simp [apply, hstore]
  | some pending =>
      have hfits : frame.len ≤ maxFrameSize := by
        by_contra hlong
        rw [PendingFrames.storeFrame, if_pos (not_le.mp hlong)] at hstore
        cases hstore
      obtain ⟨i, hslot, rfl⟩ := PendingFrames.storeFrame_some hstore
      exact .inr ⟨i, hslot, hfits, by simp [apply, hstore, hslot]⟩

/-- The slot of the message that is taken is the first one with a message. -/
theorem apply_takeMessageAny_cases (run : Traced) :
    run.apply .takeMessageAny = run ∨
      ∃ i entry, run.pending i = some entry ∧
        run.pending.messages.firstSlot Option.isSome = some i ∧
        run.pending.messages i = some entry ∧
        run.apply .takeMessageAny =
          { run with
            pending := run.pending.set i none
            returned := run.returned ++ [(run.stamps i, entry)] } := by
  cases hfirst : run.pending.firstSlot (fun content => content.any PendingFrame.isMessage) with
  | none => simp [apply, hfirst]
  | some i =>
      obtain ⟨entry, hentry, hmessage⟩ :=
        (Option.any_eq_true _ _).mp (SlotTable.firstSlot_spec hfirst)
      have htake : run.pending.takeMessageAny = some (entry, run.pending.set i none) := by
        simp [PendingFrames.takeMessageAny, hfirst, hentry]
      refine .inr ⟨i, entry, hentry, ?_, ?_, by simp [apply, hfirst, htake]⟩
      · rw [PendingFrames.messages_firstSlot, hfirst]
      · simp [PendingFrames.messages, hentry, PendingFrames.filter_message hmessage]

/-- The slot of a stored frame held no message. -/
theorem messages_storeSlot {pending : PendingFrames} {i : Fin 256}
    (hslot : pending.storeSlot addr frame = some i) : pending.messages i = none := by
  rcases PendingFrames.storeSlot_some hslot with hfree | ⟨hcontrol, old, hold, _, htype, _⟩
  · simp [PendingFrames.messages, hfree]
  · have hother : old.frame.frameType ≠ .message := htype ▸ hcontrol
    rw [PendingFrames.messages, hold, PendingFrames.filter_control hother]

theorem pending_storeSlot_message {pending : PendingFrames} {i : Fin 256}
    (hmessage : frame.frameType = .message)
    (hslot : pending.storeSlot addr frame = some i) :
    pending.firstSlot Option.isNone = some i := by
  simpa [PendingFrames.storeSlot, hmessage] using hslot

end Calls

/-- What holds while no message is overtaken. -/
structure Settled (run : Traced) : Prop where
  stamped : run.Stamped
  ordered : SlotTable.Ordered PendingFrame.addr run.stamps run.pending.messages
  past : ∀ message ∈ run.returned, ∀ i entry, run.pending.messages i = some entry →
    message.2.addr = entry.addr → message.1 < run.stamps i
  inOrder : run.InOrder

section Steps

variable {run : Traced} {addr : SockAddr} {frame : Frame}

theorem settled_empty : empty.Settled := by
  constructor
  · intro i entry hentry
    cases hentry
  · intro i j a b ha
    cases ha
  · intro message hmessage
    cases hmessage
  · exact ⟨fun message hmessage => (by cases hmessage), .nil⟩

/-- Frames that leave the buffer without being returned. -/
theorem Settled.freed (h : run.Settled) {pending : PendingFrames}
    (hwithin : SlotTable.Within pending run.pending) :
    Settled { run with pending := pending } := by
  have hmessages : SlotTable.Within pending.messages run.pending.messages := by
    intro i entry hentry
    obtain ⟨hslot, hmessage⟩ := PendingFrames.messages_eq_some.mp hentry
    exact PendingFrames.messages_eq_some.mpr ⟨hwithin i entry hslot, hmessage⟩
  constructor
  · intro i entry hentry
    exact h.stamped i entry (hwithin i entry hentry)
  · exact h.ordered.within hmessages
  · intro message hmessage i entry hentry haddr
    exact h.past message hmessage i entry (hmessages i entry hentry) haddr
  · exact ⟨h.inOrder.genuine, h.inOrder.sorted⟩

/-- A stored message keeps the order exactly when no free slot lies below the
messages of its address. -/
theorem ordered_store_iff (h : run.Settled) {i : Fin 256} (hfits : frame.len ≤ maxFrameSize)
    (hmessage : frame.frameType = .message)
    (hslot : run.pending.storeSlot addr frame = some i) :
    SlotTable.Ordered PendingFrame.addr (Function.update run.stamps i run.stored.length)
        (PendingFrames.messages (run.pending.set i (some ⟨addr, frame⟩))) ↔
      run.NoneOvertaken (.storeFrame addr frame) := by
  have hfirst := pending_storeSlot_message hmessage hslot
  have hset : PendingFrames.messages (run.pending.set i (some ⟨addr, frame⟩)) =
      SlotTable.set run.pending.messages i (some ⟨addr, frame⟩) := by
    rw [PendingFrames.messages_set, PendingFrames.filter_message]
    simp [PendingFrame.isMessage, hmessage]
  have hnewest : ∀ j entry, run.pending.messages j = some entry →
      run.stamps j < run.stored.length := by
    intro j entry hentry
    exact h.stamped.lt (PendingFrames.messages_eq_some.mp hentry).1
  rw [hset, SlotTable.ordered_fill_iff h.ordered (messages_storeSlot hslot) hnewest]
  constructor
  · intro habove _ _ k j entry hfree hentry haddr
    have hji : j < i := habove j entry hentry haddr
    have hik : ¬ k < i := by
      intro hki
      have hused := ((run.pending.firstSlot_eq_some_iff _ _).mp hfirst).2 k hki
      simp [hfree] at hused
    exact lt_of_lt_of_le hji (not_lt.mp hik)
  · intro hnone j entry hentry haddr
    have hfree : run.pending i = none := by simpa using SlotTable.firstSlot_spec hfirst
    exact hnone hfits hmessage i j entry hfree hentry haddr

theorem Settled.stored (h : run.Settled) {i : Fin 256}
    (hslot : run.pending.storeSlot addr frame = some i) (hfits : frame.len ≤ maxFrameSize)
    (hnone : run.NoneOvertaken (.storeFrame addr frame)) :
    Settled
      { run with
        pending := run.pending.set i (some ⟨addr, frame⟩)
        stamps := Function.update run.stamps i run.stored.length
        stored := run.stored ++ [⟨addr, frame⟩] } := by
  have hkept : ∀ {k : Nat} {entry : PendingFrame}, run.stored[k]? = some entry →
      (run.stored ++ [⟨addr, frame⟩])[k]? = some entry := by
    intro k entry hk
    rw [List.getElem?_append_left (List.getElem?_eq_some_iff.mp hk).1, hk]
  have hfree := messages_storeSlot hslot
  constructor
  · intro j entry hentry
    change SlotTable.set run.pending i (some ⟨addr, frame⟩) j = some entry at hentry
    by_cases hj : j = i
    · subst hj
      rw [SlotTable.set_self] at hentry
      cases hentry
      simp
    · rw [SlotTable.set_of_ne _ _ hj] at hentry
      simp only [Function.update_of_ne hj]
      exact hkept (h.stamped j entry hentry)
  · by_cases hmessage : frame.frameType = .message
    · exact (ordered_store_iff h hfits hmessage hslot).mpr hnone
    · simp only
      rw [PendingFrames.messages_set_control hfree (PendingFrames.filter_control hmessage)]
      exact h.ordered.restamp hfree _
  · intro message hreturned j entry hentry haddr
    simp only at hreturned hentry ⊢
    by_cases hj : j = i
    · subst hj
      rw [Function.update_self]
      have hstored := h.inOrder.genuine message hreturned
      exact (List.getElem?_eq_some_iff.mp hstored).1
    · rw [Function.update_of_ne hj]
      rw [PendingFrames.messages_set, SlotTable.set_of_ne _ _ hj] at hentry
      exact h.past message hreturned j entry hentry haddr
  · exact ⟨fun message hreturned => hkept (h.inOrder.genuine message hreturned),
      h.inOrder.sorted⟩

theorem Settled.taken (h : run.Settled) {i : Fin 256} {entry : PendingFrame}
    (hentry : run.pending i = some entry)
    (hfirst : run.pending.messages.firstSlot Option.isSome = some i)
    (hmessage : run.pending.messages i = some entry) :
    Settled
      { run with
        pending := run.pending.set i none
        returned := run.returned ++ [(run.stamps i, entry)] } := by
  have hfreed : Settled { run with pending := run.pending.set i none } :=
    h.freed (SlotTable.within_set_none run.pending i)
  constructor
  · exact hfreed.stamped
  · exact hfreed.ordered
  · intro message hreturned j waiting hwaiting haddr
    rcases List.mem_append.mp hreturned with hold | hnew
    · exact hfreed.past message hold j waiting hwaiting haddr
    · rw [List.mem_singleton.mp hnew] at haddr ⊢
      simp only [PendingFrames.messages_set] at hwaiting
      have hj : j ≠ i := by
        rintro rfl
        simp at hwaiting
      rw [SlotTable.set_of_ne _ _ hj] at hwaiting
      exact h.ordered.first hfirst hmessage hwaiting haddr hj
  · constructor
    · intro message hreturned
      rcases List.mem_append.mp hreturned with hold | hnew
      · exact h.inOrder.genuine message hold
      · rw [List.mem_singleton.mp hnew]
        exact h.stamped i entry hentry
    · apply List.pairwise_append.mpr
      refine ⟨h.inOrder.sorted, List.pairwise_singleton _ _, ?_⟩
      intro first hreturned second hnew haddr
      rw [List.mem_singleton.mp hnew] at haddr ⊢
      exact h.past first hreturned i entry hmessage haddr

/-- One call, while no message is overtaken. -/
theorem Settled.apply (h : run.Settled) (op : PendingOp) (hnone : run.NoneOvertaken op) :
    (run.apply op).Settled := by
  cases op with
  | storeFrame addr frame =>
      rcases apply_storeFrame_cases run addr frame with hsame | ⟨i, hslot, hfits, hstored⟩
      · rwa [hsame]
      · rw [hstored]
        exact h.stored hslot hfits hnone
  | takeFrame expectedAddr expectedType expectedSeq =>
      apply h.freed
      cases htake : run.pending.takeFrame expectedAddr expectedType expectedSeq with
      | none => exact SlotTable.Within.refl _
      | some pending =>
          obtain ⟨i, _, _, _, _, _, rfl⟩ := PendingFrames.takeFrame_some htake
          exact SlotTable.within_set_none run.pending i
  | takeMessageAny =>
      rcases apply_takeMessageAny_cases run with
        hsame | ⟨i, entry, hentry, hfirst, hmessage, htaken⟩
      · rwa [hsame]
      · rw [htaken]
        exact h.taken hentry hfirst hmessage
  | dropPeerFrames addr frameType =>
      apply h.freed
      intro i entry hentry
      exact (PendingFrames.dropPeerFrames_entry hentry).1

end Steps

/-- In every sequence of calls in which no stored message overtakes another one
of its address, messages of one address are returned in the order in which they
were stored. -/
theorem messages_returned_in_order {run : Traced}
    (h : Lts.Reaches step NoneOvertaken empty run) : run.InOrder := by
  have hsettled : run.Settled := by
    refine h.invariant Settled settled_empty ?_
    intro run op after hrun hnone hstep
    cases hstep
    exact hrun.apply op hnone
  exact hsettled.inOrder

section Overtaking

def peerAddr : SockAddr := ⟨2, 5001, 1⟩

/-- An acknowledgement is stored below the first message and leaves; the second
message takes its slot. -/
def overtakingOps : List PendingOp :=
  [.storeFrame peerAddr ⟨.ack, 0, []⟩, .storeFrame peerAddr ⟨.message, 0, [1]⟩,
    .takeFrame peerAddr .ack 0, .storeFrame peerAddr ⟨.message, 1, [2]⟩, .takeMessageAny,
    .takeMessageAny]

theorem second_message_overtakes :
    ¬ ∀ ops : List PendingOp, (ops.foldl apply empty).InOrder := by
  intro hall
  have hreturned : (overtakingOps.foldl apply empty).returned =
      [(2, ⟨peerAddr, ⟨.message, 1, [2]⟩⟩), (1, ⟨peerAddr, ⟨.message, 0, [1]⟩⟩)] := by
    decide +kernel
  have hsorted := (hall overtakingOps).sorted
  rw [hreturned] at hsorted
  have hless := (List.pairwise_cons.mp hsorted).1 _ (List.mem_singleton_self _) rfl
  omega

/-- Whether a call meets the condition. -/
def noneOvertakenB (run : Traced) : PendingOp → Bool
  | .storeFrame addr _ =>
      match run.pending.firstSlot Option.isNone with
      | none => true
      | some i => (List.finRange 256).all (fun j =>
          match run.pending.messages j with
          | none => true
          | some entry => entry.addr ≠ addr || j < i)
  | _ => true

theorem noneOvertakenB_sound (run : Traced) (op : PendingOp)
    (h : run.noneOvertakenB op = true) : run.NoneOvertaken op := by
  cases op with
  | storeFrame addr frame =>
      intro _ _ i j entry hfree hentry haddr
      simp only [noneOvertakenB] at h
      split at h
      · rename_i hfull
        have hused := (SlotTable.firstSlot_eq_none_iff _ _).mp hfull i
        simp [hfree] at hused
      · rename_i k hfirst
        have hj := List.all_eq_true.mp h j (List.mem_finRange j)
        simp only [hentry, haddr] at hj
        have hjk : j < k := by simpa using hj
        have hki : ¬ i < k := by
          intro hik
          have hused := ((run.pending.firstSlot_eq_some_iff _ _).mp hfirst).2 i hik
          simp [hfree] at hused
        exact lt_of_lt_of_le hjk (not_lt.mp hki)
  | takeFrame | takeMessageAny | dropPeerFrames => trivial

/-- Two messages that are stored and taken one after the other. -/
theorem two_messages_in_order :
    ∃ run, Lts.Reaches step NoneOvertaken empty run ∧
      run.returned.map Prod.fst = [1, 2] ∧ run.InOrder := by
  have hexec : (Lts.exec (Lts.restrict noneOvertakenB step) empty
      [.storeFrame peerAddr ⟨.ack, 0, []⟩, .storeFrame peerAddr ⟨.message, 0, [1]⟩,
        .storeFrame peerAddr ⟨.message, 1, [2]⟩, .takeMessageAny, .takeMessageAny]).map
      (fun run => run.returned.map Prod.fst) = some [1, 2] := by
    decide +kernel
  obtain ⟨run, hrun, hreturned⟩ := Option.map_eq_some_iff.mp hexec
  have hreach : Lts.Reaches step NoneOvertaken empty run :=
    Lts.reaches_of_exec_restrict noneOvertakenB_sound hrun
  exact ⟨run, hreach, hreturned, messages_returned_in_order hreach⟩

end Overtaking

end Traced

end TokenRing
