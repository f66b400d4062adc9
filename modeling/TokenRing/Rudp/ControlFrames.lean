import Mathlib.Data.Finset.Prod
import TokenRing.Lib.SlotKeys
import TokenRing.Rudp.PendingOrder

/-!
Control frames in the buffer of pending frames. A control frame replaces an
older one of its address, type and bit, so that one such frame is stored at
most once, and a bounded number of peers leaves room for messages.
-/

namespace TokenRing

/-- What `pending_store_frame` compares; a message is compared with nothing. -/
def PendingFrame.controlKey (entry : PendingFrame) : Option (SockAddr × FrameType × UInt8) :=
  if entry.isMessage then none else some (entry.addr, entry.frame.frameType, entry.frame.seqBit)

namespace PendingFrames

variable {pending pending' : PendingFrames} {i : Fin 256} {entry : PendingFrame}
  {addr : SockAddr} {frame : Frame} {frameType : FrameType} {seqBit : UInt8}

theorem controlKey_control (h : entry.frame.frameType ≠ .message) :
    entry.controlKey = some (entry.addr, entry.frame.frameType, entry.frame.seqBit) := by
  simp [PendingFrame.controlKey, PendingFrame.isMessage, h]

theorem controlKey_message (h : entry.frame.frameType = .message) : entry.controlKey = none := by
  simp [PendingFrame.controlKey, PendingFrame.isMessage, h]

theorem controlKey_eq_some {key : SockAddr × FrameType × UInt8}
    (h : entry.controlKey = some key) : entry.frame.frameType ≠ .message ∧
      (entry.addr, entry.frame.frameType, entry.frame.seqBit) = key := by
  have hcontrol : entry.frame.frameType ≠ .message := by
    intro hmessage
    rw [controlKey_message hmessage] at h
    cases h
  rw [controlKey_control hcontrol] at h
  exact ⟨hcontrol, Option.some.inj h⟩

/-- No two slots hold control frames of one address, type and bit. -/
def NoTwins (pending : PendingFrames) : Prop :=
  pending.KeysDistinct PendingFrame.controlKey

/-- The slots with control frames. -/
def controls (pending : PendingFrames) : Finset (Fin 256) :=
  pending.keyed PendingFrame.controlKey

section Calls

/-- The slot of a stored control frame is the only one that may hold its
key. -/
theorem NoTwins.set_storeSlot (h : pending.NoTwins)
    (hslot : pending.storeSlot addr frame = some i) :
    NoTwins (pending.set i (some ⟨addr, frame⟩)) := by
  unfold storeSlot at hslot
  by_cases hmessage : frame.frameType = .message
  · apply SlotTable.KeysDistinct.set_some h
    intro j other key _ _ hkey
    rw [controlKey_message hmessage] at hkey
    cases hkey
  · simp only [hmessage, if_false] at hslot
    split at hslot
    · rename_i j hsame
      cases hslot
      obtain ⟨entry, hentry, hmatch⟩ :=
        (Option.any_eq_true _ _).mp (SlotTable.firstSlot_spec hsame)
      simp only [Bool.and_eq_true, decide_eq_true_eq] at hmatch
      obtain ⟨⟨haddr, htype⟩, hbit⟩ := hmatch
      apply SlotTable.KeysDistinct.replace h hentry
      have hcontrol : entry.frame.frameType ≠ .message := htype ▸ hmessage
      rw [controlKey_control hcontrol, controlKey_control hmessage, haddr, htype, hbit]
    · rename_i hnone
      apply SlotTable.KeysDistinct.set_some h
      intro j other key _ hother hkey hsame
      obtain ⟨_, hsame⟩ := controlKey_eq_some hsame
      obtain ⟨_, rfl⟩ := controlKey_eq_some hkey
      have hdiffers := (SlotTable.firstSlot_eq_none_iff _ _).mp hnone j
      simp only [Prod.mk.injEq] at hsame
      simp [hother, hsame] at hdiffers

theorem NoTwins.takeFrame (h : pending.NoTwins)
    (htake : pending.takeFrame addr frameType seqBit = some pending') : pending'.NoTwins := by
  obtain ⟨i, _, _, _, _, _, rfl⟩ := takeFrame_some htake
  exact SlotTable.KeysDistinct.within h (SlotTable.within_set_none pending i)

theorem NoTwins.takeFrame_leaves (h : pending.NoTwins)
    (htake : pending.takeFrame addr frameType seqBit = some pending')
    (hentry : pending' i = some entry) (hcontrol : frameType ≠ .message) :
    ¬ (entry.addr = addr ∧ entry.frame.frameType = frameType ∧ entry.frame.seqBit = seqBit) := by
  obtain ⟨j, taken, htaken, rfl, rfl, rfl, rfl⟩ := takeFrame_some htake
  rintro ⟨haddr, htype, hbit⟩
  have hkey := SlotTable.KeysDistinct.gone h htaken (controlKey_control hcontrol) hentry
  apply hkey
  rw [controlKey_control (htype ▸ hcontrol), haddr, htype, hbit]

end Calls

/-- What `pending_drop_peer_frames` leaves. -/
theorem dropPeerFrames_within (addr : SockAddr) (frameType : FrameType) :
    SlotTable.Within (pending.dropPeerFrames addr frameType) pending := by
  intro i entry hentry
  exact (dropPeerFrames_entry hentry).1

/-- Two enumerators and two bits for each address. -/
theorem NoTwins.card_controls_le (h : pending.NoTwins) (addrs : Finset SockAddr)
    (hstored : ∀ i entry, pending i = some entry → entry.frame.frameType ≠ .message →
      entry.addr ∈ addrs ∧
        (entry.frame.frameType = .ack ∨ entry.frame.frameType = .ackAck) ∧
        (entry.frame.seqBit = 0 ∨ entry.frame.seqBit = 1)) :
    pending.controls.card ≤ addrs.card * 4 := by
  have hbound := SlotTable.KeysDistinct.card_keyed_le h
    (addrs ×ˢ ({.ack, .ackAck} : Finset FrameType) ×ˢ ({0, 1} : Finset UInt8)) (by
      intro i entry key hentry hkey
      obtain ⟨hcontrol, rfl⟩ := controlKey_eq_some hkey
      simpa [Finset.mem_product] using hstored i entry hentry hcontrol)
  simpa [controls, Finset.card_product] using hbound

end PendingFrames

namespace Traced

open PendingFrames

theorem apply_noTwins (run : Traced) (op : PendingOp) (h : run.pending.NoTwins) :
    (run.apply op).pending.NoTwins := by
  cases op with
  | storeFrame addr frame =>
      rcases apply_storeFrame_cases run addr frame with hsame | ⟨i, hslot, _, hstored⟩
      · rwa [hsame]
      · rw [hstored]
        exact h.set_storeSlot hslot
  | takeFrame expectedAddr expectedType expectedSeq =>
      cases htake : run.pending.takeFrame expectedAddr expectedType expectedSeq with
      | none => simpa [apply, htake] using h
      | some pending => simpa [apply, htake] using h.takeFrame htake
  | takeMessageAny =>
      rcases apply_takeMessageAny_cases run with hsame | ⟨i, _, _, _, _, htaken⟩
      · rwa [hsame]
      · rw [htaken]
        exact SlotTable.KeysDistinct.within h (SlotTable.within_set_none run.pending i)
  | dropPeerFrames addr frameType =>
      exact SlotTable.KeysDistinct.within h (dropPeerFrames_within addr frameType)

theorem noTwins_after (ops : List PendingOp) (run : Traced) (h : run.pending.NoTwins) :
    (ops.foldl apply run).pending.NoTwins := by
  induction ops generalizing run with
  | nil => exact h
  | cons op rest ih => exact ih (run.apply op) (apply_noTwins run op h)

/-- The buffer after a sequence of calls. -/
def pendingAfter (ops : List PendingOp) : PendingFrames := (ops.foldl apply empty).pending

theorem pendingAfter_noTwins (ops : List PendingOp) : (pendingAfter ops).NoTwins :=
  noTwins_after ops empty SlotTable.keysDistinct_empty

/-- What is stored of control frames after any sequence of calls, and what a
request for one or the dropping of a peer's frames then leaves. -/
theorem control_frames_do_not_pile_up (ops : List PendingOp) :
    (pendingAfter ops).NoTwins ∧
      (∀ addr frameType seqBit pending', frameType ≠ .message →
        (pendingAfter ops).takeFrame addr frameType seqBit = some pending' →
        ∀ i entry, pending' i = some entry → ¬ (entry.addr = addr ∧
          entry.frame.frameType = frameType ∧ entry.frame.seqBit = seqBit)) ∧
      (∀ addr frameType i entry,
        (pendingAfter ops).dropPeerFrames addr frameType i = some entry →
        ¬ (entry.addr = addr ∧ entry.frame.frameType = frameType)) ∧
      ∀ addrs : Finset SockAddr, addrs.card ≤ 32 →
        (∀ i entry, pendingAfter ops i = some entry → entry.frame.frameType ≠ .message →
          entry.addr ∈ addrs ∧
            (entry.frame.frameType = .ack ∨ entry.frame.frameType = .ackAck) ∧
            (entry.frame.seqBit = 0 ∨ entry.frame.seqBit = 1)) →
        (pendingAfter ops).controls.card ≤ 128 := by
  have hdistinct := pendingAfter_noTwins ops
  constructor
  · exact hdistinct
  constructor
  · intro addr frameType seqBit pending' hcontrol htake i entry hentry
    exact hdistinct.takeFrame_leaves htake hentry hcontrol
  constructor
  · intro addr frameType i entry hentry
    exact (dropPeerFrames_entry hentry).2
  · intro addrs hfew hstored
    have hbound := hdistinct.card_controls_le addrs hstored
    omega

/-- Messages are not compared when they are stored: of two equal ones a request
for a message takes the first and leaves the second. -/
theorem equal_messages_both_stored :
    ¬ ∀ (ops : List PendingOp) (addr : SockAddr) (frameType : FrameType) (seqBit : UInt8)
      (pending' : PendingFrames),
      (pendingAfter ops).takeFrame addr frameType seqBit = some pending' →
      ∀ i entry, pending' i = some entry → ¬ (entry.addr = addr ∧
        entry.frame.frameType = frameType ∧ entry.frame.seqBit = seqBit) := by
  intro hall
  have htaken : ((pendingAfter [.storeFrame peerAddr ⟨.message, 0, [1]⟩,
      .storeFrame peerAddr ⟨.message, 0, [1]⟩]).takeFrame peerAddr .message 0).bind
      (fun pending => pending 1) = some ⟨peerAddr, ⟨.message, 0, [1]⟩⟩ := by
    decide +kernel
  obtain ⟨pending, htake, hentry⟩ := Option.bind_eq_some_iff.mp htaken
  exact hall _ _ _ _ _ htake 1 _ hentry ⟨rfl, rfl, rfl⟩

end Traced

end TokenRing
