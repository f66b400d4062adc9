import TokenRing.Lib.Lts
import TokenRing.Lib.SlotMap
import TokenRing.Rudp.Machine

/-!
The peer table as a map. Its users call `get_peer` and write bits through the
pointers they were given, and they see what a map from addresses to bits with
room for 32 addresses would show them.
-/

namespace TokenRing

/-- What the table of peers stands for: the bits of the known addresses. -/
abbrev PeerMap := BoundedMap 32 SockAddr RudpState

/-- A call of `get_peer`, or a write to the bits through the pointer that an
earlier call returned. The calls are numbered from 0. -/
inductive PeerOp where
  | get (addr : SockAddr) (create : Bool)
  | update (call : Nat) (change : RudpState → RudpState)

/-- The table, and the pointer or `NULL` that each call so far returned. -/
structure PeerUse where
  peers : Peers
  returned : List (Option (Fin 32))

/-- The map, and for each call so far the address whose entry it returned. -/
structure PeerSpec where
  known : PeerMap
  returned : List (Option SockAddr)

namespace Peers

/-- A write to `peer->state` through a pointer that `get_peer` returned. -/
def update (peers : Peers) (i : Fin 32) (change : RudpState → RudpState) : Peers :=
  peers.set i ((peers i).map fun peer => { peer with state := change peer.state })

theorem flipSend_eq (peers : Peers) (i : Fin 32) : peers.flipSend i =
    peers.update i (fun state => { state with sendSeqBit := state.sendSeqBit ^^^ 1 }) := rfl

theorem flipExpected_eq (peers : Peers) (i : Fin 32) : peers.flipExpected i =
    peers.update i (fun state =>
      { state with expectedSeqBit := state.expectedSeqBit ^^^ 1 }) := rfl

/-- No address has two entries, and the entries are those of the map. -/
abbrev Represents (peers : Peers) (known : PeerMap) : Prop :=
  SlotTable.Represents RudpPeer.addr RudpPeer.state peers known

end Peers

/-- One operation on the table. A call shows the bits of the entry it returns,
or `none` for `NULL`; there is no write through `NULL`. -/
def PeerUse.step (use : PeerUse) : PeerOp → Option (PeerUse × List (Option RudpState))
  | .get addr create =>
      match use.peers.getPeer addr create with
      | some (i, peers) =>
          some (⟨peers, use.returned ++ [some i]⟩, [some (peers.stateAt i)])
      | none => some ({ use with returned := use.returned ++ [none] }, [none])
  | .update call change =>
      match use.returned[call]? with
      | some (some i) => some ({ use with peers := use.peers.update i change }, [])
      | _ => none

/-- The same operation on the map. An unknown address is added with both bits 0
if the caller asks for it and fewer than 32 are known. -/
def PeerSpec.step (spec : PeerSpec) : PeerOp → Option (PeerSpec × List (Option RudpState))
  | .get addr create =>
      match spec.known.find addr with
      | some state => some ({ spec with returned := spec.returned ++ [some addr] }, [some state])
      | none =>
          match (if create then spec.known.add addr ⟨0, 0⟩ else none) with
          | some known => some (⟨known, spec.returned ++ [some addr]⟩, [some ⟨0, 0⟩])
          | none => some ({ spec with returned := spec.returned ++ [none] }, [none])
  | .update call change =>
      match spec.returned[call]? with
      | some (some addr) => some ({ spec with known := spec.known.modify addr change }, [])
      | _ => none

def PeerUse.start : PeerUse := ⟨SlotTable.empty, []⟩

def PeerSpec.start : PeerSpec := ⟨BoundedMap.empty, []⟩

/-- The address that an operation is about. -/
def PeerSpec.subject (spec : PeerSpec) : PeerOp → Option SockAddr
  | .get addr _ => some addr
  | .update call _ => (spec.returned[call]?).join

/-- A pointer to the entry of the address, or `NULL`. -/
def Peers.PointsTo (peers : Peers) : Option (Fin 32) → Option SockAddr → Prop :=
  Option.Rel (fun i addr => ∃ state, peers i = some ⟨addr, state⟩)

/-- The table stands for the map, and each pointer still points to the entry
of the address it was returned for. -/
structure PeerUse.Refines (use : PeerUse) (spec : PeerSpec) : Prop where
  known : use.peers.Represents spec.known
  returned : List.Forall₂ use.peers.PointsTo use.returned spec.returned

namespace Peers

variable {peers peers' : Peers} {known : PeerMap} {addr : SockAddr} {i : Fin 32}
  {state : RudpState}

/-- `get_peer` finds the entry of a known address. -/
theorem Represents.getPeer_known (h : peers.Represents known) (create : Bool)
    (hfind : known.find addr = some state) :
    ∃ i, peers.getPeer addr create = some (i, peers) ∧ peers i = some ⟨addr, state⟩ := by
  obtain ⟨i, peer, hslot, rfl, rfl⟩ := (h.find addr state).mp hfind
  have hfirst : peers.slotOf peer.addr = some i := h.firstSlot_key hslot rfl
  refine ⟨i, ?_, hslot⟩
  unfold getPeer
  rw [hfirst]

/-- Where the map has no room for an unknown address, or the caller does not
want an entry, `get_peer` returns `NULL`. -/
theorem Represents.getPeer_refused (h : peers.Represents known) {create : Bool}
    (hfind : known.find addr = none)
    (hadd : (if create then known.add addr ⟨0, 0⟩ else none) = none) :
    peers.getPeer addr create = none := by
  have hslot : peers.slotOf addr = none := h.firstSlot_unknown hfind
  unfold getPeer
  rw [hslot]
  cases create with
  | false => rfl
  | true =>
      have hfull : ¬ known.size < 32 := by
        intro hroom
        simp [BoundedMap.add, hroom] at hadd
      have hused : peers.firstSlot Option.isNone = none := by
        rw [SlotTable.firstSlot_eq_none_iff]
        intro i
        rw [← Bool.not_eq_true, Option.isNone_iff_eq_none]
        intro hfree
        exact hfull (h.room_iff.mpr ⟨i, hfree⟩)
      simp [hused]

/-- Else the address gets the first free slot, with both bits 0. -/
theorem Represents.getPeer_added {known' : PeerMap} (h : peers.Represents known) {create : Bool}
    (hfind : known.find addr = none)
    (hadd : (if create then known.add addr ⟨0, 0⟩ else none) = some known') :
    ∃ i, peers.getPeer addr create = some (i, peers.set i (some ⟨addr, ⟨0, 0⟩⟩)) ∧
      peers i = none ∧ Represents (peers.set i (some ⟨addr, ⟨0, 0⟩⟩)) known' := by
  have hslot : peers.slotOf addr = none := h.firstSlot_unknown hfind
  cases create with
  | false => cases hadd
  | true =>
      have hroom : known.size < 32 := by
        by_contra hfull
        simp [BoundedMap.add, hfull] at hadd
      obtain ⟨j, hj⟩ := h.room_iff.mp hroom
      obtain ⟨i, hfirst⟩ : ∃ i, peers.firstSlot Option.isNone = some i :=
        SlotTable.firstSlot_isSome (by rw [hj]; rfl)
      have hfree : peers i = none := by simpa using SlotTable.firstSlot_spec hfirst
      obtain ⟨map, hmap, hrep⟩ := h.add (a := ⟨addr, ⟨0, 0⟩⟩) hfree hfind
      rw [if_pos rfl] at hadd
      cases hadd.symm.trans hmap
      refine ⟨i, ?_, hfree, hrep⟩
      unfold getPeer
      rw [hslot]
      simp [hfirst]

theorem Represents.update (h : peers.Represents known) (hslot : peers i = some ⟨addr, state⟩)
    (change : RudpState → RudpState) :
    (peers.update i change).Represents (known.modify addr change) := by
  unfold Peers.update
  rw [hslot]
  exact SlotTable.Represents.modify h hslot rfl rfl

/-- A new entry in a free slot: what pointed to an entry still does. -/
theorem PointsTo.set_new {slot : Option (Fin 32)} {target : Option SockAddr}
    (h : peers.PointsTo slot target) (hfree : peers i = none) (peer : RudpPeer) :
    PointsTo (peers.set i (some peer)) slot target := by
  cases h with
  | none => exact .none
  | some hentry =>
      obtain ⟨state, hstate⟩ := hentry
      refine .some ⟨state, ?_⟩
      rw [SlotTable.set_of_ne, hstate]
      rintro rfl
      rw [hfree] at hstate
      cases hstate

theorem PointsTo.update {slot : Option (Fin 32)} {target : Option SockAddr}
    (h : peers.PointsTo slot target) (i : Fin 32) (change : RudpState → RudpState) :
    (peers.update i change).PointsTo slot target := by
  cases h with
  | none => exact .none
  | @some j addr hentry =>
      obtain ⟨state, hstate⟩ := hentry
      refine .some ?_
      unfold Peers.update
      rw [SlotTable.set_apply]
      split
      · rename_i hsame
        rw [← hsame, hstate]
        exact ⟨change state, rfl⟩
      · exact ⟨state, hstate⟩

end Peers

section Refinement

variable {use : PeerUse} {spec : PeerSpec}

/-- The pointers returned so far, with one more. -/
theorem PeerUse.Refines.pointers_snoc {peers : Peers} {slots : List (Option (Fin 32))}
    {targets : List (Option SockAddr)} {slot : Option (Fin 32)} {target : Option SockAddr}
    (h : List.Forall₂ peers.PointsTo slots targets) (hlast : peers.PointsTo slot target) :
    List.Forall₂ peers.PointsTo (slots ++ [slot]) (targets ++ [target]) :=
  List.rel_append h (.cons hlast .nil)

theorem PeerUse.Refines.pointers_get {peers : Peers} {slots : List (Option (Fin 32))}
    {targets : List (Option SockAddr)} (h : List.Forall₂ peers.PointsTo slots targets)
    (call : Nat) : Option.Rel peers.PointsTo slots[call]? targets[call]? := by
  induction h generalizing call with
  | nil => exact .none
  | cons hfirst _ ih =>
      cases call with
      | zero => exact .some hfirst
      | succ call => exact ih call

theorem PeerUse.Refines.get (h : use.Refines spec) (addr : SockAddr) (create : Bool) :
    Option.Rel (fun next next' => next.1.Refines next'.1 ∧ next.2 = next'.2)
      (use.step (.get addr create)) (spec.step (.get addr create)) := by
  unfold PeerUse.step PeerSpec.step
  cases hfind : spec.known.find addr with
  | some state =>
      obtain ⟨i, hget, hslot⟩ := h.known.getPeer_known create hfind
      simp only [hget, hfind]
      apply Option.Rel.some
      refine ⟨⟨h.known, pointers_snoc h.returned (.some ⟨state, hslot⟩)⟩, ?_⟩
      simp [Peers.stateAt, hslot]
  | none =>
      cases hadd : (if create then spec.known.add addr ⟨0, 0⟩ else none) with
      | none =>
          have hget := h.known.getPeer_refused hfind hadd
          simp only [hget, hfind, hadd]
          apply Option.Rel.some
          exact ⟨⟨h.known, pointers_snoc h.returned .none⟩, rfl⟩
      | some known =>
          obtain ⟨i, hget, hfree, hknown⟩ := h.known.getPeer_added hfind hadd
          simp only [hget, hfind, hadd]
          have hself := SlotTable.set_self use.peers i (some ⟨addr, ⟨0, 0⟩⟩)
          apply Option.Rel.some
          refine ⟨⟨hknown, pointers_snoc ?_ (.some ⟨⟨0, 0⟩, hself⟩)⟩, ?_⟩
          · exact h.returned.imp fun _ _ hpoints => hpoints.set_new hfree _
          · simp [Peers.stateAt]

theorem PeerUse.Refines.update (h : use.Refines spec) (call : Nat)
    (change : RudpState → RudpState) :
    Option.Rel (fun next next' => next.1.Refines next'.1 ∧ next.2 = next'.2)
      (use.step (.update call change)) (spec.step (.update call change)) := by
  unfold PeerUse.step PeerSpec.step
  have hcall := pointers_get h.returned call
  simp only
  generalize use.returned[call]? = slot at hcall ⊢
  generalize spec.returned[call]? = target at hcall ⊢
  cases hcall with
  | none => exact .none
  | some hpoints =>
      cases hpoints with
      | none => exact .none
      | some hentry =>
          obtain ⟨state, hslot⟩ := hentry
          apply Option.Rel.some
          refine ⟨⟨h.known.update hslot change, ?_⟩, rfl⟩
          exact h.returned.imp fun _ _ hpoints => hpoints.update _ change

theorem PeerUse.Refines.step (h : use.Refines spec) (op : PeerOp) :
    Option.Rel (fun next next' => next.1.Refines next'.1 ∧ next.2 = next'.2)
      (use.step op) (spec.step op) := by
  cases op with
  | get addr create => exact h.get addr create
  | update call change => exact h.update call change

theorem PeerUse.refines_start : PeerUse.start.Refines PeerSpec.start :=
  ⟨SlotTable.represents_empty, .nil⟩

/-- No operation changes the bits of another address. -/
theorem PeerSpec.step_other {op : PeerOp} {next : PeerSpec × List (Option RudpState)}
    (h : spec.step op = some next) {other : SockAddr} (hother : spec.subject op ≠ some other) :
    next.1.known.find other = spec.known.find other := by
  unfold PeerSpec.step at h
  cases op with
  | get addr create =>
      have hne : other ≠ addr := by
        rintro rfl
        exact hother rfl
      simp only at h
      split at h
      · cases h
        rfl
      · split at h
        · rename_i known hadd
          cases h
          split at hadd
          · rw [BoundedMap.find_add hadd, if_neg hne]
          · cases hadd
        · cases h
          rfl
  | update call change =>
      simp only at h
      split at h
      · rename_i addr hcall
        cases h
        have hne : other ≠ addr := by
          rintro rfl
          exact hother (by simp [PeerSpec.subject, hcall])
        rw [BoundedMap.find_modify, if_neg hne]
      · cases h

/-- Over every sequence of operations the table and the map show the same, and
the table stands for the map. -/
theorem peer_table_refines_map (ops : List PeerOp) :
    Option.Rel (fun use spec => use.1.Refines spec.1 ∧ use.2 = spec.2)
        (Lts.exec (Lts.logged PeerUse.step) (PeerUse.start, []) ops)
        (Lts.exec (Lts.logged PeerSpec.step) (PeerSpec.start, []) ops) ∧
      ∀ (spec : PeerSpec) (op : PeerOp) (next : PeerSpec × List (Option RudpState))
        (other : SockAddr), spec.step op = some next → spec.subject op ≠ some other →
          next.1.known.find other = spec.known.find other := by
  constructor
  · exact Lts.logged_rel (fun _ _ op h => h.step op) PeerUse.refines_start ops
  · intro spec op next other hstep hother
    exact PeerSpec.step_other hstep hother

end Refinement

section Endpoint

/-- The pointer into the table that a call under way holds. -/
def RudpLoc.peer : RudpLoc → Option (Fin 32)
  | .sendFrame call | .sendWait call | .sendAckAck call _ => some call.peer
  | .recvAck _ round | .recvWait _ round => some round.peer
  | .idle | .recvFirst _ | .recvSecond _ => none

/-- The table comes from a sequence of operations that returned the pointer. -/
def Peers.Used (peers : Peers) (held : Option (Fin 32)) : Prop :=
  ∃ run, Lts.Reachable (Lts.logged PeerUse.step) (PeerUse.start, []) run ∧
    run.1.peers = peers ∧ ∀ i, held = some i → some i ∈ run.1.returned

variable {peers peers' : Peers} {held : Option (Fin 32)} {i : Fin 32}

theorem Peers.Used.release (h : peers.Used held) : peers.Used none := by
  obtain ⟨run, hreach, hpeers, _⟩ := h
  exact ⟨run, hreach, hpeers, nofun⟩

theorem Peers.Used.get {addr : SockAddr} (h : peers.Used held)
    (hget : peers.getPeer addr true = some (i, peers')) : peers'.Used (some i) := by
  obtain ⟨⟨use, out⟩, hreach, rfl, _⟩ := h
  have hstep : Lts.logged PeerUse.step (use, out) (.get addr true) =
      some (⟨peers', use.returned ++ [some i]⟩, out ++ [some (peers'.stateAt i)]) := by
    simp [Lts.logged, PeerUse.step, hget]
  refine ⟨_, hreach.tail trivial hstep, rfl, ?_⟩
  intro j hj
  cases hj
  exact List.mem_append_right _ List.mem_cons_self

theorem Peers.Used.update (h : peers.Used (some i)) (change : RudpState → RudpState) :
    (peers.update i change).Used none := by
  obtain ⟨⟨use, out⟩, hreach, rfl, hreturned⟩ := h
  obtain ⟨call, hcall⟩ := List.getElem?_of_mem (hreturned i rfl)
  have hstep : Lts.logged PeerUse.step (use, out) (.update call change) =
      some ({ use with peers := use.peers.update i change }, out ++ []) := by
    simp [Lts.logged, PeerUse.step, hcall]
  exact ⟨_, hreach.tail trivial hstep, rfl, nofun⟩

theorem Peers.Used.flipSend (h : peers.Used (some i)) : (peers.flipSend i).Used none := by
  rw [Peers.flipSend_eq]
  exact h.update _

theorem Peers.Used.flipExpected (h : peers.Used (some i)) :
    (peers.flipExpected i).Used none := by
  rw [Peers.flipExpected_eq]
  exact h.update _

namespace Endpoint

variable {ep : Endpoint} {action : RudpAction}

/-- The endpoint has done nothing to its table but such operations. -/
def UsesPeers (ep : Endpoint) : Prop := ep.peers.Used ep.loc.peer

theorem process_usesPeers (ep : Endpoint) (h : ep.peers.Used none) (call : RecvCall)
    (source : SockAddr) (frame : Frame) : (ep.process call source frame).1.UsesPeers := by
  unfold process
  split
  · exact h
  · rename_i i peers hget
    exact h.get hget

theorem receiveFirst_usesPeers (ep : Endpoint) (h : ep.peers.Used none) (call : RecvCall) :
    (ep.receiveFirst call).1.UsesPeers := by
  unfold receiveFirst
  split
  · rename_i entry pending _
    exact process_usesPeers { ep with pending := pending } h call entry.addr entry.frame
  · exact h

theorem finishRound_usesPeers (call : RecvCall) (round : AckRound)
    (h : ep.peers.Used (some round.peer)) : (ep.finishRound call round).1.UsesPeers := by
  unfold finishRound
  split
  · exact h.flipExpected
  · split
    · rename_i pending _
      exact receiveFirst_usesPeers { ep with pending := pending } h.release call
    · exact h.release

theorem startSend_usesPeers (h : ep.UsesPeers) (hloc : ep.loc = .idle) (dest : SockAddr)
    (payload : Bytes) (maxAttempts : Int) (allocated : Bool) :
    (ep.startSend dest payload maxAttempts allocated).1.UsesPeers := by
  unfold startSend
  split
  · exact h
  · split
    · exact h
    · rename_i i peers hget
      have hused : peers.Used (some i) := Peers.Used.get h hget
      split
      · unfold UsesPeers
        rw [hloc]
        exact hused.release
      · exact hused

theorem ackAckSent_usesPeers (call : SendCall) (sent : Nat)
    (h : ep.peers.Used (some call.peer)) : (ep.ackAckSent call sent).1.UsesPeers := by
  unfold ackAckSent
  simp only
  split
  · exact h
  · exact h.flipSend

theorem arrival_usesPeers {result : Endpoint × List RudpOutput} (h : ep.UsesPeers)
    (source : SockAddr) (datagram : Datagram) (ok : Bool)
    (harrival : ep.arrival source datagram ok = some result) : result.1.UsesPeers := by
  unfold UsesPeers at h
  unfold arrival at harrival
  split at harrival
  · rename_i call hloc
    rw [hloc] at h
    simp only at harrival
    split at harrival <;> cases harrival
    · exact h
    · simpa only [UsesPeers, hloc] using h
  · rename_i call hloc
    rw [hloc] at h
    split at harrival
    · rename_i frame pending _
      cases harrival
      exact process_usesPeers { ep with pending := pending } h call source frame
    · cases harrival
      simpa only [UsesPeers, hloc] using h
  · rename_i call round hloc
    rw [hloc] at h
    simp only at harrival
    split at harrival <;> cases harrival
    · exact finishRound_usesPeers _ _ h
    · simpa only [UsesPeers, hloc] using h
  · rename_i call hloc
    rw [hloc] at h
    split at harrival
    · rename_i frame pending _
      cases harrival
      exact receiveFirst_usesPeers { ep with pending := pending } h call
    · cases harrival
      simpa only [UsesPeers, hloc] using h
  · cases harrival

theorem acts_usesPeers {result : Endpoint × List RudpOutput} (h : ep.UsesPeers)
    (hacts : ep.Acts action result) : result.1.UsesPeers := by
  have hused : ep.peers.Used ep.loc.peer := h
  cases hacts with
  | startSend hloc dest payload maxAttempts allocated =>
      exact startSend_usesPeers h hloc dest payload maxAttempts allocated
  | startRecv hloc len buffer =>
      unfold startRecv
      split
      · exact h
      · exact receiveFirst_usesPeers _ hused.release _
  | frameSent call hloc =>
      rw [hloc] at hused
      unfold frameSent
      split <;> exact hused
  | ackAckSent call sent hloc =>
      rw [hloc] at hused
      exact ackAckSent_usesPeers call sent hused
  | ackSent call round hloc =>
      rw [hloc] at hused
      unfold ackSent
      split
      · exact finishRound_usesPeers call round hused
      · exact hused
  | sendArrival _ _ source datagram ok harrival | firstArrival _ _ source datagram ok harrival
  | waitArrival _ _ _ source datagram ok harrival
  | secondArrival _ _ source datagram ok harrival =>
      exact arrival_usesPeers h source datagram ok harrival
  | sendTimeout call hloc =>
      rw [hloc] at hused
      unfold sendTimeout
      simp only
      split
      · exact hused.release
      · exact hused
  | recvTimeout call round hloc =>
      rw [hloc] at hused
      unfold recvTimeout
      simp only
      split
      · exact hused
      · exact finishRound_usesPeers call { round with attempts := round.attempts + 1 } hused
  | frameFailed | ackAckFailed | ackFailed | firstBlocked | secondBlocked
  | sendWaitFailed | firstFailed | recvWaitFailed | secondFailed => exact hused.release

/-- In every run of the endpoint the table stands for a map. -/
theorem represents_reachable {run : Endpoint × List RudpOutput}
    (h : Lts.Reachable (Lts.logged Endpoint.step) (Endpoint.start, []) run) :
    ∃ known, run.1.peers.Represents known := by
  have hused : run.1.UsesPeers := by
    refine h.invariant (fun run => run.1.UsesPeers) ⟨_, .refl, rfl, nofun⟩ ?_
    intro run action next hrun _ hstep
    obtain ⟨result, hresult, rfl⟩ := Option.map_eq_some_iff.mp hstep
    have hafter := acts_usesPeers hrun (acts_of_step hresult)
    exact hafter
  obtain ⟨use, hreach, hpeers, _⟩ := hused
  have hrefines : ∃ spec, use.1.Refines spec := by
    refine hreach.invariant (fun use => ∃ spec, use.1.Refines spec)
      ⟨_, PeerUse.refines_start⟩ ?_
    rintro use op next ⟨spec, hrefines⟩ _ hstep
    obtain ⟨result, hresult, rfl⟩ := Option.map_eq_some_iff.mp hstep
    have hboth := hrefines.step op
    rw [hresult] at hboth
    generalize spec.step op = after at hboth
    cases hboth with
    | some hrel => exact ⟨_, hrel.1⟩
  obtain ⟨spec, hrefines⟩ := hrefines
  exact ⟨spec.known, hpeers ▸ hrefines.known⟩

end Endpoint

end Endpoint

end TokenRing
