import TokenRing.Encoding
import TokenRing.JoinFsm
import TokenRing.Rudp.Tables

/-!
`broadcast_targets.c` and the send of `broadcast.c`: the networks that a
broadcast goes to, and whether it counts as sent.
-/

namespace TokenRing

def afInet : UInt16 := 2
def iffUp : UInt32 := 1
def iffBroadcast : UInt32 := 2
def ifNameSize : Nat := 16

/-- The entries of the array that holds the targets. -/
def maxTargets : Nat := 16

/-- A `struct ifaddrs`. -/
structure IfAddr where
  name : Bytes
  flags : UInt32
  addr : Option SockAddr
  broadaddr : Option SockAddr
  netmask : Option SockAddr

/-- A `broadcast_targets_t`. -/
structure BroadcastTarget where
  ifname : Bytes
  addr : SockAddr
deriving DecidableEq

/-- `sockaddr_in_is_valid`, with the address that is. -/
def validSockaddrIn (addr : Option SockAddr) : Option SockAddr :=
  addr.filter (fun addr => addr.family = afInet)

def computeBroadcast (ip netmask : UInt32) : UInt32 := ip ||| ~~~netmask

/-- An entry of `out` as it is filled; the port goes through `htons`. -/
def IfAddr.targetAt (order : ByteOrder) (port : UInt16) (ifa : IfAddr) (broadcastAddr : UInt32) :
    BroadcastTarget :=
  ⟨(ifa.name.take (ifNameSize - 1)).takeWhile (· != 0),
    ⟨afInet, htons order port, broadcastAddr⟩⟩

/-- The loop of `broadcast_collect_targets`; `out` holds the targets so far. -/
def collectTargets (order : ByteOrder) (port : UInt16) (outCap : Nat) :
    List IfAddr → List BroadcastTarget → List BroadcastTarget
  | [], out => out
  | ifa :: rest, out =>
      match ifa.addr with
      | none => collectTargets order port outCap rest out
      | some ip =>
          if ip.family ≠ afInet then
            collectTargets order port outCap rest out
          else if ifa.flags &&& iffUp = 0 then
            collectTargets order port outCap rest out
          else if ifa.flags &&& iffBroadcast = 0 then
            collectTargets order port outCap rest out
          else if out.length ≥ outCap then
            out
          else
            match validSockaddrIn ifa.broadaddr, validSockaddrIn ifa.netmask with
            | some bcast, _ =>
                collectTargets order port outCap rest (out ++ [ifa.targetAt order port bcast.addr])
            | none, some netmask =>
                collectTargets order port outCap rest
                  (out ++ [ifa.targetAt order port (computeBroadcast ip.addr netmask.addr)])
            | none, none => collectTargets order port outCap rest out

/-- `broadcast_collect_targets`; `none` is the return value -1. -/
def broadcastCollectTargets (order : ByteOrder) (port : UInt16) (ifas : Option (List IfAddr))
    (outCap : Nat) : Option (List BroadcastTarget) :=
  ifas.map (fun ifas => collectTargets order port outCap ifas [])

/-- The loop of `send_to_all_targets`: the value of `ok`, and the datagrams
handed to `sendto` with its results. -/
def sendLoop (msg : Bytes) (sent : Nat → Bool) :
    List BroadcastTarget → Nat → Bool → Bool × List (SockAddr × Bytes × Bool)
  | [], _, ok => (ok, [])
  | target :: rest, i, ok =>
      let (final, datagrams) := sendLoop msg sent rest (i + 1) (if sent i then true else ok)
      (final, (target.addr, msg, sent i) :: datagrams)

/-- `send_to_all_targets`. -/
def sendToAllTargets (msg : Bytes) (targets : List BroadcastTarget) (sent : Nat → Bool) :
    Int × List (SockAddr × Bytes × Bool) :=
  let (ok, datagrams) := sendLoop msg sent targets 0 false
  (if targets.length = 0 then -1 else if ok then 0 else -1, datagrams)

/-- The interface reaches a network, and this is its target. -/
def IfAddr.target (order : ByteOrder) (port : UInt16) (ifa : IfAddr) : Option BroadcastTarget :=
  match validSockaddrIn ifa.addr with
  | none => none
  | some ip =>
      if ifa.flags &&& iffUp = 0 ∨ ifa.flags &&& iffBroadcast = 0 then
        none
      else
        ((validSockaddrIn ifa.broadaddr).map SockAddr.addr <|>
          (validSockaddrIn ifa.netmask).map (fun netmask =>
            computeBroadcast ip.addr netmask.addr)).map (ifa.targetAt order port)

section Addresses

theorem computeBroadcast_toBitVec (ip netmask : UInt32) :
    (computeBroadcast ip netmask).toBitVec = ip.toBitVec ||| ~~~netmask.toBitVec := rfl

/-- The broadcast address belongs to the network of the interface. -/
theorem computeBroadcast_network (ip netmask : UInt32) :
    computeBroadcast ip netmask &&& netmask = ip &&& netmask := by
  apply UInt32.toBitVec_inj.mp
  apply BitVec.eq_of_getLsbD_eq
  intro i hi
  simp only [UInt32.toBitVec_and, computeBroadcast_toBitVec, BitVec.getLsbD_and,
    BitVec.getLsbD_or, BitVec.getLsbD_not, hi, decide_true, Bool.true_and]
  cases netmask.toBitVec.getLsbD i <;> simp

/-- Hosts that share a netmask have the same broadcast address exactly when they
are in one network. -/
theorem computeBroadcast_eq_iff (ip ip' netmask : UInt32) :
    computeBroadcast ip netmask = computeBroadcast ip' netmask ↔
      ip &&& netmask = ip' &&& netmask := by
  constructor
  · intro h
    rw [← computeBroadcast_network, h, computeBroadcast_network]
  · intro h
    apply UInt32.toBitVec_inj.mp
    apply BitVec.eq_of_getLsbD_eq
    intro i hi
    have hbit := congrArg (fun value : UInt32 => value.toBitVec.getLsbD i) h
    simp only [UInt32.toBitVec_and, BitVec.getLsbD_and] at hbit
    simp only [computeBroadcast_toBitVec, BitVec.getLsbD_or, BitVec.getLsbD_not, hi,
      decide_true, Bool.true_and]
    cases hmask : netmask.toBitVec.getLsbD i with
    | false => simp
    | true => simpa [hmask] using hbit

end Addresses

section Targets

variable {order : ByteOrder} {port : UInt16} {outCap : Nat}

/-- A full array stays as it is. -/
theorem collectTargets_full (ifas : List IfAddr) {out : List BroadcastTarget}
    (hfull : out.length ≥ outCap) : collectTargets order port outCap ifas out = out := by
  induction ifas with
  | nil => rfl
  | cons ifa rest ih =>
      unfold collectTargets
      cases ifa.addr with
      | none => exact ih
      | some ip => simp only [ih, if_pos hfull, ite_self]

/-- One interface while there is room. -/
theorem collectTargets_cons (ifa : IfAddr) (rest : List IfAddr) {out : List BroadcastTarget}
    (hroom : out.length < outCap) :
    collectTargets order port outCap (ifa :: rest) out =
      collectTargets order port outCap rest (out ++ (ifa.target order port).toList) := by
  conv_lhs => unfold collectTargets
  unfold IfAddr.target
  cases haddr : ifa.addr with
  | none => simp [validSockaddrIn]
  | some ip =>
      by_cases hfamily : ip.family = afInet
      · have hvalid : validSockaddrIn (some ip) = some ip := by
          simp [validSockaddrIn, Option.filter, hfamily]
        rw [hvalid]
        by_cases hdown : ifa.flags &&& iffUp = 0
        · simp [hfamily, hdown]
        · by_cases hno : ifa.flags &&& iffBroadcast = 0
          · simp [hfamily, hno]
          · simp only [hfamily, ne_eq, not_true_eq_false, if_false, hdown, hno,
              if_neg (Nat.not_le.mpr hroom), ge_iff_le, or_self]
            cases validSockaddrIn ifa.broadaddr with
            | some bcast => simp
            | none => cases validSockaddrIn ifa.netmask <;> simp
      · have hinvalid : validSockaddrIn (some ip) = none := by
          simp [validSockaddrIn, Option.filter, hfamily]
        simp [hinvalid, hfamily]

/-- The loop takes the interfaces that reach a network, in order, while there is
room. -/
theorem collectTargets_eq (ifas : List IfAddr) {out : List BroadcastTarget}
    (hroom : out.length ≤ outCap) :
    collectTargets order port outCap ifas out =
      (out ++ ifas.filterMap (IfAddr.target order port)).take outCap := by
  induction ifas generalizing out with
  | nil => simp [collectTargets, hroom]
  | cons ifa rest ih =>
      by_cases hfull : out.length ≥ outCap
      · rw [collectTargets_full _ hfull, List.take_append_of_le_length hfull,
          List.take_of_length_le hroom]
      · have hmore : (out ++ (ifa.target order port).toList).length ≤ outCap := by
          cases ifa.target order port <;> simp <;> omega
        rw [collectTargets_cons ifa rest (Nat.not_le.mp hfull), ih hmore]
        cases htarget : ifa.target order port <;> simp [htarget]

theorem sendLoop_eq (msg : Bytes) (sent : Nat → Bool) (targets : List BroadcastTarget)
    (i : Nat) (ok : Bool) :
    sendLoop msg sent targets i ok =
      (ok || (List.range' i targets.length).any sent,
        (targets.zip (List.range' i targets.length)).map
          (fun entry => (entry.1.addr, msg, sent entry.2))) := by
  induction targets generalizing i ok with
  | nil => simp [sendLoop]
  | cons target rest ih =>
      simp only [sendLoop, ih, List.length_cons, List.range'_succ, List.any_cons,
        List.zip_cons_cons, List.map_cons]
      cases sent i <;> simp

theorem sendToAllTargets_datagrams (msg : Bytes) (targets : List BroadcastTarget)
    (sent : Nat → Bool) :
    (sendToAllTargets msg targets sent).2 = (targets.zip (List.range targets.length)).map
      (fun entry => (entry.1.addr, msg, sent entry.2)) := by
  simp [sendToAllTargets, sendLoop_eq, List.range_eq_range']

theorem sendToAllTargets_zero_iff (msg : Bytes) (targets : List BroadcastTarget)
    (sent : Nat → Bool) :
    (sendToAllTargets msg targets sent).1 = 0 ↔ ∃ i, i < targets.length ∧ sent i = true := by
  have hany : (List.range' 0 targets.length).any sent = true ↔
      ∃ i, i < targets.length ∧ sent i = true := by
    simp [List.any_eq_true]
  simp only [sendToAllTargets, sendLoop_eq, Bool.false_or, hany]
  by_cases hnone : targets.length = 0
  · simp [hnone]
  · rw [if_neg hnone]
    split <;> simp_all

/-- Where a target comes from: an interface that is up, with its own broadcast
address, or with the address of all hosts of its network. -/
structure BroadcastTarget.Reaches (order : ByteOrder) (port : UInt16) (ifa : IfAddr)
    (target : BroadcastTarget) : Prop where
  up : ifa.flags &&& iffUp ≠ 0
  broadcasts : ifa.flags &&& iffBroadcast ≠ 0
  port : target.addr.port = htons order port
  address : (∃ bcast, ifa.broadaddr = some bcast ∧ target.addr.addr = bcast.addr) ∨
    ∃ ip netmask, ifa.addr = some ip ∧ ifa.netmask = some netmask ∧
      ∀ other, target.addr.addr = computeBroadcast other netmask.addr ↔
        other &&& netmask.addr = ip.addr &&& netmask.addr

theorem IfAddr.target_reaches {ifa : IfAddr} {target : BroadcastTarget}
    (h : ifa.target order port = some target) : target.Reaches order port ifa := by
  have hsome : ∀ {addr : Option SockAddr} {valid : SockAddr},
      validSockaddrIn addr = some valid → addr = some valid := by
    intro addr valid hvalid
    exact (Option.filter_eq_some_iff.mp hvalid).1
  unfold IfAddr.target at h
  cases hip : validSockaddrIn ifa.addr with
  | none => simp [hip] at h
  | some ip =>
      by_cases hflags : ifa.flags &&& iffUp = 0 ∨ ifa.flags &&& iffBroadcast = 0
      · simp [hip, hflags] at h
      · simp only [hip, if_neg hflags] at h
        rw [not_or] at hflags
        obtain ⟨addr, haddr, rfl⟩ := Option.map_eq_some_iff.mp h
        refine ⟨hflags.1, hflags.2, rfl, ?_⟩
        cases hbcast : validSockaddrIn ifa.broadaddr with
        | some bcast =>
            simp only [hbcast, Option.map_some, Option.orElse_eq_orElse, Option.orElse_eq_or,
              Option.some_or, Option.some.injEq] at haddr
            exact .inl ⟨bcast, hsome hbcast, haddr.symm⟩
        | none =>
            cases hmask : validSockaddrIn ifa.netmask with
            | none => simp [hbcast, hmask] at haddr
            | some netmask =>
                simp only [hbcast, hmask, Option.map_none, Option.map_some,
                  Option.orElse_eq_orElse, Option.orElse_eq_or, Option.none_or,
                  Option.some.injEq] at haddr
                refine .inr ⟨ip, netmask, hsome hip, hsome hmask, fun other => ?_⟩
                change addr = _ ↔ _
                rw [← haddr, computeBroadcast_eq_iff]
                exact eq_comm

end Targets

/-- A broadcast goes, once each and in order, to the first sixteen interfaces
that are up, can broadcast and have an address or a netmask to do it with, each
time to all hosts of one of their networks; it counts as sent exactly when one of
the datagrams left. A node that has not joined stops at its first request exactly
when none did. -/
theorem broadcast_reaches_first_networks (order : ByteOrder) (port : UInt16)
    (ifas : List IfAddr) (msg : Bytes) (sent : Nat → Bool) :
    ∃ targets, broadcastCollectTargets order port (some ifas) maxTargets = some targets ∧
      targets = (ifas.filterMap (IfAddr.target order port)).take maxTargets ∧
      (∀ target ∈ targets, ∃ ifa ∈ ifas, target.Reaches order port ifa) ∧
      (sendToAllTargets msg targets sent).2 = (targets.zip (List.range targets.length)).map
        (fun entry => (entry.1.addr, msg, sent entry.2)) ∧
      ((sendToAllTargets msg targets sent).1 = 0 ↔
        ∃ i, i < targets.length ∧ sent i = true) ∧
      ∀ state now, state.joined = false → state.joinRequestLastSent = 0 →
        state.joinRequestRetries = 0 →
        (joinFsmRequestTick state now ((sendToAllTargets msg targets sent).1 = 0) = none ↔
          ∀ i < targets.length, sent i = false) := by
  have hcollect := @collectTargets_eq order port maxTargets ifas [] (Nat.zero_le _)
  rw [List.nil_append] at hcollect
  refine ⟨collectTargets order port maxTargets ifas [], rfl, hcollect, ?_,
    sendToAllTargets_datagrams msg _ sent, sendToAllTargets_zero_iff msg _ sent, ?_⟩
  · intro target hmem
    rw [hcollect] at hmem
    obtain ⟨ifa, hifa, htarget⟩ := List.mem_filterMap.mp (List.mem_of_mem_take hmem)
    exact ⟨ifa, hifa, IfAddr.target_reaches htarget⟩
  · intro state now hunjoined hlast hretries
    have hstops : ∀ ok : Bool, joinFsmRequestTick state now ok = none ↔ ok = false := by
      intro ok
      cases ok <;> simp [joinFsmRequestTick, hunjoined, hlast, hretries, joinRequestRetries]
    rw [hstops, decide_eq_false_iff_not, sendToAllTargets_zero_iff]
    simp

end TokenRing
