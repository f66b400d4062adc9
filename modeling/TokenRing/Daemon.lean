import TokenRing.EventLoop
import TokenRing.Rudp.Results
import TokenRing.Wire

/-!
The process: `ring_run` over the RUDP layer and the two sockets, one system
call at a time. The sends of the handlers are left to the events: at any point
between two calls the process may send any record to any address.
-/

namespace TokenRing

structure Daemon where
  node : Node
  rudp : Endpoint

/-- What a system call of the RUDP layer brings, a datagram as it is on the
wire. -/
inductive SystemCall where
  | sendto (ok : Bool)
  | recvfrom (source : SockAddr) (datagram : Bytes) (ok : Bool)
  | timeout
  | wouldBlock
  | fail

def SystemCall.action (order : ByteOrder) : SystemCall → RudpAction
  | .sendto ok => .sendto ok
  | .recvfrom source datagram ok => .arrive source (.ofBytes order datagram) ok
  | .timeout => .timeout
  | .wouldBlock => .wouldBlock
  | .fail => .fail

/-- `received` of a broadcast is the datagram with its source address; `none` is
a `recvfrom` that fails. The clock and the results of the answers come with the
step that may dispatch a message. -/
inductive DaemonEvent where
  | ring (event : Event)
  | unicastNotReady
  | unicastRecv (buffer : Bytes) (now : Int) (ok : Nat → Bool)
  | send (dest : SockAddr) (payload : Bytes) (maxAttempts : Int) (allocated : Bool)
  | system (call : SystemCall) (now : Int) (ok : Nat → Bool)
  | broadcast (received : Option (Bytes × UInt32)) (now : Int)

/-- The functions whose negative return ends the loop. -/
inductive Handler where
  | handleUnicastIfReady
  | handleBroadcast
  | other
deriving DecidableEq

/-- The event of `ring_run` that a return of `rudp_recvfrom` amounts to, and
whether it makes `handle_unicast_if_ready` return. -/
def RecvResult.event (order : ByteOrder) (now : Int) (ok : Nat → Bool) :
    RecvResult → Event × List (Handler × Int)
  | .nothing => (.unicastIdle, [(.handleUnicastIfReady, 0)])
  | .failed => (.unicastFailed, [(.handleUnicastIfReady, -1)])
  | .message wire =>
      match unicastRecv wire with
      | none => (.unicastFailed, [(.handleUnicastIfReady, -1)])
      | some record => (.unicastMessage (record.message order) now ok, [])

namespace Daemon

def start (config : RouteConfig) (joined shouldStart : Bool) (requestId : UInt32) : Daemon :=
  ⟨Node.start config joined shouldStart requestId, .start⟩

/-- The events that are not those of the two sockets; the loop of
`handle_unicast_if_ready` goes on as `rudp_has_pending` says. -/
def allows (d : Daemon) : Event → Bool
  | .unicastIdle | .unicastFailed | .unicastMessage _ _ _ => false
  | .broadcastFailed | .broadcastMessage _ _ _ => false
  | .joinFsmMaybeComplete morePending =>
      d.node.loc ≠ .unicastComplete || morePending = d.rudp.pending.hasMessage
  | _ => true

/-- The returns of an event that is not one of the two sockets. -/
def ringReturns (d : Daemon) (event : Event) : List (Handler × Int) :=
  match d.node.loc, event with
  | .unicastComplete, .joinFsmMaybeComplete morePending =>
      if morePending then [] else [(.handleUnicastIfReady, 0)]
  | _, _ => [(.other, if (event.handle d.node.state).isNone then -1 else 0)]

/-- The event is handled, with these returns. -/
def handled (d : Daemon) (rudp : Endpoint) (event : Event) (returns : List (Handler × Int)) :
    Option (Daemon × List (Handler × Int)) :=
  (d.node.step event).map (fun result => (⟨result.1, rudp⟩, returns))

/-- The RUDP layer has run to its next system call, or `rudp_recvfrom` has
returned. -/
def settle (order : ByteOrder) (d : Daemon) (now : Int) (ok : Nat → Bool)
    (result : Endpoint × List RudpOutput) : Option (Daemon × List (Handler × Int)) :=
  match recvResult result.2 with
  | none => some ({ d with rudp := result.1 }, [])
  | some received =>
      let (event, returns) := received.event order now ok
      d.handled result.1 event returns

/-- One step of the process, with the returns of the handlers. -/
def step (order : ByteOrder) (d : Daemon) :
    DaemonEvent → Option (Daemon × List (Handler × Int))
  | .ring event =>
      if d.rudp.loc.isIdle && d.allows event then
        d.handled d.rudp event (d.ringReturns event)
      else none
  | .unicastNotReady =>
      if d.rudp.loc.isIdle && !d.rudp.pending.hasMessage then
        d.handled d.rudp .unicastIdle [(.handleUnicastIfReady, 0)]
      else none
  | .unicastRecv buffer now ok =>
      if d.node.loc = .unicast then
        (d.rudp.step (.recv sizeofUnicastMsg buffer)).bind (d.settle order now ok)
      else none
  | .send dest payload maxAttempts allocated =>
      if d.node.loc = .stopped then none
      else
        (d.rudp.step (.send dest payload maxAttempts allocated)).map
          (fun result => ({ d with rudp := result.1 }, []))
  | .system call now ok => (d.rudp.step (call.action order)).bind (d.settle order now ok)
  | .broadcast received now =>
      if d.rudp.loc.isIdle then
        match received with
        | none => d.handled d.rudp .broadcastFailed [(.handleBroadcast, -1)]
        | some (datagram, ip) =>
            d.handled d.rudp (.broadcastMessage (broadcastMessage datagram) ip now)
              [(.handleBroadcast, 0)]
      else none

end Daemon

/-- No system call of the RUDP layer or of `handle_broadcast` fails. -/
def DaemonEvent.succeeds : DaemonEvent → Bool
  | .system (.sendto ok) _ _ => ok
  | .system (.recvfrom _ _ ok) _ _ => ok
  | .system .fail _ _ => false
  | .broadcast received _ => received.isSome
  | _ => true

/-- The peer table takes in the sender of a message that `rudp_recvfrom` begins
a round with, and a record that it returns announces no more bytes than a
payload has. -/
def Daemon.accepts (order : ByteOrder) (d : Daemon) : DaemonEvent → Bool
  | .unicastRecv buffer _ _ => d.rudp.admits (.recv sizeofUnicastMsg buffer)
  | .system call _ _ =>
      d.rudp.admits (call.action order) &&
        (d.rudp.handsOver (call.action order)).all (announcedLen · ≤ maxUnicastPayload)
  | _ => true

/-- The returns of `handle_unicast_if_ready` and `handle_broadcast` are 0. -/
def ReceiversReturnZero (returns : List (Handler × Int)) : Prop :=
  ∀ handler code, (handler, code) ∈ returns → handler ≠ .other → code = 0

section Steps

variable {order : ByteOrder} {d d' : Daemon} {event : DaemonEvent}
  {returns : List (Handler × Int)}

theorem receiversReturnZero_nil : ReceiversReturnZero [] := by
  intro handler code hmem
  cases hmem

theorem receiversReturnZero_singleton {handler : Handler} {code : Int} :
    ReceiversReturnZero [(handler, code)] ↔ (handler ≠ .other → code = 0) := by
  constructor
  · intro h
    exact h handler code (List.mem_singleton_self _)
  · intro h handler' code' hmem
    cases List.mem_singleton.mp hmem
    exact h

theorem ReceiversReturnZero.append {first second : List (Handler × Int)}
    (hfirst : ReceiversReturnZero first) (hsecond : ReceiversReturnZero second) :
    ReceiversReturnZero (first ++ second) := by
  intro handler code hmem
  rcases List.mem_append.mp hmem with hold | hnew
  · exact hfirst handler code hold
  · exact hsecond handler code hnew

theorem handsOver_recv (ep : Endpoint) (len : Nat) (buffer : Bytes) :
    ep.handsOver (.recv len buffer) = none := by
  cases hloc : ep.loc <;> simp [Endpoint.handsOver, Endpoint.leavesRound, hloc]

/-- A datagram that was read is no longer than the frame buffer. -/
theorem succeeds_action {call : SystemCall} {now : Int} {ok : Nat → Bool}
    (h : (DaemonEvent.system call now ok).succeeds = true) :
    (call.action order).succeeds = true := by
  cases call with
  | sendto sent => exact h
  | recvfrom source datagram acked =>
      obtain rfl : acked = true := h
      cases hframe : Datagram.ofBytes order datagram with
      | short => simp [SystemCall.action, RudpAction.succeeds, hframe]
      | frame frame =>
          simp [SystemCall.action, RudpAction.succeeds, hframe, Datagram.ofBytes_len hframe]
  | fail => cases h
  | timeout | wouldBlock => rfl

theorem Daemon.handled_some {rudp : Endpoint} {ring : Event}
    {announced : List (Handler × Int)}
    (h : d.handled rudp ring announced = some (d', returns)) :
    returns = announced ∧ ∃ out, d.node.step ring = some (d'.node, out) := by
  obtain ⟨⟨node, out⟩, hstep, heq⟩ := Option.map_eq_some_iff.mp h
  cases heq
  exact ⟨rfl, out, hstep⟩

theorem Daemon.ringReturns_zero (d : Daemon) (ring : Event) :
    ReceiversReturnZero (d.ringReturns ring) := by
  unfold Daemon.ringReturns
  split
  · split
    · exact receiversReturnZero_nil
    · exact receiversReturnZero_singleton.mpr (fun _ => rfl)
  · exact receiversReturnZero_singleton.mpr (fun h => absurd rfl h)

/-- The return of `rudp_recvfrom`, if there is one, lets the loop go on exactly
when the action is accepted. -/
theorem Daemon.settle_returns {action : RudpAction} {now : Int} {ok : Nat → Bool}
    {result : Endpoint × List RudpOutput}
    (hresult : recvResult result.2 = d.rudp.returns action)
    (h : d.settle order now ok result = some (d', returns)) :
    ReceiversReturnZero returns ↔
      (d.rudp.admits action &&
        (d.rudp.handsOver action).all (announcedLen · ≤ maxUnicastPayload)) = true := by
  unfold Daemon.settle at h
  rw [hresult] at h
  rcases d.rudp.returns_cases action with ⟨wire, hhands, hadmits, hreturns⟩ |
    ⟨hhands, hadmits, hreturns⟩ | ⟨hhands, hadmits, hreturns⟩
  · rw [hreturns] at h
    obtain ⟨hout, _⟩ := Daemon.handled_some h
    rw [hhands, hadmits, hout]
    cases hwire : unicastRecv wire with
    | none =>
        have hlong := unicastRecv_eq_none.mp hwire
        simp [receiversReturnZero_singleton, Nat.not_le.mpr hlong]
    | some record =>
        have hfits : announcedLen wire ≤ maxUnicastPayload := by
          by_contra hlong
          rw [unicastRecv_eq_none.mpr (Nat.not_le.mp hlong)] at hwire
          cases hwire
        simp [receiversReturnZero_nil, hfits]
  · rw [hreturns] at h
    obtain ⟨hout, _⟩ := Daemon.handled_some h
    rw [hadmits, hout]
    simp [receiversReturnZero_singleton]
  · rw [hhands, hadmits]
    rcases hreturns with hreturns | hreturns
    · rw [hreturns] at h
      obtain ⟨hout, _⟩ := Daemon.handled_some h
      rw [hout]
      simp [receiversReturnZero_singleton]
    · rw [hreturns] at h
      cases h
      simp [receiversReturnZero_nil]

/-- What a step comes down to: an event of `ring_run`, a send, or an action of
`rudp_recvfrom` and what its return leads to. -/
inductive Daemon.Moves (order : ByteOrder) (d : Daemon) :
    DaemonEvent → Daemon → List (Handler × Int) → Prop where
  | ring (ring : Event) {d' : Daemon} {returns : List (Handler × Int)}
      (hhandled : d.handled d.rudp ring (d.ringReturns ring) = some (d', returns)) :
      Moves order d (.ring ring) d' returns
  | unicastNotReady {d' : Daemon} {returns : List (Handler × Int)}
      (hhandled : d.handled d.rudp .unicastIdle [(.handleUnicastIfReady, 0)] =
        some (d', returns)) :
      Moves order d .unicastNotReady d' returns
  | unicastRecv (buffer : Bytes) (now : Int) (ok : Nat → Bool)
      {result : Endpoint × List RudpOutput} {d' : Daemon} {returns : List (Handler × Int)}
      (hresult : d.rudp.step (.recv sizeofUnicastMsg buffer) = some result)
      (hsettle : d.settle order now ok result = some (d', returns)) :
      Moves order d (.unicastRecv buffer now ok) d' returns
  | send (dest : SockAddr) (payload : Bytes) (maxAttempts : Int) (allocated : Bool)
      (rudp : Endpoint) :
      Moves order d (.send dest payload maxAttempts allocated) { d with rudp := rudp } []
  | system (call : SystemCall) (now : Int) (ok : Nat → Bool)
      {result : Endpoint × List RudpOutput} {d' : Daemon} {returns : List (Handler × Int)}
      (hresult : d.rudp.step (call.action order) = some result)
      (hsettle : d.settle order now ok result = some (d', returns)) :
      Moves order d (.system call now ok) d' returns
  | broadcastFailed (now : Int) {d' : Daemon} {returns : List (Handler × Int)}
      (hhandled : d.handled d.rudp .broadcastFailed [(.handleBroadcast, -1)] =
        some (d', returns)) :
      Moves order d (.broadcast none now) d' returns
  | broadcast (datagram : Bytes) (ip : UInt32) (now : Int) {d' : Daemon}
      {returns : List (Handler × Int)}
      (hhandled : d.handled d.rudp (.broadcastMessage (broadcastMessage datagram) ip now)
        [(.handleBroadcast, 0)] = some (d', returns)) :
      Moves order d (.broadcast (some (datagram, ip)) now) d' returns

theorem Daemon.moves_of_step (h : d.step order event = some (d', returns)) :
    d.Moves order event d' returns := by
  cases event with
  | ring ring =>
      simp only [Daemon.step] at h
      split at h
      · exact .ring ring h
      · cases h
  | unicastNotReady =>
      simp only [Daemon.step] at h
      split at h
      · exact .unicastNotReady h
      · cases h
  | unicastRecv buffer now ok =>
      simp only [Daemon.step] at h
      split at h
      · obtain ⟨result, hresult, hsettle⟩ := Option.bind_eq_some_iff.mp h
        exact .unicastRecv buffer now ok hresult hsettle
      · cases h
  | send dest payload maxAttempts allocated =>
      simp only [Daemon.step] at h
      split at h
      · cases h
      · obtain ⟨result, _, heq⟩ := Option.map_eq_some_iff.mp h
        cases heq
        exact .send dest payload maxAttempts allocated result.1
  | system call now ok =>
      obtain ⟨result, hresult, hsettle⟩ := Option.bind_eq_some_iff.mp h
      exact .system call now ok hresult hsettle
  | broadcast received now =>
      simp only [Daemon.step] at h
      split at h
      · cases received with
        | none => exact .broadcastFailed now h
        | some pair => exact .broadcast pair.1 pair.2 now h
      · cases h

/-- In a step without a failing system call the two handlers return 0 exactly
when the step is accepted. -/
theorem Daemon.step_returns_iff (hsucceeds : event.succeeds = true)
    (h : d.step order event = some (d', returns)) :
    ReceiversReturnZero returns ↔ d.accepts order event = true := by
  cases Daemon.moves_of_step h with
  | ring ring hhandled =>
      obtain ⟨rfl, _⟩ := Daemon.handled_some hhandled
      exact ⟨fun _ => rfl, fun _ => d.ringReturns_zero ring⟩
  | unicastNotReady hhandled =>
      obtain ⟨rfl, _⟩ := Daemon.handled_some hhandled
      exact ⟨fun _ => rfl, fun _ => receiversReturnZero_singleton.mpr (fun _ => rfl)⟩
  | unicastRecv buffer now ok hresult hsettle =>
      have hreturn := Endpoint.step_result rfl
        (fun len buffer' heq => by cases heq; decide) hresult
      have hiff := Daemon.settle_returns hreturn hsettle
      rw [handsOver_recv] at hiff
      simpa [Daemon.accepts] using hiff
  | send dest payload maxAttempts allocated rudp =>
      exact ⟨fun _ => rfl, fun _ => receiversReturnZero_nil⟩
  | system call now ok hresult hsettle =>
      have haction : (call.action order).succeeds = true := succeeds_action hsucceeds
      have hreturn := Endpoint.step_result haction
        (fun len buffer heq => by cases call <;> cases heq) hresult
      exact Daemon.settle_returns hreturn hsettle
  | broadcastFailed now hhandled => cases hsucceeds
  | broadcast datagram ip now hhandled =>
      obtain ⟨rfl, _⟩ := Daemon.handled_some hhandled
      exact ⟨fun _ => rfl, fun _ => receiversReturnZero_singleton.mpr (fun _ => rfl)⟩

/-- The loop is left only where a return is negative. -/
theorem Event.handle_of_stopped {loc : Loc} {ring : Event} {state : RingState}
    (h : ring.goesTo loc = some .stopped) : ring.handle state = none := by
  unfold Event.goesTo at h
  split at h
  all_goals first | rfl | cases h | skip
  split at h <;> cases h

theorem Daemon.handled_stopped {rudp : Endpoint} {ring : Event}
    {announced : List (Handler × Int)}
    (h : d.handled rudp ring announced = some (d', returns)) (hstopped : d'.node.loc = .stopped) :
    ring.handle d.node.state = none := by
  obtain ⟨_, out, hstep⟩ := Daemon.handled_some h
  unfold Node.step at hstep
  split at hstep
  · cases hstep
  · rename_i loc hgoes
    split at hstep
    · assumption
    · have hnode := congrArg Prod.fst (Option.some.inj hstep)
      have hloc : loc = d'.node.loc := congrArg Node.loc hnode
      rw [hloc, hstopped] at hgoes
      exact Event.handle_of_stopped hgoes

theorem Daemon.settle_stopped {now : Int} {ok : Nat → Bool}
    {result : Endpoint × List RudpOutput} (hrunning : d.node.loc ≠ .stopped)
    (h : d.settle order now ok result = some (d', returns)) (hstopped : d'.node.loc = .stopped) :
    (.handleUnicastIfReady, -1) ∈ returns := by
  unfold Daemon.settle at h
  split at h
  · cases h
    exact absurd hstopped hrunning
  · rename_i received hresult
    obtain ⟨hout, _⟩ := Daemon.handled_some h
    have hnone := Daemon.handled_stopped h hstopped
    rw [hout]
    cases received with
    | nothing => cases hnone
    | failed => exact List.mem_singleton_self _
    | message wire =>
        cases hwire : unicastRecv wire with
        | none => simp [hwire]
        | some record => simp [hwire, Event.handle] at hnone

/-- The step that leaves the loop makes a negative return. -/
theorem Daemon.step_stopped (hrunning : d.node.loc ≠ .stopped)
    (h : d.step order event = some (d', returns)) (hstopped : d'.node.loc = .stopped) :
    ∃ handler code, code < 0 ∧ (handler, code) ∈ returns := by
  cases Daemon.moves_of_step h with
  | ring ring hhandled =>
      obtain ⟨rfl, _⟩ := Daemon.handled_some hhandled
      have hnone := Daemon.handled_stopped hhandled hstopped
      refine ⟨.other, -1, by decide, ?_⟩
      unfold Daemon.ringReturns
      split
      · cases hnone
      · simp [hnone]
  | unicastNotReady hhandled => cases Daemon.handled_stopped hhandled hstopped
  | unicastRecv buffer now ok hresult hsettle =>
      exact ⟨_, -1, by decide, Daemon.settle_stopped hrunning hsettle hstopped⟩
  | send dest payload maxAttempts allocated rudp => exact absurd hstopped hrunning
  | system call now ok hresult hsettle =>
      exact ⟨_, -1, by decide, Daemon.settle_stopped hrunning hsettle hstopped⟩
  | broadcastFailed now hhandled =>
      obtain ⟨rfl, _⟩ := Daemon.handled_some hhandled
      exact ⟨.handleBroadcast, -1, by decide, List.mem_singleton_self _⟩
  | broadcast datagram ip now hhandled => cases Daemon.handled_stopped hhandled hstopped

end Steps

/-- A state of the process with the returns so far. -/
abbrev DaemonRun := Daemon × List (Handler × Int)

/-- No system call fails, and the step is accepted. -/
def Accepted (order : ByteOrder) (run : DaemonRun) (event : DaemonEvent) : Prop :=
  event.succeeds = true ∧ run.1.accepts order event = true

theorem Daemon.start_running (config : RouteConfig) (joined shouldStart : Bool)
    (requestId : UInt32) :
    (Daemon.start config joined shouldStart requestId).node.loc ≠ .stopped := by
  cases joined <;> nofun

/-- In every run without a failing system call whose steps are all accepted,
the two handlers return 0, and only another one can end the loop. Malformed
input changes nothing. -/
theorem datagrams_stop_nothing (order : ByteOrder) {config : RouteConfig}
    {joined shouldStart : Bool} {requestId : UInt32} {run : DaemonRun}
    (h : Lts.Reaches (Lts.logged (Daemon.step order)) (Accepted order)
      (Daemon.start config joined shouldStart requestId, []) run) :
    ReceiversReturnZero run.2 ∧
      (run.1.node.loc = .stopped → ∃ code, code < 0 ∧ (.other, code) ∈ run.2) ∧
      (∀ (record : UnicastRecord) now ok, ¬ record.WellFormed →
        unicastDispatchMessage run.1.node.state (record.message order) now ok =
          (run.1.node.state, [])) ∧
      (∀ datagram ip now, ¬ WellFormedBroadcast datagram →
        handleBroadcast run.1.node.state (broadcastMessage datagram) ip now =
          run.1.node.state) := by
  have hkept : ReceiversReturnZero run.2 ∧
      (run.1.node.loc = .stopped → ∃ code, code < 0 ∧ (.other, code) ∈ run.2) := by
    apply h.invariant (fun run => ReceiversReturnZero run.2 ∧
      (run.1.node.loc = .stopped → ∃ code, code < 0 ∧ (.other, code) ∈ run.2))
    · exact ⟨receiversReturnZero_nil, fun hstopped =>
        absurd hstopped (Daemon.start_running config joined shouldStart requestId)⟩
    · rintro ⟨d, before⟩ event after ⟨hzero, hculprit⟩ ⟨hsucceeds, haccepts⟩ hstep
      obtain ⟨⟨d', returns⟩, hmove, rfl⟩ := Option.map_eq_some_iff.mp hstep
      have hreturns : ReceiversReturnZero returns :=
        (Daemon.step_returns_iff hsucceeds hmove).mpr haccepts
      refine ⟨hzero.append hreturns, fun hstopped => ?_⟩
      by_cases hbefore : d.node.loc = .stopped
      · obtain ⟨code, hneg, hmem⟩ := hculprit hbefore
        exact ⟨code, hneg, List.mem_append_left _ hmem⟩
      · obtain ⟨handler, code, hneg, hmem⟩ := Daemon.step_stopped hbefore hmove hstopped
        have hother : handler = .other := by
          by_contra hnot
          have hcode := hreturns handler code hmem hnot
          omega
        exact ⟨code, hneg, List.mem_append_right _ (hother ▸ hmem)⟩
  exact ⟨hkept.1, hkept.2, fun record now ok hbad => dispatch_malformed hbad now ok,
    fun datagram ip now hbad => handleBroadcast_malformed hbad ip now⟩

section OneDatagram

def loneConfig : RouteConfig where
  current := ⟨.ofBytes [97], 1⟩
  prev := ⟨.ofBytes [97], 1⟩
  next := ⟨.ofBytes [97], 1⟩

def strangerAddr : SockAddr := ⟨2, 9, 9⟩

/-- The bytes of a `MESSAGE` frame with the bit 0, in either byte order. -/
def messageDatagram (record : Bytes) : Bytes := List.replicate headerSize 0 ++ record

def unicastWire (typeByte lenHigh lenLow : UInt8) (payload : Bytes) : Bytes :=
  [0, typeByte, lenHigh, lenLow] ++ payload ++
    List.replicate (maxUnicastPayload - payload.length) 0

/-- A pass of the loop up to the end of `rudp_recvfrom`, which receives one
message and gets no `ACK_ACK` for it. -/
def receiveOne (record : Bytes) : List DaemonEvent :=
  [.ring (.joinAckSenderTick 0 (fun _ => true)), .ring (.pruneJoins 0),
    .ring (.joinFsmRequestTick 0 true), .ring (.joinFsmInflightTick 0 (fun _ => true)),
    .ring .selectReady, .unicastRecv [] 0 (fun _ => true),
    .system (.recvfrom strangerAddr (messageDatagram record) true) 0 (fun _ => true)] ++
  (List.replicate maxTransmisionAttempts [.system (.sendto true) 0 (fun _ => true),
    .system .timeout 0 (fun _ => true)]).flatten

/-- One datagram whose record announces 65535 bytes ends the loop. -/
theorem one_datagram_stops_node :
    ∃ run, Lts.exec (Lts.logged (Daemon.step .little)) (Daemon.start loneConfig true false 0, [])
        (receiveOne (unicastWire 1 255 255 [])) = some run ∧
      (receiveOne (unicastWire 1 255 255 [])).all DaemonEvent.succeeds = true ∧
      (.handleUnicastIfReady, -1) ∈ run.2 ∧ run.1.node.loc = .stopped := by
  have hexec : (Lts.exec (Lts.logged (Daemon.step .little))
      (Daemon.start loneConfig true false 0, [])
      (receiveOne (unicastWire 1 255 255 []))).map
        (fun run => (decide ((.handleUnicastIfReady, -1) ∈ run.2), run.1.node.loc)) =
      some (true, .stopped) := by
    decide +kernel
  obtain ⟨run, hrun, hfacts⟩ := Option.map_eq_some_iff.mp hexec
  obtain ⟨hreturn, hstopped⟩ := Prod.mk.inj hfacts
  exact ⟨run, hrun, by decide +kernel, of_decide_eq_true hreturn, hstopped⟩

/-- A node takes in an acknowledgement, and ignores a broadcast that is cut
off. -/
theorem acknowledgement_received :
    ∃ run, Lts.Reaches (Lts.logged (Daemon.step .little)) (Accepted .little)
        (Daemon.start loneConfig true false 0, []) run ∧
      run.1.node.loc = .cli ∧ ReceiversReturnZero run.2 := by
  have hexec : (Lts.exec (Lts.restrict
      (fun run event => event.succeeds && run.1.accepts .little event)
      (Lts.logged (Daemon.step .little))) (Daemon.start loneConfig true false 0, [])
      (receiveOne (unicastWire 5 0 36 ([0, 0, 0, 7, 97] ++ List.replicate 31 0)) ++
        [.ring (.joinFsmMaybeComplete false), .ring (.joinFsmMaybeComplete false),
          .broadcast (some ([170, 170, 187, 187, 0, 1], 9)) 0])).map
      (fun run => run.1.node.loc) = some .cli := by
    decide +kernel
  obtain ⟨run, hrun, hloc⟩ := Option.map_eq_some_iff.mp hexec
  have hreach : Lts.Reaches (Lts.logged (Daemon.step .little)) (Accepted .little)
      (Daemon.start loneConfig true false 0, []) run :=
    Lts.reaches_of_exec_restrict (fun _ _ h => by simpa [Accepted] using h) hrun
  exact ⟨run, hreach, hloc, (datagrams_stop_nothing .little hreach).1⟩

end OneDatagram

end TokenRing
