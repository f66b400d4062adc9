import TokenRing.Lib.Lts
import TokenRing.Transition

/-!
The nodes that take part in one join, and the messages under way between them.
The network loses, repeats, delays and reorders messages at will; what a send
returns says nothing about the message, for a lost acknowledgement fails a
send whose message arrived.
-/

namespace TokenRing

/-- A message under way: a unicast message with the address it goes to, or a
broadcast. -/
inductive Packet where
  | unicast (dst : Route) (msg : UnicastMsg)
  | broadcast (msg : BroadcastMsg)
deriving DecidableEq

structure Net (ι : Type*) where
  state : ι → RingState
  flight : List Packet

/-- One handler call at a node, or something the network does. -/
inductive NetEvent (ι : Type*) where
  | run (i : ι) (event : Event)
  | lose (packet : Packet)
  | duplicate (packet : Packet)

variable {ι : Type*}

def NetEvent.isLoss : NetEvent ι → Bool
  | .lose _ => true
  | _ => false

/-- The handlers that run while a join is in flight: the timers, the receipt
of a message and the completion that follows it. -/
def Event.ofJoin : Event → Bool
  | .joinFsmRequestTick _ _ | .joinFsmInflightTick _ _ | .joinAckSenderTick _ _
  | .pruneJoins _ | .joinFsmMaybeComplete _ | .unicastMessage _ _ _
  | .broadcastMessage _ _ _ => true
  | _ => false

/-- The packets left when the node at this address handles the event; `none`
when the event is not part of a join or its message is not there. A broadcast
stays under way for the other nodes. -/
def packetsLeft (flight : List Packet) (self : Route) (event : Event) : Option (List Packet) :=
  match event with
  | .unicastMessage msg _ _ =>
      if .unicast self msg ∈ flight then some (flight.erase (.unicast self msg)) else none
  | .broadcastMessage msg _ _ => if .broadcast msg ∈ flight then some flight else none
  | _ => if event.ofJoin then some flight else none

/-- The message that an effect puts under way. -/
def Effect.packet : Effect → Option Packet
  | .unicast dst msg _ => some (.unicast dst msg)
  | .broadcast msg => some (.broadcast msg)
  | _ => none

def Net.step [DecidableEq ι] (net : Net ι) : NetEvent ι → Option (Net ι)
  | .run i event =>
      match packetsLeft net.flight (net.state i).config.current event,
          event.handle (net.state i) with
      | some left, some (state, out) =>
          some ⟨Function.update net.state i state, left ++ out.filterMap Effect.packet⟩
      | _, _ => none
  | .lose packet =>
      if packet ∈ net.flight then some { net with flight := net.flight.erase packet } else none
  | .duplicate packet =>
      if packet ∈ net.flight then some { net with flight := packet :: net.flight } else none

/-- What a handler call does to the net. -/
structure Net.Runs (net : Net ι) (i : ι) (event : Event) (out : List Effect)
    (net' : Net ι) : Prop where
  ofJoin : event.ofJoin = true
  transition : Transition (net.state i) event (net'.state i) out
  others : ∀ j, j ≠ i → net'.state j = net.state j
  received : ∀ msg now ok, event = .unicastMessage msg now ok →
    .unicast (net.state i).config.current msg ∈ net.flight
  heard : ∀ msg ip now, event = .broadcastMessage msg ip now → .broadcast msg ∈ net.flight
  flight : ∀ packet ∈ net'.flight, packet ∈ net.flight ∨
    ∃ effect ∈ out, effect.packet = some packet

theorem Net.Runs.sent {net net' : Net ι} {i : ι} {event : Event} {out : List Effect}
    (h : net.Runs i event out net') {tells : Packet → Prop}
    (hout : ∀ effect ∈ out, ∀ packet, effect.packet = some packet → tells packet) :
    ∀ packet ∈ net'.flight, packet ∈ net.flight ∨ tells packet := by
  intro packet hmem
  rcases h.flight packet hmem with hold | ⟨effect, hsent, hpacket⟩
  · exact .inl hold
  · exact .inr (hout effect hsent packet hpacket)

theorem packetsLeft_some {flight left : List Packet} {self : Route} {event : Event}
    (h : packetsLeft flight self event = some left) :
    event.ofJoin = true ∧ (∀ packet ∈ left, packet ∈ flight) ∧
      (∀ msg now ok, event = .unicastMessage msg now ok → .unicast self msg ∈ flight) ∧
      ∀ msg ip now, event = .broadcastMessage msg ip now → .broadcast msg ∈ flight := by
  unfold packetsLeft at h
  split at h
  · split at h
    · rename_i hmem
      cases h
      refine ⟨rfl, fun packet => List.mem_of_mem_erase, fun msg now ok heq => ?_, nofun⟩
      cases heq
      exact hmem
    · cases h
  · split at h
    · rename_i hmem
      cases h
      refine ⟨rfl, fun _ => id, nofun, fun msg ip now heq => ?_⟩
      cases heq
      exact hmem
    · cases h
  · rename_i hunicast hbroadcast
    split at h
    · rename_i hjoin
      cases h
      exact ⟨hjoin, fun _ => id, fun msg now ok heq => (hunicast msg now ok heq).elim,
        fun msg ip now heq => (hbroadcast msg ip now heq).elim⟩
    · cases h

theorem Net.step_run [DecidableEq ι] {net : Net ι} {i : ι} {event : Event}
    {left : List Packet} {state : RingState} {out : List Effect}
    (hleft : packetsLeft net.flight (net.state i).config.current event = some left)
    (hhandle : event.handle (net.state i) = some (state, out)) :
    net.step (.run i event) =
      some ⟨Function.update net.state i state, left ++ out.filterMap Effect.packet⟩ := by
  simp [Net.step, hleft, hhandle]

/-- A step is a handler call, or it changes only which packets are under way,
and adds none but copies. -/
theorem Net.step_cases [DecidableEq ι] {net net' : Net ι} {e : NetEvent ι}
    (h : net.step e = some net') :
    (∃ i event out, e = .run i event ∧ net.Runs i event out net') ∨
      (net'.state = net.state ∧ ∀ packet ∈ net'.flight, packet ∈ net.flight) := by
  cases e with
  | run i event =>
      unfold Net.step at h
      cases hleft : packetsLeft net.flight (net.state i).config.current event with
      | none => simp [hleft] at h
      | some left =>
          cases hhandle : event.handle (net.state i) with
          | none => simp [hleft, hhandle] at h
          | some result =>
              obtain ⟨state, out⟩ := result
              simp only [hleft, hhandle, Option.some.injEq] at h
              subst h
              obtain ⟨hjoin, hsub, hreceived, hheard⟩ := packetsLeft_some hleft
              refine .inl ⟨i, event, out, rfl, hjoin, ?_, ?_, hreceived, hheard,
                fun packet hmem => ?_⟩
              · simpa using event.handle_transition hhandle
              · intro j hj
                simp [Function.update_of_ne hj]
              · rcases List.mem_append.mp hmem with hold | hnew
                · exact .inl (hsub packet hold)
                · exact .inr (List.mem_filterMap.mp hnew)
  | lose packet =>
      simp only [Net.step] at h
      split at h
      · cases h
        exact .inr ⟨rfl, fun packet => List.mem_of_mem_erase⟩
      · cases h
  | duplicate packet =>
      simp only [Net.step] at h
      split at h
      · rename_i hmem
        cases h
        refine .inr ⟨rfl, fun other hother => ?_⟩
        rcases List.mem_cons.mp hother with rfl | hold
        · exact hmem
        · exact hold
      · cases h

end TokenRing
