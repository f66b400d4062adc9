import Mathlib.Algebra.BigOperators.Group.Finset.Basic
import Mathlib.GroupTheory.Perm.Cycle.Basic
import TokenRing.Lib.Lts
import TokenRing.Transition

/-!
Any number of nodes, the messages in their inboxes and the broadcasts sent. A
step is one step of one node's event loop. A unicast send that returns 0 puts
one copy into the inbox of the node with that name and port, and one that
returns -1 puts none; inboxes are unordered. A broadcast is heard by any node,
any number of times or never.
-/

namespace TokenRing

/-- How the nodes are started: the members form one ring, the starter is one
of them, and the other nodes will ask to join. -/
structure Deployment (ι : Type*) where
  self : ι → Route
  member : ι → Bool
  next : Equiv.Perm ι
  starter : ι
  requestId : ι → UInt32
  names_distinct : ∀ i j, (self i).nodeName = (self j).nodeName → i = j
  ids_distinct : ∀ i j, member i = false → member j = false →
    requestId i = requestId j → i = j
  ring : next.IsCycleOn {i | member i = true}
  starter_member : member starter = true

structure World (ι : Type*) where
  node : ι → Node
  inbox : ι → List UnicastMsg
  announced : List BroadcastMsg

variable {ι : Type*}

def World.state (w : World ι) (i : ι) : RingState := (w.node i).state

/-- The routes a node is started with; those of a node that has not joined
are zeroed. -/
def Deployment.config (d : Deployment ι) (i : ι) : RouteConfig :=
  if d.member i then ⟨d.self i, d.self (d.next.symm i), d.self (d.next i)⟩
  else ⟨d.self i, Route.zero, Route.zero⟩

def Deployment.start [DecidableEq ι] (d : Deployment ι) : World ι where
  node i := Node.start (d.config i) (d.member i) (i = d.starter) (d.requestId i)
  inbox _ := []
  announced := []

/-- The copy that an effect puts into the inbox of the node at an address. -/
def Effect.copyFor (self : Route) : Effect → Option UnicastMsg
  | .unicast dst msg true => if dst = self then some msg else none
  | _ => none

/-- The copies that the successful sends put into the inbox of one node. -/
def delivered (self : Route) (out : List Effect) : List UnicastMsg :=
  out.filterMap (Effect.copyFor self)

def announcements (out : List Effect) : List BroadcastMsg :=
  out.filterMap (fun effect =>
    match effect with
    | .broadcast msg => some msg
    | _ => none)

/-- The inbox after the event, before new messages arrive. -/
def Event.takeFrom (inbox : List UnicastMsg) : Event → List UnicastMsg
  | .unicastMessage msg _ _ => inbox.erase msg
  | _ => inbox

/-- The message an event hands to the node is there to be received. -/
def World.Offers (w : World ι) (i : ι) : Event → Prop
  | .unicastMessage msg _ _ => msg ∈ w.inbox i
  | .broadcastMessage msg _ _ => msg ∈ w.announced
  | _ => True

instance (w : World ι) (i : ι) (event : Event) : Decidable (w.Offers i event) :=
  match event with
  | .unicastMessage msg _ _ => inferInstanceAs (Decidable (msg ∈ w.inbox i))
  | .broadcastMessage msg _ _ => inferInstanceAs (Decidable (msg ∈ w.announced))
  | .joinFsmRequestTick _ _ | .joinAckSenderTick _ _ | .pruneJoins _
  | .joinFsmInflightTick _ _ | .selectReady | .selectInterrupted | .selectFailed
  | .unicastIdle | .unicastFailed | .joinFsmMaybeComplete _ | .broadcastIdle
  | .broadcastFailed | .cliIdle | .cliFailed | .cliRecord _ | .handleTokenIfReady _ _ =>
      isTrue trivial

/-- The address of a successful send. -/
def Effect.reached : Effect → Option Route
  | .unicast dst _ true => some dst
  | _ => none

/-- Every send that returned 0 went to the address of some node. -/
def World.Addressed (w : World ι) (out : List Effect) : Prop :=
  ∀ dst ∈ out.filterMap Effect.reached, ∃ i, (w.state i).config.current = dst

instance [Fintype ι] (w : World ι) (out : List Effect) : Decidable (w.Addressed out) :=
  inferInstanceAs (Decidable (∀ dst ∈ _, ∃ i, (w.state i).config.current = dst))

/-- One step of the event loop of one node. -/
def World.step [Fintype ι] [DecidableEq ι] (w : World ι) (label : ι × Event) :
    Option (World ι) :=
  match (w.node label.1).step label.2 with
  | none => none
  | some (node, out) =>
      if w.Offers label.1 label.2 ∧ w.Addressed out then
        some {
          node := Function.update w.node label.1 node
          inbox := fun j =>
            (if j = label.1 then label.2.takeFrom (w.inbox j) else w.inbox j) ++
              delivered (w.state j).config.current out
          announced := w.announced ++ announcements out }
      else
        none

/-- What a step of the world is: a transition of one node, with its messages
taken from and put into the inboxes. -/
structure World.Moves (w : World ι) (i : ι) (event : Event) (out : List Effect)
    (w' : World ι) : Prop where
  transition : Transition (w.state i) event (w'.state i) out
  others : ∀ j, j ≠ i → w'.state j = w.state j
  offers : w.Offers i event
  addressed : w.Addressed out
  inbox_self : w'.inbox i =
    event.takeFrom (w.inbox i) ++ delivered (w.state i).config.current out
  inbox_other : ∀ j, j ≠ i →
    w'.inbox j = w.inbox j ++ delivered (w.state j).config.current out
  announced : w'.announced = w.announced ++ announcements out

theorem World.moves_of_node_step [Fintype ι] [DecidableEq ι] {w w' : World ι} {i : ι}
    {event : Event} {node : Node} {out : List Effect}
    (hnode : (w.node i).step event = some (node, out)) (h : w.step (i, event) = some w') :
    w.Moves i event out w' := by
  unfold World.step at h
  simp only [hnode] at h
  split at h
  · rename_i hgood
    cases h
    refine ⟨?_, ?_, hgood.1, hgood.2, ?_, ?_, rfl⟩
    · simp only [World.state, Function.update_self]
      rcases Node.step_cases hnode with hhandle | ⟨hstopped, hsame, rfl⟩
      · exact event.handle_transition hhandle
      · rw [hsame]
        refine .idle _ ?_
        cases event with
        | unicastMessage msg now ok => cases hstopped
        | _ => rfl
    · intro j hj
      simp [World.state, Function.update_of_ne hj]
    · simp
    · intro j hj
      simp [hj]
  · cases h

theorem World.moves_of_step [Fintype ι] [DecidableEq ι] {w w' : World ι} {label : ι × Event}
    (h : w.step label = some w') : ∃ out, w.Moves label.1 label.2 out w' := by
  obtain ⟨i, event⟩ := label
  cases hnode : (w.node i).step event with
  | none => simp [World.step, hnode] at h
  | some result => exact ⟨result.2, World.moves_of_node_step hnode h⟩

section Messages

/-- A message is new in an inbox only by a successful send to that node. -/
theorem mem_delivered {self : Route} {out : List Effect} {msg : UnicastMsg}
    (h : msg ∈ delivered self out) : .unicast self msg true ∈ out := by
  obtain ⟨effect, member, hsome⟩ := List.mem_filterMap.mp h
  unfold Effect.copyFor at hsome
  split at hsome
  · split at hsome
    · rename_i hdst
      cases hsome
      rwa [← hdst]
    · cases hsome
  · cases hsome

theorem mem_announcements {out : List Effect} {msg : BroadcastMsg} :
    msg ∈ announcements out ↔ .broadcast msg ∈ out := by
  constructor
  · intro h
    obtain ⟨effect, member, hsome⟩ := List.mem_filterMap.mp h
    split at hsome
    · cases hsome
      exact member
    · cases hsome
  · intro member
    exact List.mem_filterMap.mpr ⟨_, member, rfl⟩

theorem Event.mem_takeFrom {event : Event} {inbox : List UnicastMsg} {msg : UnicastMsg}
    (h : msg ∈ event.takeFrom inbox) : msg ∈ inbox := by
  cases event with
  | unicastMessage taken now ok => exact List.mem_of_mem_erase h
  | _ => exact h

/-- Every message of an inbox was there before the step or was sent in it. -/
theorem World.Moves.mem_inbox {w w' : World ι} {i : ι} {event : Event} {out : List Effect}
    (h : w.Moves i event out w') {j : ι} {msg : UnicastMsg} (hmsg : msg ∈ w'.inbox j) :
    msg ∈ w.inbox j ∨ .unicast (w.state j).config.current msg true ∈ out := by
  by_cases hj : j = i
  · subst hj
    rw [h.inbox_self] at hmsg
    rcases List.mem_append.mp hmsg with hold | hnew
    · exact .inl (Event.mem_takeFrom hold)
    · exact .inr (mem_delivered hnew)
  · rw [h.inbox_other j hj] at hmsg
    rcases List.mem_append.mp hmsg with hold | hnew
    · exact .inl hold
    · exact .inr (mem_delivered hnew)

theorem mem_delivered_of_sent {self : Route} {out : List Effect} {msg : UnicastMsg}
    (h : .unicast self msg true ∈ out) : msg ∈ delivered self out :=
  List.mem_filterMap.mpr ⟨_, h, by simp [Effect.copyFor]⟩

/-- What is sent to a node with success is in its inbox. -/
theorem World.Moves.mem_inbox_of_sent {w w' : World ι} {i : ι} {event : Event}
    {out : List Effect} (h : w.Moves i event out w') {j : ι} {msg : UnicastMsg}
    (hsent : .unicast (w.state j).config.current msg true ∈ out) :
    msg ∈ w'.inbox j := by
  by_cases hj : j = i
  · subst hj
    rw [h.inbox_self]
    exact List.mem_append_right _ (mem_delivered_of_sent hsent)
  · rw [h.inbox_other j hj]
    exact List.mem_append_right _ (mem_delivered_of_sent hsent)

theorem World.Moves.mem_announced {w w' : World ι} {i : ι} {event : Event}
    {out : List Effect} (h : w.Moves i event out w') {msg : BroadcastMsg} :
    msg ∈ w'.announced ↔ msg ∈ w.announced ∨ .broadcast msg ∈ out := by
  rw [h.announced, List.mem_append, mem_announcements]

end Messages

section Identity

/-- The address of a node and the id of its request never change. -/
theorem Transition.identity {state state' : RingState} {event : Event} {out : List Effect}
    (h : Transition state event state' out) :
    state'.config.current = state.config.current ∧
      state'.joinRequestId = state.joinRequestId ∧
      (state.joined = true → state'.joined = true) := by
  cases h with
  | completed event hevent mid answers hactive hmid hprev hjoiner hanswers =>
      rcases hmid with rfl | ⟨_, _, _, _, rfl⟩ <;> exact ⟨rfl, rfl, id⟩
  | forwarded now ok hjoined htoken hidle hcount =>
      obtain ⟨reports, sent, cliPending, haveCliPending, _, _, heq⟩ := ringOnToken_cases state ok
      rw [heq]
      exact ⟨rfl, rfl, id⟩
  | acceptJoined | acceptLinked => exact ⟨rfl, rfl, fun _ => rfl⟩
  | _ => exact ⟨rfl, rfl, id⟩

variable [DecidableEq ι]

theorem Deployment.start_state (d : Deployment ι) (i : ι) :
    ∃ tokenIn, tokenIn.topoVersion = 0 ∧
      d.start.state i =
        { RingState.init (d.config i) (d.member i) with
          joinRequestId := if d.member i then 0 else d.requestId i
          tokenIn := tokenIn
          haveToken := d.member i && i = d.starter } :=
  Node.start_state _ _ _ _

variable [Fintype ι] {d : Deployment ι} {w w' : World ι}

theorem reachable_identity (h : Lts.Reachable World.step d.start w) (i : ι) :
    (w.state i).config.current = d.self i ∧
      (d.member i = false → (w.state i).joinRequestId = d.requestId i) := by
  refine h.invariant (fun w => (w.state i).config.current = d.self i ∧
    (d.member i = false → (w.state i).joinRequestId = d.requestId i)) ?_ ?_
  · obtain ⟨tokenIn, _, hstart⟩ := d.start_state i
    rw [hstart]
    refine ⟨?_, fun hmember => by simp [hmember]⟩
    simp only [RingState.init, Deployment.config]
    split <;> rfl
  · intro w label w' hsame _ hstep
    obtain ⟨out, hmoves⟩ := World.moves_of_step hstep
    by_cases hi : i = label.1
    · subst hi
      obtain ⟨hcurrent, hid, _⟩ := hmoves.transition.identity
      rw [hcurrent, hid]
      exact hsame
    · rw [hmoves.others i hi]
      exact hsame

end Identity

end TokenRing
