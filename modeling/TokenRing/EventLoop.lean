import TokenRing.UnicastDispatch
import TokenRing.Broadcast

/-!
`ring.c`: the token, the acknowledgement timer and the event loop. A pass of
the loop is a walk through its program points; at each of them the environment
chooses what the system calls return.
-/

namespace TokenRing

/-- `cli_pending` after its record was attached. -/
def Token.consumed (token : Token) : Token :=
  { Token.zero with topoVersion := token.topoVersion, isEmpty := true }

/-- The first part of `ring_on_token`: a full token for this node is emptied. -/
def takeOwnMessage (state : RingState) : Token × List Effect :=
  let out := state.tokenIn
  if out.isEmpty = false ∧ out.receiver = state.config.current.nodeName then
    ({ Token.zero with topoVersion := out.topoVersion, isEmpty := true }, [.received out])
  else
    (out, [])

/-- The second part of `ring_on_token`: the waiting CLI record is attached to
an empty token. -/
def attachCli (state : RingState) (out : Token) : Token × RingState × List Effect :=
  if state.haveCliPending && out.isEmpty then
    ({ state.cliPending with topoVersion := state.lastSeenTopoVersion },
      { state with
        haveCliPending := false
        cliPending := state.cliPending.consumed },
      [.attached state.cliPending])
  else
    (out, state, [])

/-- `ring_on_token`. When the send fails the token stays, for a retry. -/
def ringOnToken (state : RingState) (ok : Nat → Bool) : RingState × List Effect :=
  let (taken, reports) := takeOwnMessage state
  let (out, attached, attachments) := attachCli state taken
  let send := Effect.unicast state.config.next (.token out) (ok 0)
  if ok 0 then
    ({ attached with haveToken := false, tokenIn := .zero }, reports ++ attachments ++ [send])
  else
    (attached, reports ++ attachments ++ [send])

/-- `maybe_send_initial_token`; `shouldStart` is the presence of the
environment variable. -/
def maybeSendInitialToken (state : RingState) (shouldStart : Bool) : RingState :=
  if !shouldStart || !state.joined then
    state
  else if state.haveToken then
    state
  else
    { state with
      tokenIn := { Token.zero with isEmpty := true, topoVersion := state.lastSeenTopoVersion }
      haveToken := true }

/-- `handle_cli_if_ready` when the FIFO is readable: the record is read only
while the stored token is marked empty. -/
def handleCliIfReady (state : RingState) (record : Token) : RingState × List Effect :=
  if !state.tokenIn.isEmpty then
    (state, [])
  else
    ({ state with cliPending := record, haveCliPending := true }, [.cliRead record])

/-- `handle_token_if_ready`. -/
def handleTokenIfReady (state : RingState) (now : Int) (ok : Nat → Bool) :
    RingState × List Effect :=
  if !state.joined || !state.haveToken then
    (state, [])
  else if state.joinInflight.active then
    (state, [])
  else if state.joinState.count > 0 then
    match state.joinState.popOldestPendingJoin with
    | some (pending, joinState) =>
        joinFsmInflightTick
          (joinFsmStartInflight { state with joinState := joinState } pending) now ok
    | none => (state, [])
  else
    ringOnToken state ok

/-- `join_ack_sender_tick`. -/
def joinAckSenderTick (state : RingState) (now : Int) (ok : Nat → Bool) :
    RingState × List Effect :=
  if !state.ackSender.active then
    (state, [])
  else if state.ackSender.gotAckAck then
    ({ state with ackSender := { state.ackSender with active := false } }, [])
  else if state.ackSender.lastSent ≠ 0 ∧ now - state.ackSender.lastSent < joinAckResendS then
    (state, [])
  else if state.ackSender.retries ≥ joinAckMaxRetries then
    ({ state with ackSender := { state.ackSender with active := false } }, [])
  else
    ({ state with
        ackSender :=
          { state.ackSender with lastSent := now, retries := state.ackSender.retries + 1 } },
      [.unicast ⟨state.ackSender.coordName, state.ackSender.coordUnicastPort⟩
        (.joinAck state.ackSender.requestId state.config.current.nodeName) (ok 0)])

/-- The program points of `ring_run`. `requestInit` is the tick that
`init_join_request_if_needed` makes before the loop. -/
inductive Loc where
  | requestInit
  | ackSender
  | prune
  | requestTick
  | inflightTick
  | selectResult
  | unicast
  | unicastComplete
  | complete
  | broadcast
  | cli
  | token
  | stopped
deriving DecidableEq

/-- What happens at a program point: the handler that runs, with the clock and
the results of the system calls it makes. -/
inductive Event where
  | joinFsmRequestTick (now : Int) (sent : Bool)
  | joinAckSenderTick (now : Int) (ok : Nat → Bool)
  | pruneJoins (now : Int)
  | joinFsmInflightTick (now : Int) (ok : Nat → Bool)
  | selectReady
  | selectInterrupted
  | selectFailed
  | unicastIdle
  | unicastFailed
  | unicastMessage (msg : UnicastMsg) (now : Int) (ok : Nat → Bool)
  | joinFsmMaybeComplete (morePending : Bool)
  | broadcastIdle
  | broadcastFailed
  | broadcastMessage (msg : BroadcastMsg) (ip : UInt32) (now : Int)
  | cliIdle
  | cliFailed
  | cliRecord (record : Token)
  | handleTokenIfReady (now : Int) (ok : Nat → Bool)

/-- The state change and effects of an event; `none` is a negative return
value, on which `ring_run` leaves its loop. -/
def Event.handle (state : RingState) : Event → Option (RingState × List Effect)
  | .joinFsmRequestTick now sent => TokenRing.joinFsmRequestTick state now sent
  | .joinAckSenderTick now ok => some (TokenRing.joinAckSenderTick state now ok)
  | .pruneJoins now =>
      some ({ state with joinState := state.joinState.pruneJoins now joinPendingTtlS }, [])
  | .joinFsmInflightTick now ok => some (TokenRing.joinFsmInflightTick state now ok)
  | .selectReady | .selectInterrupted => some (state, [])
  | .selectFailed => none
  | .unicastIdle => some (state, [])
  | .unicastFailed => none
  | .unicastMessage msg now ok => some (unicastDispatchMessage state msg now ok)
  | .joinFsmMaybeComplete _ => some (joinFsmTryComplete state)
  | .broadcastIdle => some (state, [])
  | .broadcastFailed => none
  | .broadcastMessage msg ip now => some (handleBroadcast state msg ip now, [])
  | .cliIdle => some (state, [])
  | .cliFailed => none
  | .cliRecord record => some (handleCliIfReady state record)
  | .handleTokenIfReady now ok => some (TokenRing.handleTokenIfReady state now ok)

/-- The control flow of `ring_run`: which events can happen at a program point
and where the loop goes on. -/
def Event.goesTo : Loc → Event → Option Loc
  | .requestInit, .joinFsmRequestTick _ _ => some .ackSender
  | .ackSender, .joinAckSenderTick _ _ => some .prune
  | .prune, .pruneJoins _ => some .requestTick
  | .requestTick, .joinFsmRequestTick _ _ => some .inflightTick
  | .inflightTick, .joinFsmInflightTick _ _ => some .selectResult
  | .selectResult, .selectReady => some .unicast
  | .selectResult, .selectInterrupted => some .ackSender
  | .selectResult, .selectFailed => some .stopped
  | .unicast, .unicastIdle => some .complete
  | .unicast, .unicastFailed => some .stopped
  | .unicast, .unicastMessage _ _ _ => some .unicastComplete
  | .unicastComplete, .joinFsmMaybeComplete morePending =>
      some (if morePending then .unicast else .complete)
  | .complete, .joinFsmMaybeComplete _ => some .broadcast
  | .broadcast, .broadcastIdle => some .cli
  | .broadcast, .broadcastFailed => some .stopped
  | .broadcast, .broadcastMessage _ _ _ => some .cli
  | .cli, .cliIdle => some .token
  | .cli, .cliFailed => some .stopped
  | .cli, .cliRecord _ => some .token
  | .token, .handleTokenIfReady _ _ => some .ackSender
  | _, _ => none

/-- A node: its state and its place in `ring_run`. -/
structure Node where
  state : RingState
  loc : Loc

/-- One step of `ring_run`. -/
def Node.step (node : Node) (event : Event) : Option (Node × List Effect) :=
  match event.goesTo node.loc with
  | none => none
  | some loc =>
      match event.handle node.state with
      | none => some (⟨node.state, .stopped⟩, [])
      | some (state, out) => some (⟨state, loc⟩, out)

/-- A node at the start of its loop: initialised, with the id it will request
to join under, and with the first token when it is the starter. -/
def Node.start (config : RouteConfig) (joined shouldStart : Bool) (requestId : UInt32) :
    Node :=
  let state := RingState.init config joined
  if joined then
    ⟨maybeSendInitialToken state shouldStart, .ackSender⟩
  else
    ⟨{ state with joinRequestId := requestId }, .requestInit⟩

/-- The initial values that invariants start from. -/
theorem Node.start_state (config : RouteConfig) (joined shouldStart : Bool)
    (requestId : UInt32) :
    ∃ tokenIn, tokenIn.topoVersion = 0 ∧
      (Node.start config joined shouldStart requestId).state =
        { RingState.init config joined with
          joinRequestId := if joined then 0 else requestId
          tokenIn := tokenIn
          haveToken := joined && shouldStart } := by
  cases joined with
  | false => exact ⟨.zero, rfl, rfl⟩
  | true =>
      cases shouldStart with
      | false => exact ⟨.zero, rfl, rfl⟩
      | true => exact ⟨{ Token.zero with isEmpty := true, topoVersion := 0 }, rfl, rfl⟩

/-- A step of `ring_run` runs the handler of its event, or stops the loop and
leaves the state as it is. -/
theorem Node.step_cases {node node' : Node} {event : Event} {out : List Effect}
    (h : node.step event = some (node', out)) :
    event.handle node.state = some (node'.state, out) ∨
      (event.handle node.state = none ∧ node'.state = node.state ∧ out = []) := by
  unfold Node.step at h
  split at h
  · cases h
  · cases hhandle : event.handle node.state with
    | none =>
        simp only [hhandle, Option.some.injEq, Prod.mk.injEq] at h
        obtain ⟨rfl, rfl⟩ := h
        exact .inr ⟨rfl, rfl, rfl⟩
    | some result =>
        simp only [hhandle, Option.some.injEq, Prod.mk.injEq] at h
        obtain ⟨rfl, rfl⟩ := h
        exact .inl rfl

theorem joinAckSenderTick_cases (state : RingState) (now : Int) (ok : Nat → Bool) :
    joinAckSenderTick state now ok = (state, []) ∨
      (state.ackSender.active = true ∧ joinAckSenderTick state now ok =
        ({ state with ackSender := { state.ackSender with active := false } }, [])) ∨
      (state.ackSender.active = true ∧ state.ackSender.gotAckAck = false ∧
        state.ackSender.retries < joinAckMaxRetries ∧
        joinAckSenderTick state now ok =
          ({ state with
              ackSender :=
                { state.ackSender with
                  lastSent := now, retries := state.ackSender.retries + 1 } },
            [.unicast ⟨state.ackSender.coordName, state.ackSender.coordUnicastPort⟩
              (.joinAck state.ackSender.requestId state.config.current.nodeName)
              (ok 0)])) := by
  unfold joinAckSenderTick
  by_cases hactive : state.ackSender.active = true
  · rw [if_neg (by simp [hactive])]
    by_cases hgot : state.ackSender.gotAckAck = true
    · rw [if_pos hgot]
      exact .inr (.inl ⟨hactive, rfl⟩)
    · rw [if_neg hgot]
      split
      · exact .inl rfl
      · split
        · exact .inr (.inl ⟨hactive, rfl⟩)
        · exact .inr (.inr ⟨hactive, by simpa using hgot, by omega, rfl⟩)
  · exact .inl (by simp [hactive])

/-- What `handle_token_if_ready` can do: nothing, start the join of the oldest
waiting node, or pass the token on. -/
theorem handleTokenIfReady_cases (state : RingState) (now : Int) (ok : Nat → Bool) :
    handleTokenIfReady state now ok = (state, []) ∨
      (state.joined = true ∧ state.haveToken = true ∧ state.joinInflight.active = false ∧
        ∃ pending joinState,
          state.joinState.popOldestPendingJoin = some (pending, joinState) ∧
          handleTokenIfReady state now ok =
            joinFsmInflightTick
              (joinFsmStartInflight { state with joinState := joinState } pending) now ok) ∨
      (state.joined = true ∧ state.haveToken = true ∧ state.joinInflight.active = false ∧
        ¬ state.joinState.count > 0 ∧
        handleTokenIfReady state now ok = ringOnToken state ok) := by
  unfold handleTokenIfReady
  by_cases hholds : state.joined = true ∧ state.haveToken = true
  · rw [if_neg (by simp [hholds])]
    by_cases hactive : state.joinInflight.active = true
    · exact .inl (by rw [if_pos hactive])
    · rw [if_neg hactive]
      have hidle : state.joinInflight.active = false := by simpa using hactive
      by_cases hcount : state.joinState.count > 0
      · rw [if_pos hcount]
        cases hpop : state.joinState.popOldestPendingJoin with
        | none => exact .inl rfl
        | some popped =>
            exact .inr (.inl ⟨hholds.1, hholds.2, hidle, popped.1, popped.2, rfl, rfl⟩)
      · rw [if_neg hcount]
        exact .inr (.inr ⟨hholds.1, hholds.2, hidle, hcount, rfl⟩)
  · refine .inl ?_
    rw [if_pos]
    cases hj : state.joined <;> cases ht : state.haveToken <;> simp_all

/-- The token that `ring_on_token` sends, and what is left at the node. -/
theorem ringOnToken_cases (state : RingState) (ok : Nat → Bool) :
    ∃ reports out cliPending haveCliPending,
      (∀ effect ∈ reports, (∃ token, effect = Effect.received token) ∨
        (∃ record, effect = Effect.attached record)) ∧
      (out.topoVersion = state.tokenIn.topoVersion ∨
        out.topoVersion = state.lastSeenTopoVersion) ∧
      ringOnToken state ok =
        ({ state with
            haveToken := state.haveToken && !ok 0
            tokenIn := if ok 0 then .zero else state.tokenIn
            cliPending := cliPending
            haveCliPending := haveCliPending },
          reports ++ [.unicast state.config.next (.token out) (ok 0)]) := by
  have htaken : (takeOwnMessage state).1.topoVersion = state.tokenIn.topoVersion ∧
      ∀ effect ∈ (takeOwnMessage state).2, ∃ token, effect = Effect.received token := by
    unfold takeOwnMessage
    simp only
    split <;> simp
  obtain ⟨hversion, hreports⟩ := htaken
  unfold ringOnToken attachCli
  by_cases hattach : (state.haveCliPending && (takeOwnMessage state).1.isEmpty) = true
  · refine ⟨(takeOwnMessage state).2 ++ [.attached state.cliPending],
      { state.cliPending with topoVersion := state.lastSeenTopoVersion },
      state.cliPending.consumed, false, ?_, .inr rfl, ?_⟩
    · intro effect member
      rcases List.mem_append.mp member with hold | hnew
      · exact .inl (hreports effect hold)
      · exact .inr ⟨_, List.mem_singleton.mp hnew⟩
    · simp only [hattach, if_true]
      cases ok 0 <;> simp
  · refine ⟨(takeOwnMessage state).2, (takeOwnMessage state).1, state.cliPending,
      state.haveCliPending, ?_, .inl hversion, ?_⟩
    · exact fun effect member => .inl (hreports effect member)
    · simp only [hattach]
      cases ok 0 <;> simp

end TokenRing
