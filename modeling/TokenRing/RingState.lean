import TokenRing.JoinState

/-!
`ring.h`: the state of one node, and what a handler does to the outside world.
The handlers are functions from the state to the new state and the list of
their effects, in the order in which the source performs them.
-/

namespace TokenRing

/-- A `ring_state_t`. -/
structure RingState where
  config : RouteConfig
  joined : Bool
  lastSeenTopoVersion : UInt32
  joinState : JoinState
  joinInflight : JoinInflight
  ackSender : JoinAckSender
  joinRequestId : UInt32
  joinRequestLastSent : Int
  joinRequestRetries : Nat
  tokenIn : Token
  haveToken : Bool
  cliPending : Token
  haveCliPending : Bool

/-- `init_ring_state`. -/
def RingState.init (config : RouteConfig) (joined : Bool) : RingState where
  config := config
  joined := joined
  lastSeenTopoVersion := 0
  joinState := .zero
  joinInflight := .zero
  ackSender := .zero
  joinRequestId := 0
  joinRequestLastSent := 0
  joinRequestRetries := 0
  tokenIn := .zero
  haveToken := false
  cliPending := .zero
  haveCliPending := false

/-- The effects of a handler. `unicast` is one call of `unicast_send_limited`
with the outcome `ok`, true for the return value 0. `received` and `attached`
are the two reports of `ring_on_token`, and `cliRead` is a record taken out of
the FIFO. -/
inductive Effect where
  | unicast (dst : Route) (msg : UnicastMsg) (ok : Bool)
  | broadcast (msg : BroadcastMsg)
  | received (token : Token)
  | attached (record : Token)
  | cliRead (record : Token)
deriving DecidableEq

/-- An acknowledgement record that goes on: it repeats at most what it
repeated before, and no longer. -/
structure JoinAckSender.Wanes (before after : JoinAckSender) : Prop where
  active : after.active = true → before.active = true
  requestId : after.requestId = before.requestId
  coordName : after.coordName = before.coordName
  coordUnicastPort : after.coordUnicastPort = before.coordUnicastPort
  gotAckAck : after.gotAckAck = false → before.gotAckAck = false
  retries : before.retries ≤ after.retries

theorem JoinAckSender.Wanes.refl (sender : JoinAckSender) : sender.Wanes sender :=
  ⟨id, rfl, rfl, rfl, id, le_rfl⟩

end TokenRing
