import Mathlib.Algebra.GroupWithZero.Nat
import Mathlib.Data.List.TakeWhile

/-!
The records of the program: names, routes, the token, the messages of the join
protocol and the state of one node. A `char[32]` name buffer that the program
keeps NUL-terminated is its C string. Fields that no function of the program
reads (`token_epoch`, `last_token_seen`) and the descriptors are left out, and
so is `broadcast_port`, which only the socket setup uses.
-/

namespace TokenRing

def maxNodeNameSize : Nat := 32
def joinAcceptTimeoutS : Int := 1
def joinAcceptRetries : Nat := 30
def joinRequestTimeoutS : Int := 10
def joinRequestRetries : Nat := 65536
def joinAckResendS : Int := 1
def joinAckMaxRetries : Nat := 30
def joinAckAckSendCount : Nat := 3
def joinPendingTtlS : Int := 200

abbrev Bytes := List UInt8

/-- The C string held by a name buffer: at most 31 characters before the NUL. -/
structure NodeName where
  chars : Bytes
  short : chars.length < maxNodeNameSize
  noNul : ∀ c ∈ chars, c ≠ 0
deriving DecidableEq

/-- `strncpy(dst, src, MAX_NODE_NAME_SIZE - 1)` followed by the terminating
NUL: the string up to the first NUL, cut to 31 characters. -/
def NodeName.ofBytes (src : Bytes) : NodeName where
  chars := (src.take (maxNodeNameSize - 1)).takeWhile (· != 0)
  short := by
    have htake : ((src.take (maxNodeNameSize - 1)).takeWhile (· != 0)).length ≤
        (src.take (maxNodeNameSize - 1)).length := (List.takeWhile_sublist _).length_le
    have hlen := List.length_take_le (maxNodeNameSize - 1) src
    simp only [maxNodeNameSize] at *
    omega
  noNul := by
    intro c hc
    simpa using List.mem_takeWhile_imp hc

/-- A `route_t`: the name and unicast port of a node. -/
structure Route where
  nodeName : NodeName
  unicastPort : UInt16
deriving DecidableEq

/-- A zeroed `route_t`, as `main` allocates them. -/
def Route.zero : Route := ⟨NodeName.ofBytes [], 0⟩

structure RouteConfig where
  current : Route
  prev : Route
  next : Route
deriving DecidableEq

/-- A `token_t`. -/
structure Token where
  data : Bytes
  sender : NodeName
  receiver : NodeName
  topoVersion : UInt32
  isEmpty : Bool
deriving DecidableEq

/-- A zeroed `token_t`: note that its `is_empty` flag is false. -/
def Token.zero : Token := ⟨[], NodeName.ofBytes [], NodeName.ofBytes [], 0, false⟩

/-- A `join_request_t` in host order. -/
structure JoinRequest where
  requestId : UInt32
  nodeName : NodeName
  unicastPort : UInt16
deriving DecidableEq

/-- A `join_accept_t` in host order. -/
structure JoinAccept where
  requestId : UInt32
  newName : NodeName
  newUnicastPort : UInt16
  beforeName : NodeName
  beforeUnicastPort : UInt16
  prevName : NodeName
  prevUnicastPort : UInt16
deriving DecidableEq

/-- A decoded `unicast_msg_t`. `malformed` stands for every message that a
type, length or magic check refuses. -/
inductive UnicastMsg where
  | token (token : Token)
  | joinAccept (accept : JoinAccept)
  | joinAck (requestId : UInt32) (fromName : NodeName)
  | joinAckAck (requestId : UInt32) (toName : NodeName)
  | malformed
deriving DecidableEq

/-- A decoded broadcast datagram. `malformed` stands for every datagram that a
size, magic or type check refuses. -/
inductive BroadcastMsg where
  | joinRequest (request : JoinRequest)
  | joinCommit (requestId : UInt32) (newName : NodeName) (topoVersion : UInt32)
  | malformed
deriving DecidableEq

/-- A used `pending_join_t`; `ip` is the address the request came from. -/
structure PendingJoin where
  requestId : UInt32
  nodeName : NodeName
  unicastPort : UInt16
  ip : UInt32
  lastSeen : Int
deriving DecidableEq

def PendingJoin.route (pending : PendingJoin) : Route :=
  ⟨pending.nodeName, pending.unicastPort⟩

/-- A zeroed `pending_join_t`. -/
def PendingJoin.zero : PendingJoin := ⟨0, NodeName.ofBytes [], 0, 0, 0⟩

structure CompletedJoin where
  requestId : UInt32
  nodeName : NodeName
deriving DecidableEq

structure JoinInflight where
  active : Bool
  requestId : UInt32
  joiner : PendingJoin
  expectedPrevName : NodeName
  gotConfirmPrev : Bool
  gotConfirmJoiner : Bool
  lastSent : Int
  retries : Nat
deriving DecidableEq

def JoinInflight.zero : JoinInflight :=
  ⟨false, 0, .zero, NodeName.ofBytes [], false, false, 0, 0⟩

structure JoinAckSender where
  active : Bool
  requestId : UInt32
  coordName : NodeName
  coordUnicastPort : UInt16
  lastSent : Int
  retries : Nat
  gotAckAck : Bool
deriving DecidableEq

def JoinAckSender.zero : JoinAckSender :=
  ⟨false, 0, NodeName.ofBytes [], 0, 0, 0, false⟩

end TokenRing
