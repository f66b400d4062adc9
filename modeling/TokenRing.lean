import TokenRing.Broadcast
import TokenRing.BroadcastTargets
import TokenRing.CliQueue
import TokenRing.Cluster.Circulation
import TokenRing.Cluster.CompletedNames
import TokenRing.Cluster.Deliveries
import TokenRing.Cluster.Membership
import TokenRing.Cluster.Messages
import TokenRing.Cluster.Progress
import TokenRing.Cluster.RingRefinement
import TokenRing.Cluster.Standstill
import TokenRing.Cluster.Startup
import TokenRing.Cluster.Users
import TokenRing.CommitOrder
import TokenRing.CompletedQueue
import TokenRing.Confirmations
import TokenRing.Coordinator
import TokenRing.Daemon
import TokenRing.Encoding
import TokenRing.EventLoop
import TokenRing.Insertion.Capture
import TokenRing.JoinFsm
import TokenRing.JoinQueue
import TokenRing.JoinState
import TokenRing.Lib.Fifo
import TokenRing.Lib.Lts
import TokenRing.Lib.MarkedMin
import TokenRing.Lib.SlotDrain
import TokenRing.Lib.SlotKeys
import TokenRing.Lib.SlotOrder
import TokenRing.Lib.SlotTable
import TokenRing.OldestFirst
import TokenRing.QueueRoom
import TokenRing.Retransmission
import TokenRing.RingState
import TokenRing.Rudp.ControlFrames
import TokenRing.Rudp.Delivery
import TokenRing.Rudp.Drain
import TokenRing.Rudp.Outcome
import TokenRing.Rudp.PeerTable
import TokenRing.Rudp.PendingOrder
import TokenRing.Rudp.RecvfromRuns
import TokenRing.Rudp.SendContract
import TokenRing.Rudp.SequenceBits
import TokenRing.Rudp.Truncated
import TokenRing.Rudp.WaitClock
import TokenRing.Rudp.WaitForFrame
import TokenRing.SelectTimeout
import TokenRing.TokenWire
import TokenRing.Transition
import TokenRing.Types
import TokenRing.UnicastDispatch
import TokenRing.WriterFifo
