import Turmoil.Lib.IndexMap
import Turmoil.Lib.Bytes
import Turmoil.Lib.Replay
import Turmoil.Lib.Chase
import Turmoil.Lib.Run
import Turmoil.Lib.Serial
import Turmoil.Lib.Pool
import Turmoil.Lib.BinarySearch
import Turmoil.Lib.Lru
import Turmoil.Lib.Word
import Turmoil.Lib.Cycle
import Turmoil.Fs.State
import Turmoil.Fs.Ops
import Turmoil.Fs.Namespace
import Turmoil.Fs.Content
import Turmoil.Fs.Sync
import Turmoil.Fs.Readers
import Turmoil.Fs.History
import Turmoil.Fs.Trace
import Turmoil.Fs.CrashImage
import Turmoil.Fs.SyncView
import Turmoil.Fs.Targets
import Turmoil.Fs.Attribution
import Turmoil.Fs.Durable
import Turmoil.Fs.Shim
import Turmoil.Fs.Tree
import Turmoil.Fs.ShimTree
import Turmoil.Fs.Space
import Turmoil.Fs.Capacity
import Turmoil.Fs.Links
import Turmoil.Fs.Sharing
import Turmoil.Fs.Renaming
import Turmoil.Fs.Listing
import Turmoil.Fs.Recency
import Turmoil.Fs.Whole
import Turmoil.Uring.Exec
import Turmoil.Uring.Failure
import Turmoil.Uring.Ring
import Turmoil.Uring.Once
import Turmoil.Uring.Cancel
import Turmoil.Net.Packet
import Turmoil.Top.Link
import Turmoil.Top.Conservation
import Turmoil.Top.Faults
import Turmoil.Net.Socket
import Turmoil.Net.Kernel
import Turmoil.Net.Tcb
import Turmoil.Net.Tcp
import Turmoil.Net.Udp
import Turmoil.Net.Syscall
import Turmoil.Net.Steps
import Turmoil.Net.Calls
import Turmoil.Net.SeqSpace
import Turmoil.Net.Stages
import Turmoil.Net.Retransmit
import Turmoil.Net.InRange
import Turmoil.Net.CloseStates
import Turmoil.Net.Windows
import Turmoil.Net.Drain
import Turmoil.Net.Segmentation
import Turmoil.Net.Progress
import Turmoil.Net.Pair
import Turmoil.Net.Shim
import Turmoil.Net.Table
import Turmoil.Net.AtEnd
import Turmoil.Net.Integrity
import Turmoil.Net.Expects
import Turmoil.Net.Consistent
import Turmoil.Net.Connecting
import Turmoil.Net.Orphans
import Turmoil.Net.Listeners
import Turmoil.Net.Backlog
import Turmoil.Net.Scheduler
import Turmoil.Stream.Socket
import Turmoil.Stream.Connection
import Turmoil.Stream.Pipeline
import Turmoil.Stream.InOrder
import Turmoil.Stream.Hosts
import Turmoil.Stream.Incarnation
import Turmoil.Fs.Canonical
import Turmoil.Fs.Follow
import Turmoil.Stream.Trace
import Turmoil.Stream.Ready
import Turmoil.Fs.Torn
import Turmoil.Fs.Modes
import Turmoil.Net.Handshake
import Turmoil.Stream.Ports
import Turmoil.Net.Dns
import Turmoil.Top.Latency
import Turmoil.Fs.Machine
import Turmoil.Fs.Checked
import Turmoil.Fs.Offsets
import Turmoil.Simulation.Clocks
import Turmoil.Simulation.Outcome
import Turmoil.Udp.Received
import Turmoil.Udp.Groups
import Turmoil.Barriers.Wakes
import Turmoil.Network.Net
import Turmoil.Network.TwoHosts
import Turmoil.Network.Schedule
import Turmoil.Cluster.Stall
