import UckSmp.Defs
import UckSmp.Wire
import UckSmp.Lib.Transition
import UckSmp.Lib.Slots
import UckSmp.Lib.Best
import UckSmp.Lib.Codec
import UckSmp.Lib.Patch
import UckSmp.Lib.Checksum
import UckSmp.Lib.Framing
import UckSmp.Lib.LockOrder
import UckSmp.Lib.ShellWords
import UckSmp.Lib.Writers
import UckSmp.Lib.PartialWrites
import UckSmp.Lib.Handles
import UckSmp.Lib.Credit
import UckSmp.Lib.FileTable
import UckSmp.Lib.SearchTree
import UckSmp.Lib.LinkedList
import UckSmp.Lib.StableSort
import UckSmp.Lib.Numerals
import UckSmp.Lib.Loop
import UckSmp.Lib.SwapArray
import UckSmp.Lib.Bpf
import UckSmp.Memory.Entry
import UckSmp.Memory.Coherence
import UckSmp.Memory.Prefetch
import UckSmp.Memory.Visibility
import UckSmp.Memory.LastWrite
import UckSmp.Memory.Memctl
import UckSmp.Memory.Cache
import UckSmp.Memory.Node
import UckSmp.Memory.Faults
import UckSmp.Memory.Exclusive
import UckSmp.Memory.OneFetch
import UckSmp.Memory.Accounting
import UckSmp.Memory.References
import UckSmp.Memory.Scrub
import UckSmp.Memory.Region
import UckSmp.Memory.Access
import UckSmp.Memory.Representation
import UckSmp.Memory.OneFault
import UckSmp.Memory.Tree
import UckSmp.Memory.Window
import UckSmp.Memory.Watermarks
import UckSmp.Memory.RegionTable
import UckSmp.Memory.Pieces
import UckSmp.Net.Connection
import UckSmp.Net.OwnAnswer
import UckSmp.Net.Receiver
import UckSmp.Net.Senders
import UckSmp.Net.SockLoop
import UckSmp.Net.ShortSends
import UckSmp.Net.Ratelimit
import UckSmp.Net.Refill
import UckSmp.Net.Batch
import UckSmp.Net.Delivery
import UckSmp.Migrate.Format
import UckSmp.Migrate.Receive
import UckSmp.Migrate.RoundTrip
import UckSmp.Migrate.Atomic
import UckSmp.Migrate.StateFile
import UckSmp.Migrate.Integrity
import UckSmp.Migrate.Stub
import UckSmp.Migrate.Capture
import UckSmp.Migrate.Mapping
import UckSmp.Migrate.Arrival
import UckSmp.Migrate.Reopen
import UckSmp.Migrate.Filter
import UckSmp.Locks
import UckSmp.Audit
import UckSmp.Subsys
import UckSmp.Exec.Jobs
import UckSmp.Exec.Outcome
import UckSmp.Exec.Wrap
import UckSmp.Exec.CommandLine
import UckSmp.Exec.Identity
import UckSmp.Exec.Orphans
import UckSmp.Exec.Wait
import UckSmp.Exec.Records
import UckSmp.Exec.Verdict
import UckSmp.Membership.Table
import UckSmp.Membership.Fencing
import UckSmp.Membership.Quorum
import UckSmp.Membership.Isolation
import UckSmp.Membership.Join
import UckSmp.Membership.Detector
import UckSmp.Membership.Epoch
import UckSmp.Membership.Nodes
import UckSmp.Membership.Secret
import UckSmp.Membership.Unique
import UckSmp.Membership.Sockets
import UckSmp.Sched.Place
import UckSmp.Sched.Balance
import UckSmp.Sched.Tracked
import UckSmp.Sched.ForkWork
import UckSmp.Sched.Limit
import UckSmp.Futex.Waiters
import UckSmp.Futex.Conserved
import UckSmp.Futex.Cluster
import UckSmp.Futex.Compare
import UckSmp.Module.Threads
import UckSmp.Module.Unload
import UckSmp.Resources.Kernel
import UckSmp.Resources.Migration
import UckSmp.Resources.Incoming
import UckSmp.Resources.Connection
import UckSmp.Resources.Load
import UckSmp.Netd
import UckSmp.Daemon
