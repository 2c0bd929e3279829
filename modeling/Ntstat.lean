import Ntstat.Machine.Exec
import Ntstat.Machine.Loop
import Ntstat.Machine.Contract
import Ntstat.Machine.Ledger
import Ntstat.Machine.Link
import Ntstat.Memory.Bytes
import Ntstat.Memory.Layout
import Ntstat.Memory.Compare
import Ntstat.Order.Rank
import Ntstat.Text.Scan
import Ntstat.Stream
import Ntstat.Key
import Ntstat.Kernel.Handler
import Ntstat.Kernel.Versions
import Ntstat.Kernel.Messages
import Ntstat.Kernel.Decode
import Ntstat.Kernel.Extent
import Ntstat.Kernel.Events
import Ntstat.Kernel.Contents
import Ntstat.Kernel.Protocol
import Ntstat.Kernel.Peer
import Ntstat.Client.State
import Ntstat.Client.Handle
import Ntstat.Client.Traffic
import Ntstat.Client.Wire
import Ntstat.Client.Loop
import Ntstat.Client.Receive
import Ntstat.Client.Replay
import Ntstat.Client.Texts
import Ntstat.Client.Connect
import Ntstat.Sources.Tracker
import Ntstat.Sources.Lifecycle
import Ntstat.Sources.History
import Ntstat.Sources.Waiting
import Ntstat.Sources.Cell
import Ntstat.Sources.Refine
import Ntstat.Sources.Since
import Ntstat.Sources.Round
import Ntstat.Client.Waiting
import Ntstat.Laws.Session
import Ntstat.Laws.Announce
import Ntstat.Laws.Removal
import Ntstat.Laws.Independence
import Ntstat.Laws.Requests
import Ntstat.Laws.Pending
import Ntstat.Laws.Interval
import Ntstat.Laws.Matching
import Ntstat.Laws.Subscription
import Ntstat.Laws.Drops
import Ntstat.Laws.Received
import Ntstat.Laws.Versions
import Ntstat.Laws.Handlers
import Ntstat.Laws.Keys
import Ntstat.Laws.Sweeps
import Ntstat.Laws.Replay
import Ntstat.Laws.Truncation
import Ntstat.Laws.Reuse
import Ntstat.Laws.Rate
import Ntstat.Laws.Identity
import Ntstat.Laws.Snapshot
import Ntstat.Laws.Drain
import Ntstat.Laws.Stop
import Ntstat.Laws.Isolation
import Ntstat.Laws.Conformance
import Ntstat.Laws.Budget
import Ntstat.Laws.Service
import Ntstat.Laws.Footprint
import Ntstat.Laws.Inert
import Ntstat.Laws.Playback
import Ntstat.Laws.Socket
import Ntstat.Laws.Lifetime
import Ntstat.Laws.Descriptors
import Ntstat.Laws.Poll
import Ntstat.Laws.Describe
import Ntstat.Laws.Agreement
import Ntstat.Laws.Settling
import Ntstat.Laws.Fairness
