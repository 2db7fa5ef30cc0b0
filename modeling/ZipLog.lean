import ZipLog.Lib.Run
import ZipLog.Lib.Spread
import ZipLog.Storage.Slots
import ZipLog.Storage.Invariant
import ZipLog.Storage.Server
import ZipLog.Storage.Agreement
import ZipLog.Order.Order
import ZipLog.Order.Partition
import ZipLog.Lib.Quorum
import ZipLog.Client.Loop
import ZipLog.Client.Ack
import ZipLog.Network.Manager
import ZipLog.Subscriber.Log
import ZipLog.Subscriber.Contents
import ZipLog.Subscriber.Process
import ZipLog.Subscriber.Poll
import ZipLog.Subscriber.Quorum
import ZipLog.Subscriber.Placement
import ZipLog.Storage.Delivery
import ZipLog.Storage.Control
import ZipLog.System.Cluster
import ZipLog.Order.Moves
import ZipLog.Order.Cuts
import ZipLog.System.History
import ZipLog.System.Replica
import ZipLog.System.Progress
import ZipLog.System.Recovery
import ZipLog.System.Convergence
import ZipLog.System.Service
import ZipLog.System.Calm
import ZipLog.System.Session
import ZipLog.System.Links
import ZipLog.Subscriber.Carry
import ZipLog.System.Deployment
import ZipLog.System.Genuine
import ZipLog.System.Integrity
import ZipLog.System.RealTime
import ZipLog.LockService.Callback
import ZipLog.LockService.Exclusion
import ZipLog.LockService.Completion
import ZipLog.Subscriber.Recycle
import ZipLog.Client.Shutdown
import ZipLog.Subscriber.Control
import ZipLog.Storage.Subscribers
import ZipLog.System.Farewell
import ZipLog.System.Crash
import ZipLog.Storage.Sealed
import ZipLog.System.Finalized
import ZipLog.Lib.Ring
import ZipLog.Network.SendQueue
import ZipLog.Network.Transport
import ZipLog.Network.Window
import ZipLog.Network.SharedRing
import ZipLog.Lib.Word
import ZipLog.Network.Lengths
import ZipLog.Lib.Exchange
import ZipLog.Lib.Sections
import ZipLog.Network.Connection
import ZipLog.Network.Handshake
import ZipLog.Network.FailedHandshake
import ZipLog.Network.Outstanding
import ZipLog.Client.Pacing
import ZipLog.Client.Metered
import ZipLog.Order.Rations
import ZipLog.Storage.Supplied
import ZipLog.System.Supply
import ZipLog.System.Enrolled
import ZipLog.System.Provision
import ZipLog.System.Allowance
import ZipLog.Storage.Patches
import ZipLog.Order.Rollforward
import ZipLog.Storage.Evenness
import ZipLog.Network.Signaling
import ZipLog.Network.Fanout
import ZipLog.Network.Rotation
import ZipLog.Client.Rewrite
import ZipLog.Storage.Suffix
import ZipLog.Network.SocketRead
import ZipLog.Network.Buffers
import ZipLog.Util.Queue
import ZipLog.Subscriber.Sequential
import ZipLog.Storage.Fresh
import ZipLog.Subscriber.Fresh
import ZipLog.System.Phantoms
import ZipLog.Lib.Streams
import ZipLog.Lib.Layout
import ZipLog.System.TotalOrder
import ZipLog.LockService.Replicas
import ZipLog.System.Durability
import ZipLog.System.Drained
import ZipLog.Order.Loop
import ZipLog.Order.Timers
import ZipLog.Order.Membership
import ZipLog.Network.Messages
import ZipLog.Network.Channel
import ZipLog.Order.Wire
import ZipLog.Network.Failures
import ZipLog.Storage.Threads
import ZipLog.Storage.Linear
import ZipLog.Storage.Waiters
import ZipLog.Storage.Payloads
import ZipLog.Storage.Wire
import ZipLog.System.Wire
import ZipLog.System.Startup
import ZipLog.System.Contacts
import ZipLog.System.Registration
import ZipLog.System.Latecomers
import ZipLog.LockService.Refinement
