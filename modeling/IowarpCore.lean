import IowarpCore.Lib.Bytes
import IowarpCore.Lib.Framing
import IowarpCore.Lib.Ieee
import IowarpCore.Types
import IowarpCore.Wal.TransactionLog
import IowarpCore.Proofs.TransactionLog
import IowarpCore.Bdev.Allocator
import IowarpCore.Bdev.Device
import IowarpCore.Lib.Coroutine
import IowarpCore.Cte.Placement
import IowarpCore.Cte.Blob
import IowarpCore.Cte.Tag
import IowarpCore.Cte.Tasks
import IowarpCore.Cte.Sharding
import IowarpCore.Cte.Contents
import IowarpCore.Cte.Metadata
import IowarpCore.Proofs.Keys
import IowarpCore.Proofs.Snapshot
import IowarpCore.Proofs.Programs
import IowarpCore.Proofs.Put
import IowarpCore.Lib.Extents
import IowarpCore.Proofs.Allocator
import IowarpCore.Proofs.Ownership
import IowarpCore.Proofs.Transfer
import IowarpCore.Proofs.Tasks
import IowarpCore.Proofs.Space
import IowarpCore.Proofs.PutLaw
import IowarpCore.Proofs.Atomicity
import IowarpCore.Proofs.Totals
import IowarpCore.Lib.Replay
import IowarpCore.Proofs.Replay
import IowarpCore.Proofs.TagIdentity
import IowarpCore.Proofs.TagMaps
import IowarpCore.Proofs.Sharding
import IowarpCore.Proofs.TagAgreement
import IowarpCore.Lib.Interleave
import IowarpCore.Lib.AwaitLogic
import IowarpCore.Proofs.Awaits
import IowarpCore.Proofs.Durability
import IowarpCore.Proofs.Recovery
import IowarpCore.Proofs.LiveBlocks
import IowarpCore.Proofs.Capacity
import IowarpCore.Bdev.Backend
import IowarpCore.Proofs.Backend
import IowarpCore.Runtime.State
import IowarpCore.Runtime.Worker
import IowarpCore.Runtime.Suspend
import IowarpCore.Proofs.Worker
import IowarpCore.Proofs.CoAwait
import IowarpCore.Proofs.Situations
import IowarpCore.Proofs.WaitSet
import IowarpCore.Proofs.StartOnce
import IowarpCore.Lib.RedBlack
import IowarpCore.Shm.RbTree
import IowarpCore.Proofs.RbMemory
import IowarpCore.Proofs.RbTree
import IowarpCore.Shm.BuddyAllocator
import IowarpCore.Proofs.BuddyPages
import IowarpCore.Proofs.BuddyAllocator
import IowarpCore.Proofs.BuddyUse
import IowarpCore.Cluster.Routing
import IowarpCore.Proofs.Routing
import IowarpCore.Cluster.Membership
import IowarpCore.Cluster.Remote
import IowarpCore.Proofs.Remote
import IowarpCore.Proofs.Responses
import IowarpCore.Proofs.Accounting
import IowarpCore.Cluster.World
import IowarpCore.Proofs.Replies
import IowarpCore.Proofs.Pools
import IowarpCore.Cluster.Swim
import IowarpCore.Proofs.Membership
import IowarpCore.Proofs.Swim
import IowarpCore.Proofs.Failover
import IowarpCore.Proofs.SplitBrain
import IowarpCore.Cluster.Probes
import IowarpCore.Proofs.Traces
import IowarpCore.Proofs.Probes
import IowarpCore.Lib.Threads
import IowarpCore.Shm.RwLock
import IowarpCore.Proofs.RwLock
import IowarpCore.Runtime.CoLock
import IowarpCore.Proofs.CoLock
import IowarpCore.Shm.RingBuffer
import IowarpCore.Proofs.RingBuffer
import IowarpCore.Lightbeam.Message
import IowarpCore.Lightbeam.SocketTransport
import IowarpCore.Proofs.SocketTransport
import IowarpCore.Lightbeam.SendV
import IowarpCore.Proofs.SendV
import IowarpCore.Util.ConfigParse
import IowarpCore.Proofs.HostNames
import IowarpCore.Lib.Entries
import IowarpCore.Serialization.LocalSerialize
import IowarpCore.Proofs.LocalSerialize
import IowarpCore.Proofs.Retry
import IowarpCore.Runtime.AddressTable
import IowarpCore.Proofs.AddressWal
import IowarpCore.Lib.Reading
import IowarpCore.Lightbeam.ShmTransport
import IowarpCore.Proofs.ShmTransport
import IowarpCore.Proofs.Suspend
import IowarpCore.Adapter.Filesystem
import IowarpCore.Proofs.Filesystem
import IowarpCore.Proofs.AsyncIo
import IowarpCore.Lib.Regex
import IowarpCore.Adapter.Namespace
import IowarpCore.Proofs.Namespace
import IowarpCore.Proofs.BlockList
import IowarpCore.Proofs.Striping
import IowarpCore.Proofs.Flush
import IowarpCore.Compressor.Compression
import IowarpCore.Proofs.Compression
import IowarpCore.Cte.TaskTypes
import IowarpCore.Proofs.Aggregation
import IowarpCore.Cte.Queries
import IowarpCore.Proofs.RemoteRun
import IowarpCore.Proofs.KeyScans
import IowarpCore.Proofs.Placement
import IowarpCore.Proofs.FileLoop
import IowarpCore.Lib.BoundedQueue
import IowarpCore.Shm.RingCalls
import IowarpCore.Proofs.RingCalls
import IowarpCore.Proofs.RingStorage
import IowarpCore.Cte.Telemetry
import IowarpCore.Proofs.Telemetry
import IowarpCore.Proofs.BuddyComplete
import IowarpCore.Shm.Compaction
import IowarpCore.Proofs.BuddyTiling
import IowarpCore.Proofs.Compaction
import IowarpCore.Shm.MpAllocator
import IowarpCore.Proofs.MpAllocator
import IowarpCore.Runtime.Migrate
import IowarpCore.Proofs.Migrate
import IowarpCore.Runtime.Recover
import IowarpCore.Proofs.RecoverPlan
import IowarpCore.Adapter.Positions
import IowarpCore.Proofs.Positions
import IowarpCore.Lib.CallStack
import IowarpCore.Runtime.TaskResume
import IowarpCore.Proofs.TaskResume
import IowarpCore.Lib.OwnedCells
import IowarpCore.Shm.BasicString
import IowarpCore.Proofs.BasicString
import IowarpCore.Proofs.StringQueries
import IowarpCore.Proofs.StringPrograms
import IowarpCore.Wrapper.Frecency
import IowarpCore.Proofs.Frecency
import IowarpCore.Wrapper.LockFreeQueue
import IowarpCore.Proofs.LockFreeQueue
import IowarpCore.Cee.ContextInterface
import IowarpCore.Proofs.ContextInterface
import IowarpCore.Cae.ExportData
import IowarpCore.Proofs.ExportData
import IowarpCore.Cae.BinaryFileAssimilator
import IowarpCore.Proofs.BinaryFileAssimilator
import IowarpCore.Lib.FirstLeast
import IowarpCore.Compressor.Schedule
import IowarpCore.Proofs.Schedule
import IowarpCore.Lib.DecisionList
import IowarpCore.Adapter.CaeConfig
import IowarpCore.Proofs.CaeConfig
import IowarpCore.Wrapper.TierTracker
import IowarpCore.Proofs.TierTracker
import IowarpCore.Uvm.GpuVmm
import IowarpCore.Proofs.GpuVmm
import IowarpCore.Shm.UnorderedMapLl
import IowarpCore.Proofs.UnorderedMapLl
import IowarpCore.Lib.RawStorage
import IowarpCore.Shm.Vector
import IowarpCore.Proofs.Vector
