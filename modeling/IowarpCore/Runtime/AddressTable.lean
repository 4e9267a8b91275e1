/-
The address table of a node and its log.

Follows `GetContainerNodeId`, `UpdateContainerNodeMapping`, `WriteAddressTableWAL` and
`ReplayAddressTableWAL` of `pool_manager.cc`.  The table is the `address_map_` of each pool.  A
change is logged in a file of its pool and of the node that makes it, as a record of 28 bytes
that is appended.  A replay goes through the files of the directory in whatever order the
iterator gives them.  The manager is initialised and has its configuration.
-/
import IowarpCore.Runtime.PoolManager

namespace IowarpCore
namespace Pools

/-- `GetContainerNodeId`: node 0 if there is no pool or no entry. -/
def getContainerNodeId (table : Table) (poolId : PoolId) (containerId : ContainerId) : UInt32 :=
  match table.find? poolId with
  | none => 0
  | some info => info.getContainerNodeId containerId

def updateContainerNodeMapping (table : Table) (poolId : PoolId) (containerId : ContainerId)
    (newNodeId : UInt32) : Bool × Table :=
  match table.find? poolId with
  | none => (false, table)
  | some info =>
    (true, table.insertOrAssign poolId
      { info with addressMap := info.addressMap.insertOrAssign containerId newNodeId })

/-! ### The log -/

/-- A record of the log. -/
structure WalRecord where
  timestamp : UInt64
  poolId : PoolId
  containerId : ContainerId
  oldNode : UInt32
  newNode : UInt32
deriving DecidableEq, Repr

/-- `[timestamp:u64][pool_id:PoolId][container_id:u32][old_node:u32][new_node:u32]`. -/
def writeRecord (r : WalRecord) : Bytes :=
  writeU64 r.timestamp ++ (writeU32 r.poolId.major ++ (writeU32 r.poolId.minor ++
    (writeU32 r.containerId ++ (writeU32 r.oldNode ++ writeU32 r.newNode))))

/-- The reads of a record, which fail when the bytes run out. -/
def readRecord : Reader WalRecord := do
  let timestamp ← readU64
  let major ← readU32
  let minor ← readU32
  let containerId ← readU32
  let oldNode ← readU32
  let newNode ← readU32
  return ⟨timestamp, ⟨major, minor⟩, containerId, oldNode, newNode⟩

/-- The log directory: a file for each pool and writing node. -/
abbrev WalDir := AMap (PoolId × UInt32) Bytes

/-- `WriteAddressTableWAL` on the node. -/
def writeAddressTableWAL (dir : WalDir) (nodeId : UInt32) (r : WalRecord) : WalDir :=
  dir.insertOrAssign (r.poolId, nodeId)
    ((dir.find? (r.poolId, nodeId)).getD [] ++ writeRecord r)

/-- The loop over one file.  Each turn but the last reads 28 bytes. -/
def replayFile : Nat → Bytes → Table → Table
  | 0, _, table => table
  | fuel + 1, bs, table =>
    match readRecord.run bs with
    | none => table
    | some (r, rest) =>
      replayFile fuel rest
        (updateContainerNodeMapping table r.poolId r.containerId r.newNode).2

/-- `ReplayAddressTableWAL` of the files in the order of the iterator. -/
def replayAddressTableWAL (files : List Bytes) (table : Table) : Table :=
  files.foldl (fun table bs => replayFile (bs.length + 1) bs table) table

end Pools
end IowarpCore
