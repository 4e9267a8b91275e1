/-
`MigrateContainers` of `admin_runtime.cc` on a node, with `ChangeAddressTable` and the part of
`pool_manager.cc` they use.

For each entry the task plugs the container and waits for its work to end, calls `Migrate` on
it, and awaits a broadcast of `ChangeAddressTable`.  While it waits the other tasks of the node
run, the copy of its own broadcast among them.  Nothing in the source takes a plug out again.

`Migrate` is a no-op unless a module overrides it; the calls are kept in a list that is not in
the source.  The texts of the log are left out.
-/
import IowarpCore.Runtime.AddressTable

namespace IowarpCore
namespace Migration

open Cluster (Container)
open Pools

structure MigrateInfo where
  poolId : PoolId
  containerId : ContainerId
  dest : UInt32
  deriving DecidableEq, Repr

/-- A node, with the containers that have `CONTAINER_PLUG` set. -/
structure NodeState where
  nodeId : UInt32
  table : Table
  wal : WalDir
  plugged : List Container

namespace NodeState

variable (s : NodeState)

def isPlugged (container : Container) : Bool := decide (container ∈ s.plugged)

/-- `GetContainer`, which falls back to the local container of the pool. -/
def getContainer (poolId : PoolId) (containerId : ContainerId) : Option Container :=
  match s.table.find? poolId with
  | none => none
  | some info => info.getContainer containerId

def getContainerRaw (poolId : PoolId) (containerId : ContainerId) : Option Container :=
  match s.table.find? poolId with
  | none => none
  | some info => info.containers.find? containerId

/-- `PlugContainer` up to its wait. -/
def plugContainer (poolId : PoolId) (containerId : ContainerId) : NodeState :=
  match s.getContainerRaw poolId containerId with
  | none => s
  | some container => { s with plugged := container :: s.plugged }

/-- `ChangeAddressTable`, with its return code.  The change is logged before it is made. -/
def changeAddressTable (timestamp : UInt64) (poolId : PoolId) (containerId : ContainerId)
    (newNodeId : UInt32) : UInt32 × NodeState :=
  let oldNodeId := getContainerNodeId s.table poolId containerId
  let wal := writeAddressTableWAL s.wal s.nodeId
    ⟨timestamp, poolId, containerId, oldNodeId, newNodeId⟩
  let (updated, table) := updateContainerNodeMapping s.table poolId containerId newNodeId
  (if updated then 0 else 1, { s with wal := wal, table := table })

end NodeState

/-- What the other tasks of a node do to its pools. -/
inductive Op where
  | updatePoolMetadata (poolId : PoolId) (info : PoolInfo)
  | initAddressMap (poolId : PoolId) (numContainers : UInt32)
  | registerContainer (poolId : PoolId) (containerId : ContainerId) (container : Container)
      (isStatic : Bool)
  | unregisterContainer (poolId : PoolId) (containerId : ContainerId)
  | destroyPool (poolId : PoolId)
  | plugContainer (poolId : PoolId) (containerId : ContainerId)
  | changeAddressTable (timestamp : UInt64) (poolId : PoolId) (containerId : ContainerId)
      (newNodeId : UInt32)

def Op.run (s : NodeState) : Op → NodeState
  | .updatePoolMetadata poolId info =>
    { s with table := Pools.updatePoolMetadata s.table poolId info }
  | .initAddressMap poolId numContainers =>
    { s with table := Pools.initAddressMap s.table poolId numContainers }
  | .registerContainer poolId containerId container isStatic =>
    { s with table := (Pools.registerContainer s.table poolId containerId container isStatic).2 }
  | .unregisterContainer poolId containerId =>
    { s with table := (Pools.unregisterContainer s.table poolId containerId).2 }
  | .destroyPool poolId => { s with table := Pools.destroyPool s.table poolId }
  | .plugContainer poolId containerId => s.plugContainer poolId containerId
  | .changeAddressTable timestamp poolId containerId newNodeId =>
    (s.changeAddressTable timestamp poolId containerId newNodeId).2

/-- What happens on the node while the task waits, and how the broadcast comes back. -/
structure Waits where
  /-- Until the container has no work left. -/
  draining : List Op
  /-- Until the broadcast is answered. -/
  broadcasting : List Op
  returnCode : UInt32

/-- The task under way. -/
structure State where
  node : NodeState
  numMigrated : UInt32
  calls : List (MigrateInfo × Container)

/-- The node when the container of the entry is looked up. -/
def State.drained (s : State) (info : MigrateInfo) (waits : Waits) : NodeState :=
  waits.draining.foldl Op.run (s.node.plugContainer info.poolId info.containerId)

/-- One turn of the loop. -/
def State.migrateOne (s : State) (info : MigrateInfo) (waits : Waits) : State :=
  let node := s.drained info waits
  let calls := match node.getContainer info.poolId info.containerId with
    | some container => s.calls ++ [(info, container)]
    | none => s.calls
  let node := waits.broadcasting.foldl Op.run node
  if waits.returnCode ≠ 0 then { s with node := node, calls := calls }
  else
    { node := { node with
        table := (unregisterContainer node.table info.poolId info.containerId).2 }
      numMigrated := s.numMigrated + 1
      calls := calls }

/-- How the task starts. -/
def State.start (node : NodeState) : State := ⟨node, 0, []⟩

/-- `MigrateContainers` of these entries. -/
def migrateContainers (node : NodeState) (entries : List (MigrateInfo × Waits)) : State :=
  entries.foldl (fun s entry => s.migrateOne entry.1 entry.2) (State.start node)

end Migration
end IowarpCore
