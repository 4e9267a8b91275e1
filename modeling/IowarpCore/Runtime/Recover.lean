/-
`RecoverContainers` of `admin_runtime.cc` on a node.

Every node that gets the plan changes its address map and logs the change; the node an
assignment names makes the container as well, lets it recover and registers it.  `Recover` and
`CreateContainer` are the module's.  A registration the node has already is replaced, those of
other nodes are not looked at.
-/
import IowarpCore.Runtime.AddressTable
import IowarpCore.Cluster.Swim

namespace IowarpCore
namespace Recovering

open Cluster (Container RecoveryAssignment Node)
open Pools

/-- What the task finds on its node. -/
structure RecoverEnv where
  selfNodeId : Node
  /-- The clock in a round of the loop. -/
  clock : Nat → UInt64
  /-- `CreateContainer` in a round of the loop. -/
  createContainer : Nat → Bytes → PoolId → Bytes → Option Container

structure State where
  table : Table
  wal : WalDir
  numRecovered : UInt32

variable (env : RecoverEnv)

/-- The first half of a round: the change of the map. -/
def remap (k : Nat) (s : State) (ra : RecoveryAssignment) : State :=
  { s with
    table := (updateContainerNodeMapping s.table ra.poolId ra.containerId ra.destNodeId).2
    wal := writeAddressTableWAL s.wal env.selfNodeId.toUInt32
      ⟨env.clock k, ra.poolId, ra.containerId, ra.deadNodeId, ra.destNodeId⟩ }

/-- One round of the loop. -/
def recoverOne (k : Nat) (s : State) (ra : RecoveryAssignment) : State :=
  let s := remap env k s ra
  if ra.destNodeId.toUInt64 ≠ env.selfNodeId then s
  else
    match env.createContainer k ra.chimodName ra.poolId ra.poolName with
    | none => s
    | some container =>
      { s with
        table := (registerContainer s.table ra.poolId ra.containerId container false).2
        numRecovered := s.numRecovered + 1 }

/-- The loop from round `k` on. -/
def recoverFrom : Nat → List RecoveryAssignment → State → State
  | _, [], s => s
  | k, ra :: assignments, s => recoverFrom (k + 1) assignments (recoverOne env k s ra)

/-- `RecoverContainers`. -/
def recoverContainers (assignments : List RecoveryAssignment) (table : Table) (wal : WalDir) :
    State :=
  recoverFrom env 0 assignments ⟨table, wal, 0⟩

end Recovering
end IowarpCore
