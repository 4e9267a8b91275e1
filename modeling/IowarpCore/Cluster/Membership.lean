/-
What a node holds to be true of the other nodes: the host table of `ipc_manager.cc`.

The state of a node is written by three setters.  `SetDead` and `SetAlive` keep the list of
dead nodes as well, `SetNodeState` writes the state alone.

`GetAllHosts` gives a copy of the table that is made anew when the table has changed since.
A loop over that copy goes on reading it while the table changes behind it, so the copy is
part of the state.
-/
import IowarpCore.Lib.AMap
import IowarpCore.Lib.Ieee

namespace IowarpCore
namespace Cluster

/-- A `node_id`. -/
abbrev Node := UInt64

/-- A `steady_clock` time point, in nanoseconds. -/
abbrev Time := Nat

/-- `duration<float>(later - earlier).count()`. -/
def elapsed (later earlier : Time) : F32 :=
  if later ≤ earlier then F32.zero
  else F32.div (F32.ofNat (later - earlier)) (F32.ofNat 1000000000)

inductive NodeState where
  | alive
  | probeFailed
  | suspected
  | dead
  deriving DecidableEq, Repr

structure Host where
  ipAddress : String
  state : NodeState
  stateChangedAt : Time
  deriving DecidableEq, Repr

structure DeadNodeEntry where
  nodeId : Node
  detectedAt : Time
  deriving DecidableEq, Repr

/-- The part of the `IpcManager` of one node that is about the other nodes. -/
structure IpcManager where
  nodeId : Node
  hostfileMap : AMap Node Host
  hostsCache : List (Node × Host)
  hostsCacheValid : Bool
  deadNodes : List DeadNodeEntry
  selfFenced : Bool

namespace IpcManager

variable (ipc : IpcManager)

/-- `GetAllHosts`, and the cache it leaves. -/
def getAllHosts : IpcManager :=
  if ipc.hostsCacheValid then ipc
  else { ipc with hostsCache := ipc.hostfileMap.entries, hostsCacheValid := true }

def getHost (node : Node) : Option Host := ipc.hostfileMap.find? node

def isAlive (node : Node) : Bool :=
  match ipc.hostfileMap.find? node with
  | none => false
  | some host => host.state = .alive

def getNodeState (node : Node) : NodeState :=
  match ipc.hostfileMap.find? node with
  | none => .dead
  | some host => host.state

def setNodeState (now : Time) (node : Node) (state : NodeState) : IpcManager :=
  match ipc.hostfileMap.find? node with
  | none => ipc
  | some host =>
    { ipc with
      hostfileMap :=
        ipc.hostfileMap.insertOrAssign node { host with state := state, stateChangedAt := now }
      hostsCacheValid := false }

def setDead (now : Time) (node : Node) : IpcManager :=
  match ipc.hostfileMap.find? node with
  | none => ipc
  | some host =>
    if host.state = .dead then ipc
    else
      { ipc.setNodeState now node .dead with deadNodes := ipc.deadNodes ++ [⟨node, now⟩] }

def setAlive (now : Time) (node : Node) : IpcManager :=
  match ipc.hostfileMap.find? node with
  | none => ipc
  | some host =>
    if host.state = .alive then ipc
    else
      { ipc.setNodeState now node .alive with
        deadNodes := ipc.deadNodes.filter fun entry => entry.nodeId ≠ node }

def setSelfFenced (fenced : Bool) : IpcManager := { ipc with selfFenced := fenced }

/-- The largest id stands for no leader yet, and then for node 0. -/
def noLeader : Node := 0xffffffffffffffff

def getLeaderNodeId : Node :=
  let leader := ipc.hostfileMap.entries.foldl
    (fun leader host => if host.2.state = .alive ∧ host.1 < leader then host.1 else leader) noLeader
  if leader = noLeader then 0 else leader

def isLeader : Bool := ipc.nodeId = ipc.getLeaderNodeId

/-- `AddNode`: an address that is known is alive again, a new one gets the next id. -/
def addNode (now : Time) (ipAddress : String) : IpcManager :=
  match ipc.hostfileMap.entries.find? (fun host => host.2.ipAddress = ipAddress) with
  | some host => ipc.setAlive now host.1
  | none =>
    { ipc with
      hostfileMap := ipc.hostfileMap.insertOrAssign (UInt64.ofNat ipc.hostfileMap.entries.length)
        ⟨ipAddress, .alive, now⟩
      hostsCacheValid := false }

/-- The loop of `LoadHostfile` from line `offset` on: the lines are numbered. -/
def loadHostfile (now : Time) : Nat → List String → AMap Node Host → AMap Node Host
  | _, [], hosts => hosts
  | offset, ipAddress :: lines, hosts =>
    loadHostfile now (offset + 1) lines
      (hosts.insertOrAssign (UInt64.ofNat offset) ⟨ipAddress, .alive, now⟩)

/-- The hosts of a hostfile, all of them alive. -/
def load (self : Node) (hosts : AMap Node Host) : IpcManager :=
  ⟨self, hosts, [], false, [], false⟩

end IpcManager
end Cluster
end IowarpCore
