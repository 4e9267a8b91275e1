/-
Failure detection and recovery on one node: `HeartbeatProbe`, `TriggerRecovery` and
`AnnounceShutdown` of `admin_runtime.cc`.

`HeartbeatProbe` is periodic and runs again only when it is through.  It awaits in one place,
the answers to the recovery it broadcasts from the middle of its third part, and other tasks
run meanwhile; `checking` is where it stands then.  The loop of that part is over the cached
copy of the host table, which is read by position: an entry is as old as the copy.

A probe is a future that is complete or not.  What completes it is outside, so is the time and
the order a shuffle gives.  The clock is read once in each round of a loop, and once for each
helper that is asked.

Not in the source are the numbers of the futures, `sent`, the tasks handed to the network,
`counted`, the nodes the last fence test found suspected or dead, and `log`, the record of what
happened.
-/
import IowarpCore.Cluster.Membership
import IowarpCore.Runtime.PoolManager

namespace IowarpCore
namespace Cluster

structure DirectProbe where
  future : Nat
  targetNodeId : Node
  sentAt : Time
  deriving DecidableEq, Repr

structure IndirectProbe where
  future : Nat
  targetNodeId : Node
  helperNodeId : Node
  sentAt : Time
  deriving DecidableEq, Repr

/-- The tasks of a failure detector. -/
inductive ProbeTask where
  | heartbeat (node : Node)
  | probeRequest (helper target : Node)
  deriving DecidableEq, Repr

structure RecoveryAssignment where
  poolId : PoolId
  chimodName : Bytes
  poolName : Bytes
  chimodParams : Bytes
  containerId : ContainerId
  deadNodeId : UInt32
  destNodeId : UInt32
  deriving DecidableEq

inductive Event where
  /-- The state of a node became `kDead`. -/
  | died (node : Node)
  /-- A suspicion timeout or an announcement confirmed a death, on a node that was the leader or
  not, fenced or not, and that knew where to recover the containers or not. -/
  | confirmed (node : Node) (leader fenced able : Bool)
  /-- `ComputeRecoveryPlan` gave these assignments for a node that hosted these containers; if
  there are any they are broadcast. -/
  | planned (node : Node) (hosted : List (PoolId × ContainerId))
      (assignments : List RecoveryAssignment)
  deriving DecidableEq

/-- `HeartbeatProbe` at its await: the time it started, and the loop over the hosts. -/
structure Checking where
  now : Time
  next : Nat
  count : Nat
  deriving DecidableEq, Repr

structure Swim where
  ipc : IpcManager
  pendingDirectProbes : List DirectProbe
  pendingIndirectProbes : List IndirectProbe
  probeRoundRobinIdx : Nat
  recoveryInitiated : List Node
  checking : Option Checking
  nextFuture : Nat
  sent : List (Nat × ProbeTask)
  counted : List Node
  log : List Event

/-- What an invocation finds around it. -/
structure ProbeEnv where
  /-- The clock in a round of a loop. -/
  clock : Nat → Time
  /-- The clock when a probe request with this number is sent. -/
  sentAt : Nat → Time
  /-- Whether a future is complete, and the `probe_result_` it brought. -/
  result : Nat → Option Int
  shuffle : List Node → List Node
  shuffle_perm : ∀ l, (shuffle l).Perm l
  pools : Pools.Table
  scheduleRecover : Container → UInt32

/-- 5 s. -/
def kDirectProbeTimeoutSec : F32 := ⟨0x40a00000⟩

/-- 3 s. -/
def kIndirectProbeTimeoutSec : F32 := ⟨0x40400000⟩

def kIndirectProbeHelpers : Nat := 3

/-- 10 s. -/
def kSuspicionTimeoutSec : F32 := ⟨0x41200000⟩

namespace Swim

variable (env : ProbeEnv) (s : Swim)

/-- A node that has just started. -/
def start (ipc : IpcManager) : Swim where
  ipc := ipc
  pendingDirectProbes := []
  pendingIndirectProbes := []
  probeRoundRobinIdx := 0
  recoveryInitiated := []
  checking := none
  nextFuture := 0
  sent := []
  counted := []
  log := []

def setNodeState (now : Time) (node : Node) (state : NodeState) : Swim :=
  { s with ipc := s.ipc.setNodeState now node state }

/-- `SetDead`, with the record of the change it makes. -/
def setDead (now : Time) (node : Node) : Swim :=
  { s with
    ipc := s.ipc.setDead now node
    log := if s.ipc.hostfileMap.contains node ∧ s.ipc.getNodeState node ≠ .dead then
      s.log ++ [.died node] else s.log }

def getAllHosts : Swim := { s with ipc := s.ipc.getAllHosts }

/-! ### Direct probes -/

/-- The alive nodes that can probe a target. -/
def candidates (target : Node) : List Node :=
  (s.ipc.hostsCache.filter fun h =>
    h.1 ≠ s.ipc.nodeId ∧ h.1 ≠ target ∧ h.2.state = .alive).map Prod.fst

/-- `AsyncProbeRequest` to one helper after another. -/
def askHelpers (sentAt : Nat → Time) (target : Node) : List Node → Swim → Swim
  | [], s => s
  | helper :: helpers, s =>
    askHelpers sentAt target helpers
      { s with
        pendingIndirectProbes :=
          s.pendingIndirectProbes ++ [⟨s.nextFuture, target, helper, sentAt s.nextFuture⟩]
        nextFuture := s.nextFuture + 1
        sent := s.sent ++ [(s.nextFuture, .probeRequest helper target)] }

/-- A direct probe timed out. -/
def startIndirectProbes (now : Time) (target : Node) : Swim :=
  let s := (s.setNodeState now target .probeFailed).getAllHosts
  askHelpers env.sentAt target ((env.shuffle (s.candidates target)).take kIndirectProbeHelpers) s

/-- One round of the first loop. -/
def checkDirectProbe (now : Time) (k : Nat) (probe : DirectProbe) : Swim :=
  if (env.result probe.future).isSome then
    s.setNodeState (env.clock k) probe.targetNodeId .alive
  else if F32.lt kDirectProbeTimeoutSec (elapsed now probe.sentAt) then
    s.startIndirectProbes env (env.clock k) probe.targetNodeId
  else { s with pendingDirectProbes := s.pendingDirectProbes ++ [probe] }

/-- The first loop, over the probes from round `k` on. -/
def checkDirectLoop (now : Time) : Nat → List DirectProbe → Swim → Swim
  | _, [], s => s
  | k, probe :: probes, s => checkDirectLoop now (k + 1) probes (s.checkDirectProbe env now k probe)

def checkDirectProbes (now : Time) : Swim :=
  checkDirectLoop env now 0 s.pendingDirectProbes { s with pendingDirectProbes := [] }

/-! ### Indirect probes -/

/-- An indirect probe failed and `pending` are left. -/
def indirectProbeFailed (now : Time) (target : Node) (pending : List IndirectProbe) : Swim :=
  let hasMore := pending.any fun probe => probe.targetNodeId = target
  if !hasMore ∧ s.ipc.getNodeState target = .probeFailed then
    s.setNodeState now target .suspected
  else s

/-- The second loop, with the probes before the iterator and those from it on.  It ends at the
first success. -/
def checkIndirectLoop (now : Time) : Nat → List IndirectProbe → List IndirectProbe → Swim → Swim
  | _, before, [], s => { s with pendingIndirectProbes := before }
  | k, before, probe :: after, s =>
    match env.result probe.future with
    | some 0 =>
      { s.setNodeState (env.clock k) probe.targetNodeId .alive with
        pendingIndirectProbes := (before ++ probe :: after).filter fun p =>
          p.targetNodeId ≠ probe.targetNodeId }
    | some _ =>
      checkIndirectLoop now (k + 1) before after
        (s.indirectProbeFailed (env.clock k) probe.targetNodeId (before ++ after))
    | none =>
      if F32.lt kIndirectProbeTimeoutSec (elapsed now probe.sentAt) then
        checkIndirectLoop now (k + 1) before after
          (s.indirectProbeFailed (env.clock k) probe.targetNodeId (before ++ after))
      else checkIndirectLoop now (k + 1) (before ++ [probe]) after s

def checkIndirectProbes (now : Time) : Swim :=
  checkIndirectLoop env now 0 [] s.pendingIndirectProbes s

/-! ### Recovery -/

/-- The node a container is recovered on: the choice of the pool's own container, else the next
of the alive nodes. -/
def recoverDest (aliveNodes : List Node) (rrIdx : Nat) (info : Pools.PoolInfo) : UInt32 × Nat :=
  let dest := match info.localContainer with
    | some container => env.scheduleRecover container
    | none => 0xffffffff
  if dest = 0xffffffff then
    ((aliveNodes.getD (rrIdx % aliveNodes.length) 0).toUInt32, rrIdx + 1)
  else (dest, rrIdx)

/-- The assignments for the containers of one pool that were on the node. -/
def recoverPool (deadNodeId : Node) (aliveNodes : List Node) (poolId : PoolId)
    (info : Pools.PoolInfo) :
    List (ContainerId × UInt32) → Nat × List RecoveryAssignment → Nat × List RecoveryAssignment
  | [], acc => acc
  | (containerId, nodeId) :: entries, (rrIdx, assignments) =>
    if nodeId = deadNodeId.toUInt32 then
      let (dest, rrIdx) := recoverDest env aliveNodes rrIdx info
      recoverPool deadNodeId aliveNodes poolId info entries
        (rrIdx, assignments ++ [⟨poolId, info.chimodName, info.poolName, info.chimodParams,
          containerId, deadNodeId.toUInt32, dest⟩])
    else recoverPool deadNodeId aliveNodes poolId info entries (rrIdx, assignments)

/-- `ComputeRecoveryPlan`, once the hosts are up to date. -/
def computeRecoveryPlan (deadNodeId : Node) : List RecoveryAssignment :=
  let aliveNodes := (s.ipc.hostsCache.filter fun h => h.2.state = .alive).map Prod.fst
  if aliveNodes.isEmpty then []
  else
    (env.pools.entries.foldl (fun acc pool =>
      recoverPool env deadNodeId aliveNodes pool.1 pool.2 pool.2.addressMap.entries acc)
      (0, [])).2

/-- The containers that the address maps have on a node. -/
def hostedOn (pools : Pools.Table) (node : Node) : List (PoolId × ContainerId) :=
  pools.entries.flatMap fun pool =>
    ((pool.2.addressMap.entries.filter fun e => e.2 = node.toUInt32).map Prod.fst).map
      fun containerId => (pool.1, containerId)

/-- The record of a death that is confirmed. -/
def confirm (deadNodeId : Node) : Swim :=
  let able := (hostedOn env.pools deadNodeId).isEmpty ||
    s.getAllHosts.ipc.hostsCache.any fun h => h.2.state = .alive
  { s with log := s.log ++ [.confirmed deadNodeId s.ipc.isLeader s.ipc.selfFenced able] }

/-- `TriggerRecovery`, and whether it broadcasts and awaits the answers. -/
def triggerRecovery (deadNodeId : Node) : Swim × Bool :=
  if !s.ipc.isLeader then (s, false)
  else if deadNodeId ∈ s.recoveryInitiated then (s, false)
  else
    let s := { s with recoveryInitiated := deadNodeId :: s.recoveryInitiated }
    if s.ipc.selfFenced then (s, false)
    else
      let s := s.getAllHosts
      let assignments := s.computeRecoveryPlan env deadNodeId
      let hosted := hostedOn env.pools deadNodeId
      ({ s with log := s.log ++ [.planned deadNodeId hosted assignments] }, !assignments.isEmpty)

def announceShutdown (deadNodeId : Node) : Swim :=
  let s := (s.setDead (env.clock 0) deadNodeId).confirm env deadNodeId
  if s.ipc.isLeader then (s.triggerRecovery env deadNodeId).1 else s

/-! ### Suspicion, fence and the next probe -/

/-- The fourth part: fence this node if most of the others are suspected or dead. -/
def checkFence : Swim :=
  let s := s.getAllHosts
  let others := s.ipc.hostsCache.filter fun h => h.1 ≠ s.ipc.nodeId
  let bad := others.filter fun h => h.2.state = .suspected ∨ h.2.state = .dead
  { s with
    ipc := s.ipc.setSelfFenced (0 < others.length ∧ others.length < bad.length * 2)
    counted := bad.map Prod.fst }

/-- The node of the next direct probe, with its place, from the `i`th after the last one on. -/
def probeTarget (start : Nat) : Nat → Nat → Option (Nat × Node)
  | 0, _ => none
  | n + 1, i =>
    let idx := (start + i) % s.ipc.hostsCache.length
    match s.ipc.hostsCache[idx]? with
    | none => none
    | some (node, host) =>
      if node ≠ s.ipc.nodeId ∧ host.state = .alive ∧
          ¬s.pendingDirectProbes.any fun probe => probe.targetNodeId = node then
        some (idx, node)
      else probeTarget start n (i + 1)

/-- The fifth part: one new direct probe. -/
def sendDirectProbe : Swim :=
  let s := s.getAllHosts
  if s.ipc.hostsCache.length > 1 then
    match s.probeTarget s.probeRoundRobinIdx s.ipc.hostsCache.length 0 with
    | none => s
    | some (idx, node) =>
      { s with
        pendingDirectProbes :=
          s.pendingDirectProbes ++ [⟨s.nextFuture, node, env.clock 0⟩]
        nextFuture := s.nextFuture + 1
        sent := s.sent ++ [(s.nextFuture, .heartbeat node)]
        probeRoundRobinIdx := (idx + 1) % s.ipc.hostsCache.length }
  else s

/-- Behind the loop of the third part. -/
def finishProbe : Swim := { (s.checkFence).sendDirectProbe env with checking := none }

/-- A suspected host whose time is over. -/
def suspicionOver (now : Time) (host : Host) : Bool :=
  host.state = .suspected && F32.le kSuspicionTimeoutSec (elapsed now host.stateChangedAt)

/-- The loop of the third part from position `i` on, with `n` positions left, to the await
or to the end. -/
def checkSuspicions (now : Time) : Nat → Nat → Swim → Swim
  | 0, _, s => s.finishProbe env
  | n + 1, i, s =>
    match s.ipc.hostsCache[i]? with
    | none => checkSuspicions now n (i + 1) s
    | some (node, host) =>
      if suspicionOver now host then
        let s := (s.setDead (env.clock i) node).confirm env node
        let (s, awaits) := s.triggerRecovery env node
        if awaits then { s with checking := some ⟨now, i + 1, i + 1 + n⟩ }
        else checkSuspicions now n (i + 1) s
      else checkSuspicions now n (i + 1) s

/-- `HeartbeatProbe` from its start to its await or its end. -/
def heartbeatProbe (now : Time) : Swim :=
  let s := ((s.checkDirectProbes env now).checkIndirectProbes env now).getAllHosts
  checkSuspicions env now s.ipc.hostsCache.length 0 s

/-- `HeartbeatProbe` when the answers to its broadcast are there. -/
def resumeProbe : Swim :=
  match s.checking with
  | none => s
  | some checking =>
    checkSuspicions env checking.now (checking.count - checking.next) checking.next s

/-! ### One node -/

/-- What happens on a node: the periodic probe starts if it is not under way, or goes on; a
send fails; a message arrives from a node that is held to be dead; a node is added or leaves;
some other task asks for the hosts. -/
inductive Op where
  | heartbeatProbe (env : ProbeEnv) (now : Time)
  | resumeProbe (env : ProbeEnv)
  | setDead (now : Time) (node : Node)
  | revive (now : Time) (node : Node)
  | addNode (now : Time) (ipAddress : String)
  | announceShutdown (env : ProbeEnv) (node : Node)
  | getAllHosts

def apply : Op → Swim
  | .heartbeatProbe env now => if s.checking.isNone then s.heartbeatProbe env now else s
  | .resumeProbe env => s.resumeProbe env
  | .setDead now node => s.setDead now node
  | .revive now node =>
    if node ≠ s.ipc.nodeId ∧ s.ipc.getNodeState node = .dead then
      { s with ipc := s.ipc.setAlive now node }
    else s
  | .addNode now ipAddress => { s with ipc := s.ipc.addNode now ipAddress }
  | .announceShutdown env node => s.announceShutdown env node
  | .getAllHosts => s.getAllHosts

end Swim
end Cluster
end IowarpCore
