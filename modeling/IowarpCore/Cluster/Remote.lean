/-
Tasks that cross the network: `SendIn`, `SendOut`, `RecvIn`, `RecvOut`, the retry queues and
the timeouts of `admin_runtime.cc`.

A task for other nodes waits in `send_map_` under its own address.  Each copy of it that is
sent carries that address as its `net_key_` and the number of the replica.  The node that
receives a copy keeps it in `recv_map_` under a key made of the two, and the answer brings
both back.

One network worker per node runs all of this, so a function is one step.  A message is on the
wire from when it is sent to when it is taken up, and messages may overtake each other.
Whether the transport takes a message is up to the environment.

Not in the source are `sender` and `sendId`, which tell apart the tasks that have had one
address, and the records of what happened: `counted`, `aggregated` and `ended`.
-/
import IowarpCore.Cluster.Membership
import IowarpCore.Types

namespace IowarpCore
namespace Cluster

variable {π : Type}

/-- The copy of a task that goes to another node, and what that node makes of it.  `body` is
the rest of the task. -/
structure NetTask (π : Type) where
  netKey : UInt64
  replicaId : UInt32
  poolId : PoolId
  poolQuery : PoolQuery
  body : π
  sender : Node
  sendId : Nat
  deriving DecidableEq, Repr

/-- A task in `send_map_`, with its `RunContext`. -/
structure OriginTask (π : Type) where
  poolId : PoolId
  poolQuery : PoolQuery
  body : π
  returnCode : Int
  poolQueries : List PoolQuery
  subtasks : List (Option (NetTask π))
  completedReplicas : Nat
  /-- `container_` is set.  Only a task that came from a client has it set here. -/
  hasContainer : Bool
  sendId : Nat
  deriving DecidableEq, Repr

structure RetryEntry (π : Type) where
  task : NetTask π
  targetNodeId : Node
  enqueuedAt : Time
  deriving DecidableEq, Repr

/-- What one node's network worker works on. -/
structure NetState (π : Type) where
  ipc : IpcManager
  sendMap : AMap UInt64 (OriginTask π)
  recvMap : AMap UInt64 (NetTask π)
  sendInRetry : List (RetryEntry π)
  sendOutRetry : List (RetryEntry π)
  /-- Sent by `SendIn` and its retries, with the node they go to. -/
  requests : List (Node × NetTask π)
  /-- Sent by `SendOut`. -/
  replies : List (Node × NetTask π)
  /-- Received, and handed to the workers. -/
  dispatched : List (NetTask π)
  /-- One entry for each time `completed_replicas_` went up. -/
  counted : List (Nat × UInt32)
  /-- The answers, each with the task it was aggregated into. -/
  aggregated : List (NetTask π × Nat)
  /-- The tasks `EndTask` completed. -/
  ended : List (OriginTask π)
  nextSend : Nat

/-- What a step finds around it. -/
structure Env (π : Type) where
  now : Time
  /-- `GetStaticContainer` is not null. -/
  hasContainer : PoolId → Bool
  /-- `GetContainerNodeId`. -/
  containerNode : PoolId → UInt32 → UInt32
  /-- The `i`th request of the step gets a client and is sent. -/
  sendsIn : Nat → Bool
  /-- The same for answers. -/
  sendsOut : Nat → Bool
  /-- `LoadTask` into the replica and `Aggregate` into the origin. -/
  aggregate : π → π → π

def kNetworkTimeoutRC : Int := -1000

/-- 30 s. -/
def kRetryTimeoutSec : F32 := ⟨0x41f00000⟩

/-- The time a task may wait for a dead node. -/
def taskTimeout (query : PoolQuery) : F32 :=
  if F32.le F32.zero query.netTimeout then query.netTimeout else kRetryTimeoutSec

/-- `net_timeout >= 0 && net_timeout < 0.001f`. -/
def failsImmediately (query : PoolQuery) : Bool :=
  F32.le F32.zero query.netTimeout && F32.lt query.netTimeout ⟨0x3a83126f⟩

/-- The key of `recv_map_`. -/
def recvKey (task : NetTask π) : UInt64 :=
  task.netKey ^^^ (task.replicaId.toUInt64 * 0x9e3779b97f4a7c15)

namespace NetState

variable (env : Env π) (s : NetState π)

/-- A node that has just started. -/
def start (ipc : IpcManager) : NetState π :=
  { ipc := ipc, sendMap := .empty, recvMap := .empty, sendInRetry := [], sendOutRetry := [],
    requests := [], replies := [], dispatched := [], counted := [], aggregated := [], ended := [],
    nextSend := 0 }

/-- One more replica of the origin task under this key is complete. -/
def countReplica (key : UInt64) (replicaId : UInt32) : NetState π :=
  match s.sendMap.find? key with
  | none => s
  | some origin =>
    { s with
      sendMap := s.sendMap.insertOrAssign key
        { origin with completedReplicas := origin.completedReplicas + 1 }
      counted := s.counted ++ [(origin.sendId, replicaId)] }

def setDead (node : Node) : NetState π := { s with ipc := s.ipc.setDead env.now node }

def retryInLater (task : NetTask π) (target : Node) : NetState π :=
  { s with sendInRetry := s.sendInRetry ++ [⟨task, target, env.now⟩] }

def retryOutLater (task : NetTask π) (target : Node) : NetState π :=
  { s with sendOutRetry := s.sendOutRetry ++ [⟨task, target, env.now⟩] }

/-! ### Requests -/

/-- The node `SendIn` sends the copy for a query to. -/
def targetNodeId (poolId : PoolId) (query : PoolQuery) : Option Node :=
  match query.routingMode with
  | .localMode => some s.ipc.nodeId
  | .physical => some query.nodeId.toUInt64
  | .directId => some (env.containerNode poolId query.containerId).toUInt64
  | .range => some (env.containerNode poolId query.rangeOffset).toUInt64
  | .broadcast | .directHash | .dynamic => none

/-- The copy of an origin task for one of its queries. -/
def newCopyTask (addr : UInt64) (origin : OriginTask π) (i : Nat) (query : PoolQuery) :
    NetTask π where
  netKey := addr
  replicaId := UInt32.ofNat i
  poolId := origin.poolId
  poolQuery := { query with retNode := s.ipc.nodeId.toUInt32 }
  body := origin.body
  sender := s.ipc.nodeId
  sendId := origin.sendId

def setSubtask (addr : UInt64) (origin : OriginTask π) (i : Nat) (copy : NetTask π) : NetState π :=
  { s with
    sendMap := s.sendMap.insertOrAssign addr
      { origin with subtasks := origin.subtasks.set i (some copy) } }

/-- Send the copy, or queue it. -/
def sendCopy (i : Nat) (target : Node) (copy : NetTask π) : NetState π :=
  if env.sendsIn i then { s with requests := s.requests ++ [(target, copy)] }
  else (s.setDead env target).retryInLater env copy target

/-- The body of the loop of `SendIn`. -/
def sendInReplica (addr : UInt64) (i : Nat) (query : PoolQuery) : NetState π :=
  match s.sendMap.find? addr with
  | none => s
  | some origin =>
    match s.targetNodeId env origin.poolId query with
    | none => s
    | some target =>
      match s.ipc.getHost target with
      | none => s
      | some _ =>
        let copy := s.newCopyTask addr origin i query
        let s := s.setSubtask addr origin i copy
        if s.ipc.isAlive target then s.sendCopy env i target copy
        else if failsImmediately origin.poolQuery then s.countReplica addr copy.replicaId
        else s.retryInLater env copy target

/-- The loop of `SendIn` from replica `i` on. -/
def sendInLoop (addr : UInt64) : Nat → List PoolQuery → NetState π → NetState π
  | _, [], s => s
  | i, query :: queries, s => sendInLoop addr (i + 1) queries (s.sendInReplica env addr i query)

/-- What `SendIn` is given: a task with the `RunContext` `BeginTask` made for it and the
queries `RouteGlobal` stored there. -/
structure Outgoing (π : Type) where
  poolId : PoolId
  poolQuery : PoolQuery
  body : π
  poolQueries : List PoolQuery
  hasContainer : Bool

/-- The task goes into `send_map_`, with room for its replicas. -/
def addOrigin (addr : UInt64) (task : Outgoing π) : NetState π :=
  let origin : OriginTask π :=
    { poolId := task.poolId, poolQuery := task.poolQuery, body := task.body, returnCode := 0,
      poolQueries := task.poolQueries, subtasks := List.replicate task.poolQueries.length none,
      completedReplicas := 0, hasContainer := task.hasContainer, sendId := s.nextSend }
  { s with sendMap := s.sendMap.insertOrAssign addr origin, nextSend := s.nextSend + 1 }

def sendIn (addr : UInt64) (task : Outgoing π) : NetState π :=
  if env.hasContainer task.poolId then
    sendInLoop env addr 0 task.poolQueries (s.addOrigin addr task)
  else s

/-! ### Answers -/

def sendOut (k : Nat) (task : NetTask π) : NetState π :=
  if env.hasContainer task.poolId then
    match s.recvMap.find? (recvKey task) with
    | none => s
    | some _ =>
      let s := { s with recvMap := s.recvMap.erase (recvKey task) }
      let target := task.poolQuery.retNode.toUInt64
      if s.ipc.isAlive target then
        if env.sendsOut k then { s with replies := s.replies ++ [(target, task)] }
        else (s.setDead env target).retryOutLater env task target
      else s.retryOutLater env task target
  else s

/-! ### Retry queues -/

def timedOut (entry : RetryEntry π) : Bool :=
  F32.le (taskTimeout entry.task.poolQuery) (elapsed env.now entry.enqueuedAt)

/-- A node other than the entry's own that the container is on by now, or node 0. -/
def otherNode (entry : RetryEntry π) (containerId : UInt32) : Node :=
  let newNode := (env.containerNode entry.task.poolId containerId).toUInt64
  if newNode ≠ 0 ∧ newNode ≠ entry.targetNodeId then newNode else 0

def rerouteRetryEntry (entry : RetryEntry π) : Node :=
  match entry.task.poolQuery.routingMode with
  | .directId => otherNode env entry entry.task.poolQuery.containerId
  | .range => otherNode env entry entry.task.poolQuery.rangeOffset
  | .localMode | .directHash | .broadcast | .physical | .dynamic => 0

def retrySendToNode (i : Nat) (entry : RetryEntry π) (node : Node) : Bool :=
  (s.ipc.getHost node).isSome && env.hasContainer entry.task.poolId && env.sendsIn i

/-- What becomes of a queued request. -/
inductive Retried (π : Type) where
  | expired
  | sent (node : Node) (task : NetTask π)
  | kept (entry : RetryEntry π)

def retryTo (i : Nat) (entry : RetryEntry π) (node : Node) : Retried π :=
  if s.retrySendToNode env i entry node then .sent node entry.task
  else .kept { entry with targetNodeId := node }

/-- The first loop of `ProcessRetryQueues`, at one entry. -/
def retryIn (i : Nat) (entry : RetryEntry π) : Retried π :=
  if timedOut env entry then .expired
  else if s.ipc.isAlive entry.targetNodeId then s.retryTo env i entry entry.targetNodeId
  else
    let newNode := rerouteRetryEntry env entry
    if newNode ≠ 0 ∧ s.ipc.isAlive newNode then s.retryTo env i entry newNode else .kept entry

def Retried.kept? : Retried π → Option (RetryEntry π)
  | kept entry => some entry
  | expired | sent _ _ => none

def Retried.sent? : Retried π → Option (Node × NetTask π)
  | sent node task => some (node, task)
  | expired | kept _ => none

/-- What the first loop does with the entries from number `i` on. -/
def retryInAll : Nat → List (RetryEntry π) → List (Retried π)
  | _, [] => []
  | i, entry :: entries => s.retryIn env i entry :: retryInAll (i + 1) entries

def retriesIn : NetState π :=
  let retried := s.retryInAll env 0 s.sendInRetry
  { s with
    sendInRetry := retried.filterMap Retried.kept?
    requests := s.requests ++ retried.filterMap Retried.sent? }

/-- The second loop of `ProcessRetryQueues`, with the iterator at entry `i`, in its round `k`.
`SendOut` may add an entry at the end. -/
def retryOut : Nat → Nat → Nat → NetState π → NetState π
  | 0, _, _, s => s
  | fuel + 1, k, i, s =>
    match s.sendOutRetry[i]? with
    | none => s
    | some entry =>
      if timedOut env entry then
        retryOut fuel (k + 1) i { s with sendOutRetry := s.sendOutRetry.eraseIdx i }
      else if s.ipc.isAlive entry.targetNodeId then
        let s := s.sendOut env k entry.task
        retryOut fuel (k + 1) i { s with sendOutRetry := s.sendOutRetry.eraseIdx i }
      else retryOut fuel (k + 1) (i + 1) s

/-- An entry that `SendOut` adds is for a dead node and not sent again, so twice the length of
the queue is enough. -/
def processRetryQueues : NetState π :=
  let s := s.retriesIn env
  retryOut env (2 * s.sendOutRetry.length + 1) 0 0 s

/-! ### Timeouts and revival -/

/-- When a node was found dead, as `dead_map` has it. -/
def deadSince (node : Node) : Option Time :=
  (s.ipc.deadNodes.reverse.find? fun entry => entry.nodeId = node).map DeadNodeEntry.detectedAt

def waitsTooLong (origin : OriginTask π) : Bool :=
  origin.poolQueries.any fun query =>
    query.routingMode = .physical &&
      match s.deadSince query.nodeId.toUInt64 with
      | none => false
      | some detectedAt =>
        F32.le (taskTimeout origin.poolQuery) (elapsed env.now detectedAt)

/-- `EndTask` does nothing for a task without a container. -/
def scanSendMapTimeouts : NetState π :=
  { s with
    sendMap := s.sendMap.filter fun _ origin => !s.waitsTooLong env origin
    ended := s.ended ++
      ((s.sendMap.entries.map Prod.snd).filter fun origin =>
        s.waitsTooLong env origin && origin.hasContainer).map fun origin =>
          { origin with returnCode := kNetworkTimeoutRC } }

def flushStaleStateForNode (node : Node) : NetState π :=
  let stale := s.sendInRetry.filter fun entry => entry.targetNodeId = node
  let s := stale.foldl (fun s entry => s.countReplica entry.task.netKey entry.task.replicaId) s
  { s with
    sendInRetry := s.sendInRetry.filter fun entry => entry.targetNodeId ≠ node
    sendOutRetry := s.sendOutRetry.filter fun entry => entry.targetNodeId ≠ node }

/-! ### Arrivals -/

/-- A message from a node that is held to be dead. -/
def revive (sender : Node) : NetState π :=
  if sender ≠ s.ipc.nodeId ∧ s.ipc.getNodeState sender = .dead then
    let s := s.flushStaleStateForNode sender
    { s with ipc := s.ipc.setAlive env.now sender }
  else s

/-- `RecvIn`, for a message with one task, as every message is. -/
def recvIn (task : NetTask π) : NetState π :=
  if env.hasContainer task.poolId then
    let s := s.revive env task.poolQuery.retNode.toUInt64
    { s with
      recvMap := s.recvMap.insertOrAssign (recvKey task) task
      dispatched := s.dispatched ++ [task] }
  else s

/-- `RecvOut`.  A null replica would be dereferenced; there is none that was sent. -/
def recvOut (task : NetTask π) : NetState π :=
  match s.sendMap.find? task.netKey with
  | none => s
  | some origin =>
    if env.hasContainer origin.poolId = false then s
    else
      match (origin.subtasks[task.replicaId.toNat]?).join with
      | none => s
      | some _ =>
        let origin := { origin with
          body := env.aggregate origin.body task.body
          completedReplicas := origin.completedReplicas + 1 }
        let s := { s with
          counted := s.counted ++ [(origin.sendId, task.replicaId)]
          aggregated := s.aggregated ++ [(task, origin.sendId)] }
        if origin.completedReplicas = origin.subtasks.length then
          { s with
            sendMap := s.sendMap.erase task.netKey
            ended := s.ended ++ [{ origin with subtasks := [], hasContainer := true }] }
        else { s with sendMap := s.sendMap.insertOrAssign task.netKey origin }

/-! ### One node -/

/-- What happens on a node, with everything outside of it open.  `finish` is a dispatched task
that comes to its end, `reply` the answer to a request on the wire. -/
inductive NetOp (π : Type) where
  | sendIn (env : Env π) (addr : UInt64) (task : Outgoing π)
  | reply (env : Env π) (k : Nat) (body : π)
  | recvIn (env : Env π) (task : NetTask π)
  | finish (env : Env π) (i : Nat) (body : π)
  | processRetryQueues (env : Env π)
  | scanSendMapTimeouts (env : Env π)
  | setNodeState (now : Time) (node : Node) (state : NodeState)
  | setDead (now : Time) (node : Node)
  | setAlive (now : Time) (node : Node)

/-- The dispatched task at a place is through. -/
def finish (i : Nat) (body : π) : NetState π :=
  match s.dispatched[i]? with
  | none => s
  | some task =>
    { s with dispatched := s.dispatched.eraseIdx i }.sendOut env 0 { task with body := body }

/-- The request at a place of the wire is answered. -/
def reply (k : Nat) (body : π) : NetState π :=
  match s.requests[k]? with
  | none => s
  | some request =>
    { s with requests := s.requests.eraseIdx k }.recvOut env { request.2 with body := body }

def apply : NetOp π → NetState π
  | .sendIn env addr task => s.sendIn env addr task
  | .reply env k body => s.reply env k body
  | .recvIn env task => s.recvIn env task
  | .finish env i body => s.finish env i body
  | .processRetryQueues env => s.processRetryQueues env
  | .scanSendMapTimeouts env => s.scanSendMapTimeouts env
  | .setNodeState now node state => { s with ipc := s.ipc.setNodeState now node state }
  | .setDead now node => { s with ipc := s.ipc.setDead now node }
  | .setAlive now node => { s with ipc := s.ipc.setAlive now node }

end NetState
end Cluster
end IowarpCore
