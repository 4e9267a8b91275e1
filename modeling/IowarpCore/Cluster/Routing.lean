/-
How a task finds its container: the routing of `ipc_manager.cc`, the lookups of
`pool_manager.cc` it uses, and the part of `SendIn` that picks the node.

A task carries a `PoolQuery`.  The node a task is on resolves the query into queries that are
closer to a node; if that leaves the node itself the task runs here, else a copy of the task
goes to the node of each query, with that query in place of the task's own, and is routed
again there.  Which container runs a task that stays is decided from the query the task
carries, not from what it was resolved to.

A container is an object; the ids it is registered under are up to the maps.  The cluster is
looked at between two changes of its maps, and messages arrive.
-/
import IowarpCore.Lib.AMap
import IowarpCore.Types

namespace IowarpCore

abbrev ContainerId := UInt32

namespace PoolQuery

def directId (containerId : ContainerId) : PoolQuery :=
  { localQuery with routingMode := .directId, containerId := containerId }

def directHash (hash : UInt32) : PoolQuery :=
  { localQuery with routingMode := .directHash, hashValue := hash, containerId := 0 }

def range (offset count : UInt32) : PoolQuery :=
  { localQuery with
    routingMode := .range, containerId := 0, rangeOffset := offset, rangeCount := count }

def broadcast : PoolQuery := { localQuery with routingMode := .broadcast, containerId := 0 }

def dynamic : PoolQuery := { localQuery with routingMode := .dynamic, containerId := 0 }

def physical (nodeId : UInt32) : PoolQuery :=
  { localQuery with routingMode := .physical, containerId := 0, nodeId := nodeId }

def setReturnNode (node : UInt32) (q : PoolQuery) : PoolQuery := { q with retNode := node }

end PoolQuery

namespace Cluster

/-- Node ids are 32 bits wide in queries and in address maps. -/
abbrev NodeId := UInt32

/-- A `Container*`. -/
abbrev Container := Nat

/-- What one node knows of a pool. -/
structure PoolInfo where
  numContainers : UInt32
  /-- The containers on this node. -/
  containers : AMap ContainerId Container
  /-- The nodes of all containers. -/
  addressMap : AMap ContainerId NodeId
  localContainer : Option Container

structure Network where
  hosts : List NodeId
  info : NodeId → PoolInfo
  isPlugged : Container → Bool
  neighborhoodSize : UInt32
  /-- `ScheduleTask` of the pool's static container. -/
  scheduleTask : PoolQuery → PoolQuery

namespace PoolInfo

def hasContainer (info : PoolInfo) (containerId : ContainerId) : Bool :=
  info.containers.contains containerId

/-- `GetContainerNodeId`: node 0 if the map has no entry. -/
def getContainerNodeId (info : PoolInfo) (containerId : ContainerId) : NodeId :=
  (info.addressMap.find? containerId).getD 0

/-- `GetContainer`, with the node's default container for an id that is not here. -/
def getContainer (info : PoolInfo) (containerId : ContainerId) : Option Container :=
  let found :=
    if containerId ≠ PoolQuery.kInvalidContainerId then info.containers.find? containerId else none
  match found with
  | some container => some container
  | none => info.localContainer

end PoolInfo

/-! ### Resolving queries -/

/-- The loop of `ResolveRangeQuery` from piece `i` on. -/
def rangeLoop (containersPerQuery remainingContainers : UInt32) :
    Nat → UInt32 → UInt32 → List PoolQuery
  | 0, _, _ => []
  | n + 1, i, currentOffset =>
    let currentCount :=
      if i < remainingContainers then containersPerQuery + 1 else containersPerQuery
    if currentCount > 0 then
      PoolQuery.range currentOffset currentCount ::
        rangeLoop containersPerQuery remainingContainers n (i + 1) (currentOffset + currentCount)
    else rangeLoop containersPerQuery remainingContainers n (i + 1) currentOffset

/-- How many pieces a range is cut into. -/
def queriesToCreate (neighborhoodSize rangeCount : UInt32) : UInt32 :=
  let idealQueries := (rangeCount + neighborhoodSize - 1) / neighborhoodSize
  let queries := min idealQueries neighborhoodSize
  if queries ≤ 1 then rangeCount else queries

def splitRange (neighborhoodSize rangeOffset rangeCount : UInt32) : List PoolQuery :=
  let queries := queriesToCreate neighborhoodSize rangeCount
  rangeLoop (rangeCount / queries) (rangeCount % queries) queries.toNat 0 rangeOffset

variable (net : Network) (here : NodeId)

def resolveDirectIdQuery (q : PoolQuery) : List PoolQuery :=
  let info := net.info here
  if info.hasContainer q.containerId then [PoolQuery.localQuery]
  else [PoolQuery.physical (info.getContainerNodeId q.containerId)]

/-- A container that was found from a hash or a range: here, mapped to here, or elsewhere. -/
def resolveContainer (containerId : ContainerId) : List PoolQuery :=
  let info := net.info here
  if info.hasContainer containerId then [PoolQuery.localQuery]
  else if info.getContainerNodeId containerId = here then [PoolQuery.localQuery]
  else [PoolQuery.directId containerId]

def resolveDirectHashQuery (q : PoolQuery) : List PoolQuery :=
  let info := net.info here
  if info.numContainers = 0 then [q]
  else resolveContainer net here (q.hashValue % info.numContainers)

def resolveRangeQuery (q : PoolQuery) : List PoolQuery :=
  if q.rangeCount = 0 then []
  else if q.rangeCount = 1 then resolveContainer net here q.rangeOffset
  else splitRange net.neighborhoodSize q.rangeOffset q.rangeCount

def resolveBroadcastQuery (q : PoolQuery) : List PoolQuery :=
  let info := net.info here
  if info.numContainers = 0 then [q]
  else resolveRangeQuery net here (PoolQuery.range 0 info.numContainers)

def resolvePoolQuery (q : PoolQuery) : List PoolQuery :=
  let result :=
    match q.routingMode with
    | .localMode | .dynamic | .physical => [q]
    | .directId => resolveDirectIdQuery net here q
    | .directHash => resolveDirectHashQuery net here q
    | .range => resolveRangeQuery net here q
    | .broadcast => resolveBroadcastQuery net here q
  result.map (PoolQuery.setReturnNode here)

/-! ### Routing -/

/-- A task on its way. -/
structure Task where
  poolQuery : PoolQuery
  /-- `TASK_FORCE_NET`. -/
  forceNet : Bool
  deriving DecidableEq, Repr

/-- A task that runs, or waits because its container is plugged or missing. -/
structure Delivery where
  node : NodeId
  container : Option Container
  deriving DecidableEq, Repr

inductive Hop where
  | failed
  | here (delivery : Delivery)
  | forward (sent : List (NodeId × Task))

def isTaskLocal (t : Task) (queries : List PoolQuery) : Bool :=
  if t.forceNet then false
  else if net.hosts.length = 1 then true
  else
    match queries with
    | [query] =>
      match query.routingMode with
      | .localMode | .dynamic => true
      | .physical => query.nodeId = here
      | .directId | .directHash | .range | .broadcast => false
    | _ => false

/-- `RouteLocal`: the container that runs the task. -/
def routeLocal (t : Task) : Option Container :=
  match (net.info here).getContainer t.poolQuery.containerId with
  | none => none
  | some container => if net.isPlugged container then none else some container

/-- The node `SendIn` sends a copy with this query to. -/
def targetNode (q : PoolQuery) : Option NodeId :=
  match q.routingMode with
  | .localMode => some here
  | .physical => some q.nodeId
  | .directId => some ((net.info here).getContainerNodeId q.containerId)
  | .range => some ((net.info here).getContainerNodeId q.rangeOffset)
  | .broadcast | .directHash | .dynamic => none

/-- The copy `SendIn` makes for a query, as `RecvIn` takes it up. -/
def sendReplica (q : PoolQuery) : Option (NodeId × Task) :=
  match targetNode net here q with
  | none => none
  | some node =>
    if node ∈ net.hosts then some (node, ⟨q.setReturnNode here, false⟩) else none

/-- `RouteTask`, and `SendIn` for a task that leaves. -/
def routeTask (t : Task) : Hop :=
  let query :=
    if t.poolQuery.routingMode = .dynamic then net.scheduleTask t.poolQuery else t.poolQuery
  let t := { t with poolQuery := query }
  let queries := resolvePoolQuery net here query
  if queries.isEmpty then .failed
  else if isTaskLocal net here t queries then .here ⟨here, routeLocal net here t⟩
  else .forward (queries.filterMap (sendReplica net here))

/-- Where a task that starts on a node ends up, if so many hops are enough. -/
def deliver : Nat → NodeId → Task → Option (List Delivery)
  | 0, _, _ => none
  | fuel + 1, here, t =>
    match routeTask net here t with
    | .failed => some []
    | .here delivery => some [delivery]
    | .forward sent => (sent.mapM fun s => deliver fuel s.1 s.2).map List.flatten

end Cluster
end IowarpCore
