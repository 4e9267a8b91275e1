/-
The engine on a cluster: node `i` holds container `i`, as `InitAddressMap` lays them out.

A task starts on any node with the query `Dynamic`.  The node it is on routes it, here or
to another node, and where it stays it becomes a task of that container, which takes turns
with the others there.  Tasks on their way are routed in any order.

The history is not in the source.  It lists the `GetOrCreateTag` and `DelTag` tasks that
ended with code 0, in the order in which they ended.
-/
import IowarpCore.Cte.Tasks
import IowarpCore.Lib.Interleave

namespace IowarpCore
namespace Cte

open Bdev (Request Reply Devices)
open Cluster (NodeId)

/-- The ids of the nodes, counted from 0. -/
def nodeIds (numNodes : UInt32) : List NodeId := (List.range numNodes.toNat).map UInt32.ofNat

theorem nodup_nodeIds (numNodes : UInt32) : (nodeIds numNodes).Nodup := by
  refine (List.nodup_map_iff_inj_on List.nodup_range).mpr ?_
  intro i hi j hj h
  have hi' : i < UInt32.size := (List.mem_range.mp hi).trans numNodes.toNat_lt
  have hj' : j < UInt32.size := (List.mem_range.mp hj).trans numNodes.toNat_lt
  have hval := congrArg UInt32.toNat h
  rwa [UInt32.toNat_ofNat_of_lt' hi', UInt32.toNat_ofNat_of_lt' hj'] at hval

/-- The pool of the engine on every node. -/
def network (numNodes : UInt32) (scheduleTask : PoolQuery → PoolQuery) : Cluster.Network where
  hosts := nodeIds numNodes
  info here :=
    { numContainers := numNodes
      containers := ⟨[(here, here.toNat)], List.nodup_singleton _⟩
      addressMap := ⟨(nodeIds numNodes).map fun n => (n, n),
        by rw [List.map_map, Function.comp_def, List.map_id']; exact nodup_nodeIds numNodes⟩
      localContainer := some here.toNat }
  isPlugged _ := false
  neighborhoodSize := 32
  scheduleTask := scheduleTask

/-- A cluster with the configuration of each node. -/
structure Deployment where
  numNodes : UInt32
  numNodes_pos : 0 < numNodes
  hashers : Hashers
  config : NodeId → Config
  config_nodeId : ∀ n, (config n).nodeId = n

/-- A task on its way, with the node it is on. -/
structure Envelope where
  node : NodeId
  routed : Cluster.Task
  task : Task

/-- A tag task that ended with code 0. -/
inductive TagEvent where
  | got (tagName : Bytes) (tagId : TagId)
  | deleted (tagId : TagId)
  deriving DecidableEq, Repr

def TagEvent.of : Task × UInt32 × TagId → List TagEvent
  | (.getOrCreateTag tagName _, rc, tagId) => if rc = 0 then [.got tagName tagId] else []
  | (.delTag _ _, rc, tagId) => if rc = 0 then [.deleted tagId] else []
  | _ => []

/-- The tasks of one container. -/
abbrev Shard := Co.Pool Task Container Devices Request Reply (UInt32 × TagId)

structure System where
  shards : NodeId → Shard
  inFlight : List Envelope
  history : List TagEvent

namespace System

def container (s : System) (n : NodeId) : Container := (s.shards n).world.c

/-- What `RouteTask` makes of a task on its way. -/
def hop (D : Deployment) (s : System) (e : Envelope) : Cluster.Hop :=
  Cluster.routeTask
    (network D.numNodes (e.task.scheduleTask D.hashers (s.container e.node))) e.node e.routed

/-- The tasks of node `n` took a step to `p`. -/
def after (s : System) (n : NodeId) (m : Co.Move Task) (p : Shard) (inFlight : List Envelope) :
    System where
  shards := Function.update s.shards n p
  inFlight := inFlight
  history := s.history ++ ((Co.finished m (s.shards n) p).map TagEvent.of).getD []

end System

/-- A sender asks for no id, or for one that was got for the name. -/
def Task.Preferred (history : List TagEvent) : Task → Prop
  | getOrCreateTag tagName preferredId =>
    preferredId = UniqueId.null ∨ .got tagName preferredId ∈ history
  | _ => True

inductive Action where
  | submit (here : NodeId) (t : Task)
  | route (i : Nat)
  | work (here : NodeId) (m : Co.Move Task)

/-- One step of the cluster. -/
inductive System.Steps (D : Deployment) (S : Request → Devices → Reply → Devices → Prop) :
    Action → System → System → Prop
  | submit {s : System} {here : NodeId} {t : Task} : here ∈ nodeIds D.numNodes →
      t.Preferred s.history →
      Steps D S (.submit here t) s
        { s with inFlight := s.inFlight ++ [⟨here, ⟨PoolQuery.dynamic, false⟩, t⟩] }
  | failed {s : System} {pre post : List Envelope} {e : Envelope} :
      s.inFlight = pre ++ e :: post → s.hop D e = .failed →
      Steps D S (.route pre.length) s { s with inFlight := pre ++ post }
  | forward {s : System} {pre post : List Envelope} {e : Envelope}
      {sent : List (NodeId × Cluster.Task)} :
      s.inFlight = pre ++ e :: post → s.hop D e = .forward sent →
      Steps D S (.route pre.length) s
        { s with inFlight := pre ++ (sent.map fun x => ⟨x.1, x.2, e.task⟩) ++ post }
  | start {s : System} {pre post : List Envelope} {e : Envelope} {delivery : Cluster.Delivery}
      {p : Shard} : s.inFlight = pre ++ e :: post → s.hop D e = .here delivery →
      Co.Moves S (Task.reply (D.config delivery.node)) (.start e.task) (s.shards delivery.node) p →
      Steps D S (.route pre.length) s (s.after delivery.node (.start e.task) p (pre ++ post))
  | work {s : System} {here : NodeId} {m : Co.Move Task} {p : Shard} :
      here ∈ nodeIds D.numNodes → (∀ t, m ≠ .start t) →
      Co.Moves S (Task.reply (D.config here)) m (s.shards here) p →
      Steps D S (.work here m) s (s.after here m p s.inFlight)

/-- The cluster after the pool was created: new containers, no tasks. -/
def System.init (targets : NodeId → Targets) (numLogs : NodeId → Nat) (d : NodeId → Devices) :
    System where
  shards n := ⟨⟨Container.create (targets n) (numLogs n), d n⟩, [], []⟩
  inFlight := []
  history := []

end Cte
end IowarpCore
