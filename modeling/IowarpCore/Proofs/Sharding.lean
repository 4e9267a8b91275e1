/-
Where the tasks of the engine go on a cluster with one container on every node.

A task that was just sent stays where it is or is forwarded once, to the node of the
container its hash picks, and there it stays.
-/
import IowarpCore.Cte.Sharding
import IowarpCore.Proofs.Routing

namespace IowarpCore
namespace Cte

open Cluster (NodeId)

variable {D : Deployment} {schedule : PoolQuery → PoolQuery} {here n : NodeId}

theorem mem_nodeIds {numNodes n : UInt32} : n ∈ nodeIds numNodes ↔ n < numNodes := by
  unfold nodeIds
  rw [List.mem_map, UInt32.lt_iff_toNat_lt]
  constructor
  · intro hmem
    obtain ⟨i, hi, hn⟩ := hmem
    have hi' : i < numNodes.toNat := List.mem_range.mp hi
    rw [← hn, UInt32.toNat_ofNat_of_lt' (hi'.trans numNodes.toNat_lt)]
    exact hi'
  · intro hlt
    exact ⟨n.toNat, List.mem_range.mpr hlt, UInt32.ofNat_toNat⟩

/-- The node of the container that a hash picks. -/
def Deployment.owner (D : Deployment) (hash : UInt32) : NodeId := hash % D.numNodes

theorem owner_mem (hash : UInt32) : D.owner hash ∈ nodeIds D.numNodes :=
  mem_nodeIds.mpr (UInt32.mod_lt _ D.numNodes_pos)

theorem getContainerNodeId_network (hn : n ∈ nodeIds D.numNodes) :
    ((network D.numNodes schedule).info here).getContainerNodeId n = n := by
  have hfind : ((network D.numNodes schedule).info here).addressMap.find? n = some n :=
    AMap.find?_eq_some_iff.mpr (List.mem_map.mpr ⟨n, hn, rfl⟩)
  rw [Cluster.PoolInfo.getContainerNodeId, hfind, Option.getD_some]

theorem hasContainer_network :
    ((network D.numNodes schedule).info here).hasContainer n = true ↔ n = here := by
  show AMap.contains _ _ = true ↔ _
  rw [AMap.contains_iff]
  simp [network]

/-- With one node there is no other. -/
theorem eq_of_one_host (hone : (network D.numNodes schedule).hosts.length = 1)
    (hhere : here ∈ nodeIds D.numNodes) (hn : n ∈ nodeIds D.numNodes) : n = here := by
  obtain ⟨m, hm⟩ := List.length_eq_one_iff.mp hone
  have hm' : nodeIds D.numNodes = [m] := hm
  rw [hm', List.mem_singleton] at hhere hn
  rw [hn, hhere]

/-- A task whose query is resolved to one query. -/
theorem routeTask_resolved {t : Cluster.Task} {q q' : PoolQuery}
    (hq : (if t.poolQuery.routingMode = .dynamic then schedule t.poolQuery else t.poolQuery) = q)
    (hresolve : Cluster.resolvePoolQuery (network D.numNodes schedule) here q = [q']) :
    Cluster.routeTask (network D.numNodes schedule) here t =
      let net := network D.numNodes schedule
      if Cluster.isTaskLocal net here t [q'] then
        .here ⟨here, Cluster.executor net here q.containerId⟩
      else .forward (Cluster.sendReplica net here q').toList := by
  have hschedule : (network D.numNodes schedule).scheduleTask = schedule := rfl
  simp only [Cluster.routeTask, hschedule, hq, hresolve, List.isEmpty_cons, Bool.false_eq_true,
    if_false, Cluster.routeLocal_eq, Cluster.isTaskLocal]
  split
  · rfl
  · congr 1

/-- What `ScheduleTask` makes of the query `Dynamic`. -/
theorem scheduleTask_cases (hashers : Hashers) (c : Container) (t : Task) :
    (t.scheduleTask hashers c PoolQuery.dynamic = PoolQuery.localQuery ∧
        ∀ name preferredId, t = .getOrCreateTag name preferredId →
          c.tagNameToId.contains name = true) ∨
      (∃ hash, t.scheduleTask hashers c PoolQuery.dynamic = PoolQuery.directHash hash ∧
        ∀ name preferredId, t = .getOrCreateTag name preferredId → hash = hashers.string name) ∨
      (t.scheduleTask hashers c PoolQuery.dynamic = PoolQuery.dynamic ∧
        ∀ name preferredId, t ≠ .getOrCreateTag name preferredId) := by
  cases t with
  | getOrCreateTag name preferredId =>
    simp only [Task.scheduleTask]
    by_cases hknown : c.tagNameToId.contains name = true
    · rw [if_pos hknown]
      refine .inl ⟨rfl, fun name' _ heq => ?_⟩
      rw [Task.getOrCreateTag.injEq] at heq
      rw [← heq.1, hknown]
    · rw [if_neg hknown]
      refine .inr (.inl ⟨_, rfl, fun name' _ heq => ?_⟩)
      rw [Task.getOrCreateTag.injEq] at heq
      rw [heq.1]
  | delTag => exact .inr (.inr ⟨rfl, fun _ _ => by simp⟩)
  | flushData => exact .inr (.inr ⟨rfl, fun _ _ => by simp⟩)
  | _ => exact .inr (.inl ⟨_, rfl, fun _ _ heq => by simp at heq⟩)

/-- A query that stays. -/
theorem routeTask_stays {t : Cluster.Task} {q q' : PoolQuery} (hforce : t.forceNet = false)
    (hq : (if t.poolQuery.routingMode = .dynamic then schedule t.poolQuery else t.poolQuery) = q)
    (hresolve : Cluster.resolvePoolQuery (network D.numNodes schedule) here q = [q'])
    (hmode : q'.routingMode = .localMode ∨ q'.routingMode = .dynamic) :
    ∃ delivery, Cluster.routeTask (network D.numNodes schedule) here t = .here delivery ∧
      delivery.node = here := by
  have hlocal : Cluster.isTaskLocal (network D.numNodes schedule) here t [q'] = true := by
    rcases hmode with hmode | hmode
    · simp [Cluster.isTaskLocal, hforce, hmode]
    · simp [Cluster.isTaskLocal, hforce, hmode]
  rw [routeTask_resolved hq hresolve]
  simp only [hlocal, if_true]
  exact ⟨_, rfl, rfl⟩

/-- A hash goes to its owner: it stays there, and from elsewhere it is sent there by id. -/
theorem routeTask_hash {t : Cluster.Task} {hash : UInt32} (hforce : t.forceNet = false)
    (hhere : here ∈ nodeIds D.numNodes) (hq : (if t.poolQuery.routingMode = .dynamic
      then schedule t.poolQuery else t.poolQuery) = PoolQuery.directHash hash) :
    (∃ delivery, Cluster.routeTask (network D.numNodes schedule) here t = .here delivery ∧
        delivery.node = here ∧ D.owner hash = here) ∨
      ∃ t' : Cluster.Task, Cluster.routeTask (network D.numNodes schedule) here t =
          .forward [(D.owner hash, t')] ∧ t'.forceNet = false ∧
        t'.poolQuery.routingMode = .directId ∧ t'.poolQuery.containerId = D.owner hash := by
  have hpos : ((network D.numNodes schedule).info here).numContainers ≠ 0 := by
    have hlt := D.numNodes_pos
    exact UInt32.pos_iff_ne_zero.mp hlt
  have haddr : Cluster.Addresses (network D.numNodes schedule) here (PoolQuery.directHash hash)
      (D.owner hash) := .inr (.inl ⟨rfl, hpos, rfl⟩)
  by_cases howner : D.owner hash = here
  · left
    have hresolve := haddr.resolve_here (hasContainer_network.mpr howner)
    obtain ⟨delivery, hroute, hnode⟩ := routeTask_stays hforce hq hresolve (.inl rfl)
    exact ⟨delivery, hroute, hnode, howner⟩
  · right
    have hhas : ((network D.numNodes schedule).info here).hasContainer (D.owner hash) = false := by
      rw [← Bool.not_eq_true, hasContainer_network]
      exact howner
    have hresolve := haddr.resolve_away hhas (getContainerNodeId_network (owner_mem hash)) howner
    have haway : Cluster.away (D.owner hash) (PoolQuery.directHash hash) (D.owner hash) =
        PoolQuery.directId (D.owner hash) := rfl
    rw [haway] at hresolve
    have hlocal : Cluster.isTaskLocal (network D.numNodes schedule) here t
        [(PoolQuery.directId (D.owner hash)).setReturnNode here] = false := by
      have hmany : (network D.numNodes schedule).hosts.length ≠ 1 :=
        fun hone => howner (eq_of_one_host hone hhere (owner_mem hash))
      simp [Cluster.isTaskLocal, hforce, hmany, PoolQuery.setReturnNode, PoolQuery.directId]
    have htarget : Cluster.targetNode (network D.numNodes schedule) here
        ((PoolQuery.directId (D.owner hash)).setReturnNode here) = some (D.owner hash) :=
      congrArg some (getContainerNodeId_network (owner_mem hash))
    have hhost : D.owner hash ∈ (network D.numNodes schedule).hosts := owner_mem hash
    rw [routeTask_resolved hq hresolve]
    simp only [hlocal, Bool.false_eq_true, if_false, Cluster.sendReplica, htarget, hhost, if_true,
      Option.toList_some]
    exact ⟨_, rfl, rfl, rfl, rfl⟩

/-- A task on its way is as it was sent, or it was forwarded to its container. -/
structure Envelope.OnWay (D : Deployment) (e : Envelope) : Prop where
  node : e.node ∈ nodeIds D.numNodes
  forceNet : e.routed.forceNet = false
  query : e.routed.poolQuery = PoolQuery.dynamic ∨
    (e.routed.poolQuery.routingMode = .directId ∧ e.routed.poolQuery.containerId = e.node ∧
      ∀ name preferredId, e.task = .getOrCreateTag name preferredId →
        D.owner (D.hashers.string name) = e.node)

theorem onWay_submit {t : Task} (hhere : here ∈ nodeIds D.numNodes) :
    Envelope.OnWay D ⟨here, ⟨PoolQuery.dynamic, false⟩, t⟩ :=
  ⟨hhere, rfl, .inl rfl⟩

/-- **A hop keeps a task or brings it to its container.**  `GetOrCreateTag` stays only where
its name is known or where the name hashes to. -/
theorem hop_cases {s : System} {e : Envelope} (he : e.OnWay D) :
    (∃ delivery, s.hop D e = .here delivery ∧ delivery.node = e.node ∧
        ∀ name preferredId, e.task = .getOrCreateTag name preferredId →
          (s.container e.node).tagNameToId.contains name = true ∨
            D.owner (D.hashers.string name) = e.node) ∨
      ∃ n t, s.hop D e = .forward [(n, t)] ∧ Envelope.OnWay D ⟨n, t, e.task⟩ := by
  rcases he.query with hquery | ⟨hmode, hid, htag⟩
  · have heff : ∀ {q}, e.task.scheduleTask D.hashers (s.container e.node) PoolQuery.dynamic = q →
        (if e.routed.poolQuery.routingMode = .dynamic
          then e.task.scheduleTask D.hashers (s.container e.node) e.routed.poolQuery
          else e.routed.poolQuery) = q := by
      intro q hq
      rw [hquery]
      exact hq
    rcases scheduleTask_cases D.hashers (s.container e.node) e.task with
      ⟨hq, hknown⟩ | ⟨hash, hq, hhash⟩ | ⟨hq, hnot⟩
    · obtain ⟨delivery, hroute, hnode⟩ := routeTask_stays he.forceNet (heff hq) rfl (.inl rfl)
      exact .inl ⟨delivery, hroute, hnode, fun name p ht => .inl (hknown name p ht)⟩
    · rcases routeTask_hash he.forceNet he.node (heff hq) with
        ⟨delivery, hroute, hnode, howner⟩ | ⟨t, hroute, hforce, hmode, hid⟩
      · refine .inl ⟨delivery, hroute, hnode, fun name p ht => .inr ?_⟩
        rw [← hhash name p ht, howner]
      · refine .inr ⟨D.owner hash, t, hroute, owner_mem hash, hforce, .inr ⟨hmode, hid, ?_⟩⟩
        intro name p ht
        exact congrArg D.owner (hhash name p ht).symm
    · obtain ⟨delivery, hroute, hnode⟩ := routeTask_stays he.forceNet (heff hq) rfl (.inr rfl)
      exact .inl ⟨delivery, hroute, hnode, fun name p ht => absurd ht (hnot name p)⟩
  · have haddr : Cluster.Addresses (network D.numNodes
        (e.task.scheduleTask D.hashers (s.container e.node))) e.node e.routed.poolQuery e.node :=
      .inl ⟨hmode, hid⟩
    obtain ⟨delivery, hroute, hnode⟩ := routeTask_stays he.forceNet
      (by rw [hmode, if_neg (by decide)])
      (haddr.resolve_here (hasContainer_network.mpr rfl)) (.inl rfl)
    exact .inl ⟨delivery, hroute, hnode, fun name p ht => .inr (htag name p ht)⟩

end Cte
end IowarpCore
