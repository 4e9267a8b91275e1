/-
Retries after a recovery.

When the node of a queued request is dead, `RerouteRetryEntry` looks up where the container is
by now.  It answers with a node, and 0 stands for none, so a container that was recovered to
node 0 is not found (`retryIn_recovered`).  And it looks at the query the copy carries: a
DirectId query was resolved to a node before, which the copy keeps to.
-/
import IowarpCore.Cluster.Routing
import IowarpCore.Proofs.Remote

namespace IowarpCore
namespace Cluster

/-- A copy with this query is for the container: the query says so, or it is the node that a
DirectId query for the container was resolved to. -/
def IsFor (query : PoolQuery) (containerId : ContainerId) : Prop :=
  match query.routingMode with
  | .directId => query.containerId = containerId
  | .range => query.rangeOffset = containerId
  | .physical => ∃ (net : Network) (here : NodeId) (q : PoolQuery),
      q.routingMode = .directId ∧ q.containerId = containerId ∧ query ∈ resolvePoolQuery net here q
  | .localMode | .directHash | .broadcast | .dynamic => False

namespace NetState

variable {π : Type} {env : Env π} {s : NetState π} {entry : RetryEntry π}

/-- The node of entry number `i` is dead and its container is on an alive node by now; the
entry has time left, and the transport works. -/
structure Recovered (env : Env π) (s : NetState π) (i : Nat) (entry : RetryEntry π)
    (containerId : ContainerId) (newNode : NodeId) : Prop where
  isFor : IsFor entry.task.poolQuery containerId
  inTime : timedOut env entry = false
  dead : s.ipc.isAlive entry.targetNodeId = false
  mapped : env.containerNode entry.task.poolId containerId = newNode
  alive : s.ipc.isAlive newNode.toUInt64 = true
  pool : env.hasContainer entry.task.poolId = true
  transport : env.sendsIn i = true

/-- The task of the entry between the others is sent to the node, and the entry is gone. -/
def Served (env : Env π) (s : NetState π) (before : List (RetryEntry π)) (entry : RetryEntry π)
    (after : List (RetryEntry π)) (node : Node) : Prop :=
  let retriedBefore := s.retryInAll env 0 before
  let retriedAfter := s.retryInAll env (before.length + 1) after
  (s.processRetryQueues env).requests =
      s.requests ++ (retriedBefore.filterMap Retried.sent? ++
        (node, entry.task) :: retriedAfter.filterMap Retried.sent?) ∧
    (s.processRetryQueues env).sendInRetry =
      retriedBefore.filterMap Retried.kept? ++ retriedAfter.filterMap Retried.kept?

/-! ### One entry -/

theorem toUInt64_eq_zero_iff (node : NodeId) : node.toUInt64 = 0 ↔ node = 0 := by
  constructor
  · intro h
    have htoNat := congrArg UInt64.toNat h
    rw [UInt32.toNat_toUInt64] at htoNat
    exact UInt32.toNat_inj.mp htoNat
  · rintro rfl
    rfl

theorem isAlive_host {ipc : IpcManager} {node : Node} (h : ipc.isAlive node = true) :
    (ipc.getHost node).isSome = true := by
  unfold IpcManager.isAlive at h
  unfold IpcManager.getHost
  cases hhost : ipc.hostfileMap.find? node with
  | none =>
    rw [hhost] at h
    cases h
  | some host => rfl

/-- The entry is sent on if its copy carries the query itself and the new node is not 0. -/
theorem retryIn_recovered {i : Nat} {containerId : ContainerId} {newNode : NodeId}
    (h : Recovered env s i entry containerId newNode) :
    s.retryIn env i entry =
      if newNode ≠ 0 ∧ entry.task.poolQuery.routingMode ≠ .physical then
        .sent newNode.toUInt64 entry.task
      else .kept entry := by
  have hother : newNode.toUInt64 ≠ entry.targetNodeId := by
    intro heq
    have halive := h.alive
    rw [heq, h.dead] at halive
    cases halive
  have hreroute : rerouteRetryEntry env entry =
      if entry.task.poolQuery.routingMode ≠ .physical then newNode.toUInt64 else 0 := by
    have hfor := h.isFor
    have hnode : otherNode env entry containerId = newNode.toUInt64 := by
      unfold otherNode
      rw [h.mapped]
      dsimp only
      by_cases hzero : newNode = 0
      · rw [hzero]
        rfl
      · rw [if_pos ⟨fun heq => hzero ((toUInt64_eq_zero_iff newNode).mp heq), hother⟩]
    unfold IsFor at hfor
    unfold rerouteRetryEntry
    cases hmode : entry.task.poolQuery.routingMode with
    | directId =>
      rw [hmode] at hfor
      dsimp only at hfor ⊢
      rw [hfor, hnode]
      rfl
    | range =>
      rw [hmode] at hfor
      dsimp only at hfor ⊢
      rw [hfor, hnode]
      rfl
    | physical => rfl
    | localMode =>
      rw [hmode] at hfor
      exact absurd hfor id
    | directHash =>
      rw [hmode] at hfor
      exact absurd hfor id
    | broadcast =>
      rw [hmode] at hfor
      exact absurd hfor id
    | dynamic =>
      rw [hmode] at hfor
      exact absurd hfor id
  rw [retryIn, h.inTime, h.dead, hreroute]
  by_cases hphysical : entry.task.poolQuery.routingMode ≠ .physical
  · rw [if_pos hphysical]
    dsimp only
    by_cases hzero : newNode = 0
    · rw [if_neg (by decide), if_neg (by decide), if_neg fun hboth => hboth.1 (by rw [hzero]; rfl),
        if_neg fun hboth => hboth.1 hzero]
    · have hne : newNode.toUInt64 ≠ 0 := fun heq => hzero ((toUInt64_eq_zero_iff newNode).mp heq)
      have hsend : s.retrySendToNode env i entry newNode.toUInt64 = true := by
        rw [retrySendToNode, isAlive_host h.alive, h.pool, h.transport]
        rfl
      rw [if_neg (by decide), if_neg (by decide), if_pos ⟨hne, h.alive⟩, if_pos ⟨hzero, hphysical⟩,
        retryTo, if_pos hsend]
  · rw [if_neg hphysical, if_neg (by decide), if_neg (by decide)]
    dsimp only
    rw [if_neg fun hboth => hboth.1 rfl, if_neg fun hboth => hphysical hboth.2]

/-! ### The queue -/

theorem retryInAll_append (i : Nat) (before after : List (RetryEntry π)) :
    s.retryInAll env i (before ++ after) =
      s.retryInAll env i before ++ s.retryInAll env (i + before.length) after := by
  induction before generalizing i with
  | nil => rfl
  | cons entry before ih =>
    rw [List.cons_append, retryInAll, retryInAll, ih, List.cons_append, List.length_cons]
    congr 3
    omega

/-- What a call leaves of the queue of requests, and what it sends. -/
theorem processRetryQueues_requests (s : NetState π) :
    (s.processRetryQueues env).requests =
        s.requests ++ (s.retryInAll env 0 s.sendInRetry).filterMap Retried.sent? ∧
      (s.processRetryQueues env).sendInRetry =
        (s.retryInAll env 0 s.sendInRetry).filterMap Retried.kept? := by
  obtain ⟨ipc, recvMap, replies, sendOutRetry, hloop⟩ := @retryOut_writes π env
    (2 * (s.retriesIn env).sendOutRetry.length + 1) 0 0 (s.retriesIn env)
  rw [processRetryQueues, hloop]
  exact ⟨rfl, rfl⟩

/-- **A queued request whose container was recovered is sent to its new node by the next call
exactly if that is not node 0 and the request has kept its query.** -/
theorem served_iff (env : Env π) (s : NetState π) (before after : List (RetryEntry π))
    (entry : RetryEntry π) (containerId : ContainerId) (newNode : NodeId)
    (hqueue : s.sendInRetry = before ++ entry :: after)
    (h : Recovered env s before.length entry containerId newNode) :
    Served env s before entry after newNode.toUInt64 ↔
      newNode ≠ 0 ∧ entry.task.poolQuery.routingMode ≠ .physical := by
  have hall : s.retryInAll env 0 s.sendInRetry = s.retryInAll env 0 before ++
      s.retryIn env before.length entry :: s.retryInAll env (before.length + 1) after := by
    rw [hqueue, retryInAll_append, Nat.zero_add, retryInAll]
  unfold Served
  dsimp only
  rw [(processRetryQueues_requests s).1, (processRetryQueues_requests s).2, hall,
    retryIn_recovered h]
  by_cases hsent : newNode ≠ 0 ∧ entry.task.poolQuery.routingMode ≠ .physical
  · rw [if_pos hsent]
    refine iff_of_true ⟨?_, ?_⟩ hsent
    · rw [List.filterMap_append]
      rfl
    · rw [List.filterMap_append]
      rfl
  · rw [if_neg hsent]
    refine iff_of_false ?_ hsent
    rintro ⟨-, hkept⟩
    have hlength := congrArg List.length hkept
    rw [List.filterMap_append, List.filterMap_cons, List.length_append, List.length_append] at hlength
    simp only [Retried.kept?, List.length_cons] at hlength
    omega

/-! ### Inputs -/

/-- Three nodes; node 2 is dead. -/
def threeNodes : IpcManager where
  nodeId := 1
  hostfileMap :=
    ⟨[(0, ⟨"10.0.0.1", .alive, 0⟩), (1, ⟨"10.0.0.2", .alive, 0⟩), (2, ⟨"10.0.0.3", .dead, 0⟩)],
      by decide⟩
  hostsCache := []
  hostsCacheValid := false
  deadNodes := []
  selfFenced := false

/-- Every container is on the one node, and everything is sent. -/
def movedTo (node : NodeId) : Env Unit where
  now := 0
  hasContainer := fun _ => true
  containerNode := fun _ _ => node
  sendsIn := fun _ => true
  sendsOut := fun _ => true
  aggregate := fun _ _ => ()

/-- A request for node 2, just queued. -/
def queuedFor2 (query : PoolQuery) : RetryEntry Unit where
  task := ⟨1, 0, UniqueId.null, query, (), 1, 0⟩
  targetNodeId := 2
  enqueuedAt := 0

/-- A node with such a request in its queue. -/
def waiting (query : PoolQuery) : NetState Unit :=
  { start threeNodes with sendInRetry := [queuedFor2 query] }

theorem recovered_waiting {query : PoolQuery} {containerId : ContainerId} {node : NodeId}
    (hfor : IsFor query containerId) (htime : timedOut (movedTo node) (queuedFor2 query) = false)
    (halive : threeNodes.isAlive node.toUInt64 = true) :
    Recovered (movedTo node) (waiting query) 0 (queuedFor2 query) containerId node :=
  ⟨hfor, htime, show threeNodes.isAlive 2 = false by decide, rfl, halive, rfl, rfl⟩

/-- The container with id 5 moves from node 2 to node 1. -/
theorem served_iff_node1 :
    Served (movedTo 1) (waiting (PoolQuery.directId 5)) [] (queuedFor2 (PoolQuery.directId 5)) [] 1 ↔
      (1 : NodeId) ≠ 0 ∧ RoutingMode.directId ≠ RoutingMode.physical :=
  served_iff (movedTo 1) (waiting (PoolQuery.directId 5)) [] [] (queuedFor2 (PoolQuery.directId 5)) 5 1
    rfl (recovered_waiting rfl (by decide) (by decide))

/-- Node 0 holds container 5 to be on node 2. -/
def beforeRecovery : Network where
  hosts := [0, 1, 2]
  info := fun _ =>
    { numContainers := 6, containers := AMap.empty, addressMap := ⟨[(5, 2)], by decide⟩
      localContainer := none }
  isPlugged := fun _ => false
  neighborhoodSize := 32
  scheduleTask := id

theorem isFor_physical : IsFor (PoolQuery.physical 2) 5 :=
  ⟨beforeRecovery, 0, PoolQuery.directId 5, rfl, rfl, by decide⟩

/-- Container 5 was recovered to node 0, and the request for it stays where it is.  If it is
recovered to node 1, a request that a DirectId query was resolved to stays as well. -/
theorem recovered_not_served :
    (Recovered (movedTo 0) (waiting (PoolQuery.directId 5)) 0 (queuedFor2 (PoolQuery.directId 5)) 5 0 ∧
      ¬Served (movedTo 0) (waiting (PoolQuery.directId 5)) [] (queuedFor2 (PoolQuery.directId 5)) [] 0) ∧
    (Recovered (movedTo 1) (waiting (PoolQuery.physical 2)) 0 (queuedFor2 (PoolQuery.physical 2)) 5 1 ∧
      ¬Served (movedTo 1) (waiting (PoolQuery.physical 2)) [] (queuedFor2 (PoolQuery.physical 2)) [] 1) := by
  have hdirect := recovered_waiting (show IsFor (PoolQuery.directId 5) 5 from rfl)
    (show timedOut (movedTo 0) _ = false by decide) (by decide)
  have hphysical := recovered_waiting isFor_physical
    (show timedOut (movedTo 1) _ = false by decide) (by decide)
  have hkept {query : PoolQuery} {node : NodeId} {target : Node}
      (hin : (waiting query).retryIn (movedTo node) 0 (queuedFor2 query) = .kept (queuedFor2 query)) :
      ¬Served (movedTo node) (waiting query) [] (queuedFor2 query) [] target := by
    rintro ⟨-, hqueue⟩
    have hall : (waiting query).retryInAll (movedTo node) 0 (waiting query).sendInRetry =
        [.kept (queuedFor2 query)] := by
      show [(waiting query).retryIn (movedTo node) 0 (queuedFor2 query)] = _
      rw [hin]
    rw [(processRetryQueues_requests (waiting query)).2, hall] at hqueue
    cases hqueue
  exact ⟨⟨hdirect, hkept (retryIn_recovered hdirect)⟩, hphysical, hkept (retryIn_recovered hphysical)⟩

end NetState
end Cluster
end IowarpCore
