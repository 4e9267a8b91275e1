/-
Where tasks end up.

A task for one container always reaches the node of that container, in at most three hops
(`deliver_single`).  Which container runs it there is another matter: the id it is looked up by
is the one in the query the task arrived with, and a hop may have replaced that query by one
without an id (`runs_on_container_iff`).

A range is cut into pieces that cover it without overlap, and every piece is shorter than the
range, so a broadcast is delivered once for each container (`deliver_pieces`).  The last piece is
a range of one container, which has no id either (`fanOut_exact_iff`).
-/
import IowarpCore.Cluster.Routing

namespace IowarpCore
namespace Cluster

/-! ### Cutting a range -/

/-- The positions of a piece. -/
def span (piece : UInt32 × UInt32) : List Nat := List.range' piece.1.toNat piece.2.toNat

def rangeOf (piece : UInt32 × UInt32) : PoolQuery := PoolQuery.range piece.1 piece.2

theorem rangeLoop_spec {per rem : UInt32} {bound : Nat} (hper : per.toNat + 1 < 2 ^ 32)
    (hbound : per.toNat + (if 0 < rem.toNat then 1 else 0) ≤ bound) (n : Nat) :
    ∀ i off : UInt32, i.toNat + n < 2 ^ 32 → rem.toNat ≤ i.toNat + n →
      off.toNat + (n * per.toNat + (rem.toNat - i.toNat)) < 2 ^ 32 →
      ∃ ps : List (UInt32 × UInt32), rangeLoop per rem n i off = ps.map rangeOf ∧
        ps.flatMap span = List.range' off.toNat (n * per.toNat + (rem.toNat - i.toNat)) ∧
        ∀ p ∈ ps, 0 < p.2.toNat ∧ p.2.toNat ≤ bound := by
  induction n with
  | zero =>
    intro i off _ hrem _
    have hsub : rem.toNat - i.toNat = 0 := by omega
    exact ⟨[], rfl, by simp [hsub], by simp⟩
  | succ n ih =>
    intro i off hi hrem hoff
    have hnext : (i + 1).toNat = i.toNat + 1 := by
      rw [UInt32.toNat_add]
      exact Nat.mod_eq_of_lt (by simp; omega)
    -- What the piece at `i` takes, and what is left behind it.
    obtain ⟨count, hcount, hsum, hle⟩ : ∃ count : UInt32,
        (if i < rem then per + 1 else per) = count ∧
        (n + 1) * per.toNat + (rem.toNat - i.toNat) =
          count.toNat + (n * per.toNat + (rem.toNat - (i + 1).toNat)) ∧
        count.toNat ≤ bound := by
      by_cases hlt : i < rem
      · have hlt' : i.toNat < rem.toNat := UInt32.lt_iff_toNat_lt.mp hlt
        have hadd : (per + 1).toNat = per.toNat + 1 := by
          rw [UInt32.toNat_add]
          exact Nat.mod_eq_of_lt hper
        refine ⟨per + 1, if_pos hlt, ?_, ?_⟩
        · rw [hadd, hnext, Nat.succ_mul]
          omega
        · rw [if_pos (by omega)] at hbound
          omega
      · have hge : ¬i.toNat < rem.toNat := fun h => hlt (UInt32.lt_iff_toNat_lt.mpr h)
        refine ⟨per, if_neg hlt, ?_, by omega⟩
        rw [hnext, Nat.succ_mul]
        omega
    have hadd : (off + count).toNat = off.toNat + count.toNat := by
      rw [UInt32.toNat_add]
      exact Nat.mod_eq_of_lt (by omega)
    rw [rangeLoop, hcount, hsum]
    by_cases hpos : count > 0
    · rw [if_pos hpos]
      obtain ⟨ps, hloop, hspan, hps⟩ := ih (i + 1) (off + count) (by omega) (by omega) (by omega)
      refine ⟨(off, count) :: ps, by rw [hloop]; rfl, ?_, ?_⟩
      · rw [List.flatMap_cons, hspan, hadd, span, List.range'_append_1]
      · intro p hp
        rcases List.mem_cons.mp hp with rfl | hp
        · exact ⟨UInt32.lt_iff_toNat_lt.mp hpos, hle⟩
        · exact hps p hp
    · have hzero : count.toNat = 0 := by
        rw [gt_iff_lt, UInt32.lt_iff_toNat_lt] at hpos
        simpa using hpos
      rw [if_neg hpos, hzero, Nat.zero_add]
      exact ih (i + 1) off (by omega) (by omega) (by omega)

/-- At least two pieces, and no more than there are containers. -/
theorem queriesToCreate_spec {size count : UInt32} (hsize : 1 ≤ size.toNat)
    (hcount : 2 ≤ count.toNat) :
    2 ≤ (queriesToCreate size count).toNat ∧
      (queriesToCreate size count).toNat ≤ count.toNat := by
  rw [queriesToCreate]
  split
  · exact ⟨hcount, Nat.le_refl _⟩
  next hmany =>
    rw [UInt32.le_iff_toNat_le, Nat.not_le] at hmany
    refine ⟨hmany, ?_⟩
    have hmin : (min ((count + size - 1) / size) size).toNat ≤ ((count + size - 1) / size).toNat := by
      rw [UInt32.toNat_min]
      exact Nat.min_le_left _ _
    refine Nat.le_trans hmin ?_
    rw [UInt32.toNat_div]
    have hlt := count.toNat_lt
    have hlt' := size.toNat_lt
    have hsum : (count + size - 1).toNat ≤ count.toNat + size.toNat - 1 := by
      rw [UInt32.toNat_sub, UInt32.toNat_add]
      simp only [UInt32.reduceToNat]
      by_cases hwrap : count.toNat + size.toNat < 2 ^ 32
      · omega
      · omega
    refine Nat.le_trans (Nat.div_le_div_right hsum) ?_
    rw [Nat.div_le_iff_le_mul_add_pred hsize]
    have hmul : count.toNat ≤ size.toNat * count.toNat := Nat.le_mul_of_pos_left _ hsize
    omega

/-- The pieces of a range cover it without overlap, and each is shorter than the range. -/
theorem splitRange_spec {size off count : UInt32} (hsize : 1 ≤ size.toNat) (hcount : 2 ≤ count.toNat)
    (hfits : off.toNat + count.toNat < 2 ^ 32) :
    ∃ ps : List (UInt32 × UInt32), splitRange size off count = ps.map rangeOf ∧
      ps.flatMap span = List.range' off.toNat count.toNat ∧ 2 ≤ ps.length ∧
      ∀ p ∈ ps, 0 < p.2.toNat ∧ p.2.toNat < count.toNat := by
  obtain ⟨htwo, hle⟩ := queriesToCreate_spec hsize hcount
  generalize hq : queriesToCreate size count = q at htwo hle
  have hrem : (count % q).toNat < q.toNat := by
    rw [UInt32.toNat_mod]
    exact Nat.mod_lt _ (by omega)
  have htotal : q.toNat * (count / q).toNat + ((count % q).toNat - (0 : UInt32).toNat) =
      count.toNat := by
    rw [UInt32.toNat_div, UInt32.toNat_mod]
    exact Nat.div_add_mod _ _
  have hhalf : (count / q).toNat ≤ count.toNat / 2 := by
    rw [UInt32.toNat_div]
    exact Nat.div_le_div_left htwo (by decide)
  have hshort : (count / q).toNat + (if 0 < (count % q).toNat then 1 else 0) ≤ count.toNat - 1 := by
    split
    next hpos =>
      -- A remainder takes more containers than pieces, so three at least.
      have hthree : 3 ≤ count.toNat := by
        by_contra hlt
        have heq : count.toNat = q.toNat := by omega
        rw [UInt32.toNat_mod, heq, Nat.mod_self] at hpos
        exact absurd hpos (Nat.lt_irrefl 0)
      omega
    next => omega
  have hlt := count.toNat_lt
  obtain ⟨ps, hloop, hspan, hps⟩ := rangeLoop_spec (by omega) hshort q.toNat 0 off
    (by simpa using q.toNat_lt) (by rw [UInt32.toNat_zero, Nat.zero_add]; exact Nat.le_of_lt hrem)
    (by rw [htotal]; exact hfits)
  rw [htotal] at hspan
  refine ⟨ps, by rw [splitRange, hq, hloop], hspan, ?_, ?_⟩
  · match ps with
    | [] =>
      have hlen := congrArg List.length hspan
      simp at hlen
      omega
    | [p] =>
      have hlen := congrArg List.length hspan
      have hp := (hps p (by simp)).2
      simp [span] at hlen
      omega
    | _ :: _ :: _ => simp
  · intro p hp
    obtain ⟨hpos, hbound⟩ := hps p hp
    exact ⟨hpos, by omega⟩

/-! ### Maps that agree -/

/-- Every node has the same address map, and hosts the containers that are mapped to it. -/
structure Agrees (net : Network) (owner : ContainerId → Option NodeId) : Prop where
  address : ∀ n ∈ net.hosts, ∀ c, (net.info n).addressMap.find? c = owner c
  registered : ∀ n ∈ net.hosts, ∀ c, (net.info n).hasContainer c = true ↔ owner c = some n
  hosted : ∀ c n, owner c = some n → n ∈ net.hosts

section

variable {net : Network} {owner : ContainerId → Option NodeId} {origin here n : NodeId}
  {c : ContainerId} {q : PoolQuery} {t : Task}

theorem Agrees.nodeId (h : Agrees net owner) (hhere : here ∈ net.hosts) (howner : owner c = some n) :
    (net.info here).getContainerNodeId c = n := by
  rw [PoolInfo.getContainerNodeId, h.address here hhere, howner]
  rfl

/-- The container that runs a task whose query has this id. -/
def executor (net : Network) (node : NodeId) (id : ContainerId) : Option Container :=
  match (net.info node).getContainer id with
  | none => none
  | some container => if net.isPlugged container then none else some container

theorem routeLocal_eq : routeLocal net here t = executor net here t.poolQuery.containerId := rfl

/-! ### Hops of a task with one target -/

/-- A query that is resolved to one query. -/
theorem routeTask_single {q' : PoolQuery} (hmode : t.poolQuery.routingMode ≠ .dynamic)
    (hresolve : resolvePoolQuery net here t.poolQuery = [q']) :
    routeTask net here t =
      if isTaskLocal net here t [q'] then .here ⟨here, executor net here t.poolQuery.containerId⟩
      else .forward (sendReplica net here q').toList := by
  simp only [routeTask, if_neg hmode, hresolve, List.isEmpty_cons, Bool.false_eq_true, if_false,
    routeLocal_eq, isTaskLocal]
  split
  · rfl
  · congr 1

theorem isTaskLocal_local (hforce : t.forceNet = false) (hmode : q.routingMode = .localMode) :
    isTaskLocal net here t [q] = true := by
  simp [isTaskLocal, hforce, hmode]

/-- A copy that was sent as `Local`, or to this very node, runs here. -/
theorem deliver_arrived {fuel : Nat} (hforce : t.forceNet = false)
    (hmode : t.poolQuery.routingMode = .localMode ∨
      t.poolQuery.routingMode = .physical ∧ t.poolQuery.nodeId = here) :
    deliver net (fuel + 1) here t =
      some [⟨here, executor net here t.poolQuery.containerId⟩] := by
  have hroute : routeTask net here t =
      .here ⟨here, executor net here t.poolQuery.containerId⟩ := by
    rcases hmode with hmode | ⟨hmode, hnode⟩
    · rw [routeTask_single (by simp [hmode]) (by simp only [resolvePoolQuery, hmode]; rfl)]
      simp [isTaskLocal, hforce, hmode, PoolQuery.setReturnNode]
    · rw [routeTask_single (by simp [hmode]) (by simp only [resolvePoolQuery, hmode]; rfl)]
      simp [isTaskLocal, hforce, hmode, hnode, PoolQuery.setReturnNode]
  rw [deliver, hroute]

/-- The query is for the container, by its id, by a hash or as a range of one. -/
def Addresses (net : Network) (here : NodeId) (q : PoolQuery) (c : ContainerId) : Prop :=
  (q.routingMode = .directId ∧ q.containerId = c) ∨
  (q.routingMode = .directHash ∧ (net.info here).numContainers ≠ 0 ∧
    q.hashValue % (net.info here).numContainers = c) ∨
  (q.routingMode = .range ∧ q.rangeCount = 1 ∧ q.rangeOffset = c)

theorem Addresses.mode (h : Addresses net here q c) : q.routingMode ≠ .dynamic := by
  rcases h with ⟨hmode, _⟩ | ⟨hmode, _⟩ | ⟨hmode, _⟩ <;> simp [hmode]

theorem Addresses.resolve_here (h : Addresses net here q c)
    (hhas : (net.info here).hasContainer c = true) :
    resolvePoolQuery net here q = [PoolQuery.localQuery.setReturnNode here] := by
  rcases h with ⟨hmode, hc⟩ | ⟨hmode, hnum, hc⟩ | ⟨hmode, hone, hc⟩
  · simp [resolvePoolQuery, hmode, resolveDirectIdQuery, hc, hhas]
  · simp [resolvePoolQuery, hmode, resolveDirectHashQuery, hnum, hc, resolveContainer, hhas]
  · simp [resolvePoolQuery, hmode, resolveRangeQuery, hone, hc, resolveContainer, hhas]

/-- What a node makes of a query for a container on another node. -/
def away (node : NodeId) (q : PoolQuery) (c : ContainerId) : PoolQuery :=
  if q.routingMode = .directId then PoolQuery.physical node else PoolQuery.directId c

theorem Addresses.resolve_away (h : Addresses net here q c)
    (hhas : (net.info here).hasContainer c = false)
    (hnode : (net.info here).getContainerNodeId c = n) (hne : n ≠ here) :
    resolvePoolQuery net here q = [(away n q c).setReturnNode here] := by
  rcases h with ⟨hmode, hc⟩ | ⟨hmode, hnum, hc⟩ | ⟨hmode, hone, hc⟩
  · simp [resolvePoolQuery, hmode, resolveDirectIdQuery, hc, hhas, hnode, away]
  · simp [resolvePoolQuery, hmode, resolveDirectHashQuery, hnum, hc, resolveContainer, hhas, hnode,
      hne, away]
  · simp [resolvePoolQuery, hmode, resolveRangeQuery, hone, hc, resolveContainer, hhas, hnode, hne,
      away]

/-- The id in the query a task for a container has on the node that runs it. -/
def idOnArrival (origin n : NodeId) (q : PoolQuery) (c : ContainerId) (forceNet : Bool) :
    ContainerId :=
  if origin = n then
    if forceNet then PoolQuery.kInvalidContainerId else q.containerId
  else if q.routingMode = .directId then 0 else c

theorem Agrees.one_host (h : Agrees net owner) (horigin : origin ∈ net.hosts)
    (howner : owner c = some n) (hone : net.hosts.length = 1) : origin = n := by
  obtain ⟨m, hm⟩ := List.length_eq_one_iff.mp hone
  have hn := h.hosted c n howner
  rw [hm, List.mem_singleton] at horigin hn
  rw [horigin, hn]

/-- A task that is on the node of its container. -/
theorem deliver_at_owner {fuel : Nat} (h : Agrees net owner) (howner : owner c = some n)
    (hq : Addresses net n t.poolQuery c) :
    deliver net (fuel + 2) n t =
      some [⟨n, executor net n
        (if t.forceNet then PoolQuery.kInvalidContainerId else t.poolQuery.containerId)⟩] := by
  have hn := h.hosted c n howner
  have hresolve := hq.resolve_here ((h.registered n hn c).mpr howner)
  have hroute := routeTask_single hq.mode hresolve
  cases hforce : t.forceNet with
  | false =>
    rw [isTaskLocal_local hforce rfl, if_pos rfl] at hroute
    rw [deliver, hroute]
    rfl
  | true =>
    have hsent : sendReplica net n (PoolQuery.localQuery.setReturnNode n) =
        some (n, ⟨PoolQuery.localQuery.setReturnNode n, false⟩) := by
      simp [sendReplica, targetNode, PoolQuery.setReturnNode, PoolQuery.localQuery, hn]
    have hnet : isTaskLocal net n t [PoolQuery.localQuery.setReturnNode n] = false := by
      simp [isTaskLocal, hforce]
    rw [hnet, if_neg (by simp), hsent] at hroute
    have harrived : deliver net (fuel + 1) n
          ⟨PoolQuery.localQuery.setReturnNode n, false⟩ =
        some [⟨n, executor net n PoolQuery.kInvalidContainerId⟩] :=
      deliver_arrived rfl (Or.inl rfl)
    rw [deliver, hroute]
    simp [harrived]

/-- A task for one container gets to the node of the container, in three hops at most. -/
theorem deliver_single {fuel : Nat} (h : Agrees net owner) (horigin : origin ∈ net.hosts)
    (howner : owner c = some n) (hq : Addresses net origin t.poolQuery c) :
    deliver net (fuel + 3) origin t =
      some [⟨n, executor net n (idOnArrival origin n t.poolQuery c t.forceNet)⟩] := by
  by_cases heq : origin = n
  · subst heq
    rw [deliver_at_owner h howner hq, idOnArrival, if_pos rfl]
  · have hn := h.hosted c n howner
    have hhas : (net.info origin).hasContainer c = false := by
      rw [Bool.eq_false_iff, ne_eq, h.registered origin horigin c, howner, Option.some.injEq]
      exact fun hne => heq hne.symm
    have hnode := h.nodeId horigin howner
    have hmany : ¬net.hosts.length = 1 := fun hone => heq (h.one_host horigin howner hone)
    have hresolve := hq.resolve_away hhas hnode (Ne.symm heq)
    have hroute := routeTask_single hq.mode hresolve
    rw [idOnArrival, if_neg heq]
    by_cases hmode : t.poolQuery.routingMode = .directId
    · have hlocal : isTaskLocal net origin t [(away n t.poolQuery c).setReturnNode origin] = false := by
        simp [isTaskLocal, hmany, away, hmode, PoolQuery.physical, PoolQuery.setReturnNode,
          Ne.symm heq]
      have hsent : sendReplica net origin ((away n t.poolQuery c).setReturnNode origin) =
          some (n, ⟨(PoolQuery.physical n).setReturnNode origin, false⟩) := by
        simp [sendReplica, targetNode, away, hmode, PoolQuery.physical, PoolQuery.setReturnNode, hn]
      have harrived : deliver net (fuel + 2) n
            ⟨(PoolQuery.physical n).setReturnNode origin, false⟩ =
          some [⟨n, executor net n 0⟩] :=
        deliver_arrived rfl (Or.inr ⟨rfl, rfl⟩)
      rw [hlocal, if_neg (by simp), hsent] at hroute
      rw [deliver, hroute, if_pos hmode]
      simp [harrived]
    · have hlocal : isTaskLocal net origin t [(away n t.poolQuery c).setReturnNode origin] = false := by
        simp [isTaskLocal, hmany, away, hmode, PoolQuery.directId, PoolQuery.setReturnNode]
      have hsent : sendReplica net origin ((away n t.poolQuery c).setReturnNode origin) =
          some (n, ⟨(PoolQuery.directId c).setReturnNode origin, false⟩) := by
        simp [sendReplica, targetNode, away, hmode, PoolQuery.directId, PoolQuery.setReturnNode,
          hnode, hn]
      have harrived : deliver net (fuel + 2) n
            ⟨(PoolQuery.directId c).setReturnNode origin, false⟩ =
          some [⟨n, executor net n c⟩] := by
        rw [deliver_at_owner h howner (Or.inl ⟨rfl, rfl⟩)]
        rfl
      rw [hlocal, if_neg (by simp), hsent] at hroute
      rw [deliver, hroute, if_neg hmode]
      simp [harrived]

end

/-! ### The container that runs a task -/

/-- A query without an id of its own leads to container 0, or where there is none to the node's
default container; this is the container `c`. -/
def IsFallback (info : PoolInfo) (c : ContainerId) : Prop :=
  match info.containers.find? 0 with
  | some container => info.containers.find? c = some container
  | none => info.localContainer = info.containers.find? c

/-- The container `c` is not plugged, and wherever the query loses its id, the node falls back
to `c`. -/
structure Unmistaken (net : Network) (origin n : NodeId) (q : PoolQuery) (c : ContainerId)
    (forceNet : Bool) : Prop where
  unplugged : ∀ container, (net.info n).containers.find? c = some container →
    net.isPlugged container = false
  forced : origin = n → forceNet = true →
    (net.info n).localContainer = (net.info n).containers.find? c
  kept : origin = n → forceNet = false → q.routingMode ≠ .directId → IsFallback (net.info n) c
  sent : origin ≠ n → q.routingMode = .directId → IsFallback (net.info n) c

section

variable {net : Network} {owner : ContainerId → Option NodeId} {origin n : NodeId}
  {c : ContainerId} {q : PoolQuery} {forceNet : Bool} {container : Container}

theorem executor_eq_some {id : ContainerId} :
    executor net n id = some container ↔
      (net.info n).getContainer id = some container ∧ net.isPlugged container = false := by
  rw [executor]
  cases (net.info n).getContainer id with
  | none => simp
  | some other =>
    simp only [Option.ite_none_left_eq_some, Option.some.injEq, Bool.not_eq_true]
    constructor
    · rintro ⟨hplug, rfl⟩
      exact ⟨rfl, hplug⟩
    · rintro ⟨rfl, hplug⟩
      exact ⟨hplug, rfl⟩

theorem getContainer_zero (hfind : (net.info n).containers.find? c = some container) :
    (net.info n).getContainer 0 = some container ↔ IsFallback (net.info n) c := by
  rw [IsFallback, PoolInfo.getContainer, if_pos (by decide), hfind]
  cases (net.info n).containers.find? 0 with
  | none => exact Iff.rfl
  | some other => simp only [Option.some.injEq, eq_comm]

theorem getContainer_self (hc : c ≠ PoolQuery.kInvalidContainerId)
    (hfind : (net.info n).containers.find? c = some container) :
    (net.info n).getContainer c = some container := by
  rw [PoolInfo.getContainer, if_pos hc, hfind]

/-- The three ways to ask for the container `c`. -/
def AsksFor (net : Network) (origin : NodeId) (q : PoolQuery) (c : ContainerId) : Prop :=
  q = PoolQuery.directId c ∨
  (∃ hash, q = PoolQuery.directHash hash ∧ (net.info origin).numContainers ≠ 0 ∧
    hash % (net.info origin).numContainers = c) ∨
  q = PoolQuery.range c 1

theorem AsksFor.addresses (h : AsksFor net origin q c) : Addresses net origin q c := by
  rcases h with rfl | ⟨hash, rfl, hnum, hc⟩ | rfl
  · exact Or.inl ⟨rfl, rfl⟩
  · exact Or.inr (Or.inl ⟨rfl, hnum, hc⟩)
  · exact Or.inr (Or.inr ⟨rfl, rfl, rfl⟩)

/-- Only `DirectId` has the id in it. -/
theorem AsksFor.containerId (h : AsksFor net origin q c) :
    q.containerId = if q.routingMode = .directId then c else 0 := by
  rcases h with rfl | ⟨hash, rfl, hnum, hc⟩ | rfl <;> rfl

theorem executor_iff_unmistaken (hc : c ≠ PoolQuery.kInvalidContainerId)
    (hq : AsksFor net origin q c) (hfind : (net.info n).containers.find? c = some container) :
    executor net n (idOnArrival origin n q c forceNet) = some container ↔
      Unmistaken net origin n q c forceNet := by
  have hzero := getContainer_zero hfind
  have hself := getContainer_self hc hfind
  have hplug : (∀ other, (net.info n).containers.find? c = some other →
      net.isPlugged other = false) ↔ net.isPlugged container = false := by
    simp [hfind]
  have hinvalid : (net.info n).getContainer PoolQuery.kInvalidContainerId =
      (net.info n).localContainer := by
    simp [PoolInfo.getContainer]
  rw [executor_eq_some, idOnArrival, hq.containerId]
  by_cases horigin : origin = n
  · cases hforce : forceNet with
    | true =>
      simp only [horigin, if_true, hinvalid]
      refine ⟨?_, ?_⟩
      · rintro ⟨hget, hunplugged⟩
        exact ⟨hplug.mpr hunplugged, fun _ _ => by rw [hget, hfind], by simp, by simp⟩
      · intro h
        exact ⟨by rw [h.forced rfl rfl, hfind], hplug.mp h.unplugged⟩
    | false =>
      simp only [horigin, if_true, Bool.false_eq_true, if_false]
      by_cases hmode : q.routingMode = .directId
      · rw [if_pos hmode]
        refine ⟨?_, ?_⟩
        · rintro ⟨_, hunplugged⟩
          exact ⟨hplug.mpr hunplugged, by simp, fun _ _ hne => absurd hmode hne, by simp⟩
        · intro h
          exact ⟨hself, hplug.mp h.unplugged⟩
      · rw [if_neg hmode, hzero]
        refine ⟨?_, ?_⟩
        · rintro ⟨hfallback, hunplugged⟩
          exact ⟨hplug.mpr hunplugged, by simp, fun _ _ _ => hfallback, by simp⟩
        · intro h
          exact ⟨h.kept rfl rfl hmode, hplug.mp h.unplugged⟩
  · simp only [horigin, if_false]
    by_cases hmode : q.routingMode = .directId
    · rw [if_pos hmode, hzero]
      refine ⟨?_, ?_⟩
      · rintro ⟨hfallback, hunplugged⟩
        exact ⟨hplug.mpr hunplugged, fun heq => absurd heq horigin, fun heq => absurd heq horigin,
          fun _ _ => hfallback⟩
      · intro h
        exact ⟨h.sent horigin hmode, hplug.mp h.unplugged⟩
    · rw [if_neg hmode]
      refine ⟨?_, ?_⟩
      · rintro ⟨_, hunplugged⟩
        exact ⟨hplug.mpr hunplugged, fun heq => absurd heq horigin, fun heq => absurd heq horigin,
          fun _ heq => absurd heq hmode⟩
      · intro h
        exact ⟨hself, hplug.mp h.unplugged⟩

/-- **A task for a container runs on it exactly when its query is not mistaken on the way.**
The forwarding always ends, with one delivery on the node of the container. -/
theorem runs_on_container_iff (h : Agrees net owner) (horigin : origin ∈ net.hosts)
    (howner : owner c = some n) (hc : c ≠ PoolQuery.kInvalidContainerId)
    (hq : AsksFor net origin q c) (forceNet : Bool) :
    ∃ d, (∀ fuel, 3 ≤ fuel → deliver net fuel origin ⟨q, forceNet⟩ = some [d]) ∧
      ((d.container.isSome ∧ d.container = (net.info d.node).containers.find? c) ↔
        Unmistaken net origin n q c forceNet) := by
  have hn := h.hosted c n howner
  obtain ⟨container, hfind⟩ := AMap.contains_iff.mp ((h.registered n hn c).mpr howner)
  refine ⟨⟨n, executor net n (idOnArrival origin n q c forceNet)⟩, ?_, ?_⟩
  · intro fuel hfuel
    obtain ⟨fuel, rfl⟩ : ∃ m, fuel = m + 3 := ⟨fuel - 3, by omega⟩
    exact deliver_single h horigin howner hq.addresses
  · have hfind' : (net.info n).containers.find? c = some container :=
      AMap.find?_eq_some_iff.mpr hfind
    rw [← executor_iff_unmistaken hc hq hfind', hfind']
    constructor
    · exact fun heq => heq.2
    · intro heq
      exact ⟨by simp [heq], heq⟩

end

/-- Three containers on two nodes: node 2 died, and node 1 took its container over. -/
def recovered : Network where
  hosts := [0, 1]
  info := fun n =>
    { numContainers := 3
      containers := if n = 0 then ⟨[(0, 100)], by decide⟩ else ⟨[(1, 101), (2, 102)], by decide⟩
      addressMap := ⟨[(0, 0), (1, 1), (2, 1)], by decide⟩
      localContainer := if n = 0 then some 100 else some 101 }
  isPlugged := fun _ => false
  neighborhoodSize := 32
  scheduleTask := id

theorem recovered_agrees : Agrees recovered (recovered.info 0).addressMap.find? := by
  refine ⟨fun _ _ _ => rfl, ?_, ?_⟩
  · intro n hn c
    rw [PoolInfo.hasContainer, AMap.contains_iff, AMap.find?_eq_some_iff]
    rcases List.mem_cons.mp hn with rfl | hn
    · simp [recovered]
    · rw [List.mem_singleton.mp hn]
      simp [recovered, exists_or]
  · intro c n hn
    rw [AMap.find?_eq_some_iff] at hn
    simp only [recovered, List.mem_cons, Prod.mk.injEq, List.not_mem_nil, or_false] at hn ⊢
    rcases hn with ⟨_, hn⟩ | ⟨_, hn⟩ | ⟨_, hn⟩
    · exact Or.inl hn
    · exact Or.inr hn
    · exact Or.inr hn

theorem runs_on_container_iff_recovered :
    ∃ d, (∀ fuel, 3 ≤ fuel → deliver recovered fuel 0 ⟨PoolQuery.range 2 1, false⟩ = some [d]) ∧
      ((d.container.isSome ∧ d.container = (recovered.info d.node).containers.find? 2) ↔
        Unmistaken recovered 0 1 (PoolQuery.range 2 1) 2 false) :=
  runs_on_container_iff recovered_agrees (by decide) (by decide) (by decide)
    (Or.inr (Or.inr rfl)) false

/-- Container 2 is asked for by its id, and container 1 runs the task. -/
theorem directId_mistaken :
    Agrees recovered (recovered.info 0).addressMap.find? ∧
      AsksFor recovered 0 (PoolQuery.directId 2) 2 ∧
      deliver recovered 3 0 ⟨PoolQuery.directId 2, false⟩ = some [⟨1, some 101⟩] ∧
      (recovered.info 1).containers.find? 2 = some 102 :=
  ⟨recovered_agrees, Or.inl rfl, by decide, by decide⟩

/-! ### Fan-out -/

section

variable {net : Network} {owner : ContainerId → Option NodeId} {here n : NodeId} {t : Task}
  {bound : Nat}

/-- The deliveries of the pieces, one behind the other. -/
theorem mapM_deliver {send : UInt32 × UInt32 → Option (NodeId × Task)} {at' : Nat → Delivery}
    {ps : List (UInt32 × UInt32)}
    (hps : ∀ p ∈ ps, ∃ s, send p = some s ∧
      ∀ fuel, bound ≤ fuel → deliver net fuel s.1 s.2 = some ((span p).map at')) :
    ∀ fuel, bound ≤ fuel → (ps.filterMap send).mapM (fun s => deliver net fuel s.1 s.2) =
      some (ps.map fun p => (span p).map at') := by
  intro fuel hfuel
  induction ps with
  | nil => rfl
  | cons p ps ih =>
    obtain ⟨s, hsend, hdeliver⟩ := hps p (by simp)
    have hrest := ih fun p' hp' => hps p' (List.mem_cons_of_mem _ hp')
    rw [List.filterMap_cons_some hsend, List.mapM_cons, hdeliver fuel hfuel, hrest]
    rfl

theorem isTaskLocal_many {queries : List PoolQuery} (hmany : 2 ≤ net.hosts.length)
    (htwo : 2 ≤ queries.length) : isTaskLocal net here t queries = false := by
  have hhosts : ¬net.hosts.length = 1 := by omega
  match queries, htwo with
  | _ :: _ :: _, _ => simp [isTaskLocal, hhosts]

/-- A range of two containers or more is sent on in pieces. -/
theorem routeTask_range (here : NodeId) (hmany : 2 ≤ net.hosts.length) (hsize : 1 ≤ net.neighborhoodSize.toNat)
    (hmode : t.poolQuery.routingMode = .range) (hcount : 2 ≤ t.poolQuery.rangeCount.toNat)
    (hfits : t.poolQuery.rangeOffset.toNat + t.poolQuery.rangeCount.toNat < 2 ^ 32) :
    ∃ ps : List (UInt32 × UInt32), routeTask net here t = .forward (ps.filterMap fun p =>
          sendReplica net here ((rangeOf p).setReturnNode here)) ∧
      ps.flatMap span =
        List.range' t.poolQuery.rangeOffset.toNat t.poolQuery.rangeCount.toNat ∧
      ∀ p ∈ ps, 0 < p.2.toNat ∧ p.2.toNat < t.poolQuery.rangeCount.toNat := by
  obtain ⟨ps, hsplit, hspan, htwo, hps⟩ := splitRange_spec hsize hcount hfits
  refine ⟨ps, ?_, hspan, hps⟩
  have hnotDynamic : ¬t.poolQuery.routingMode = .dynamic := by simp [hmode]
  have hne : ∀ k : UInt32, k.toNat < 2 → ¬t.poolQuery.rangeCount = k := by
    rintro k hk rfl
    omega
  have hresolve : resolvePoolQuery net here t.poolQuery =
      ps.map fun p => (rangeOf p).setReturnNode here := by
    simp only [resolvePoolQuery, hmode, resolveRangeQuery, hne 0 (by decide), hne 1 (by decide),
      if_false, hsplit, List.map_map]
    rfl
  have hnonempty : (ps.map fun p => (rangeOf p).setReturnNode here).isEmpty = false := by
    rw [List.isEmpty_map, List.isEmpty_eq_false_iff, ← List.length_pos_iff]
    omega
  have hlocal : isTaskLocal net here t (ps.map fun p => (rangeOf p).setReturnNode here) = false :=
    isTaskLocal_many hmany (by rw [List.length_map]; exact htwo)
  simp only [routeTask, if_neg hnotDynamic, hresolve, hnonempty, hlocal,
    Bool.false_eq_true, if_false, List.filterMap_map]
  rfl

theorem sendReplica_range {p : UInt32 × UInt32} (h : Agrees net owner)
    (hhere : here ∈ net.hosts) (howner : owner p.1 = some n) :
    sendReplica net here ((rangeOf p).setReturnNode here) =
      some (n, ⟨(rangeOf p).setReturnNode here, false⟩) := by
  have hnode := h.nodeId hhere howner
  simp [sendReplica, targetNode, rangeOf, PoolQuery.range, PoolQuery.setReturnNode, hnode,
    h.hosted p.1 n howner]

/-- Where the last piece of a range, the container `i` alone, ends up. -/
def lastPiece (net : Network) (owner : ContainerId → Option NodeId) (i : Nat) : Delivery :=
  let node := (owner (UInt32.ofNat i)).getD 0
  ⟨node, executor net node 0⟩

/-- A range of at least two, if the pieces that are shorter are delivered from the nodes of their
first containers. -/
theorem deliver_pieces {size k : Nat} (h : Agrees net owner) (hmany : 2 ≤ net.hosts.length)
    (hsize : 1 ≤ net.neighborhoodSize.toNat) (hbound : size < 2 ^ 32)
    (hcomplete : ∀ c : ContainerId, c.toNat < size → (owner c).isSome) (hhere : here ∈ net.hosts)
    (hmode : t.poolQuery.routingMode = .range) (hcount : t.poolQuery.rangeCount.toNat = k)
    (hk : 2 ≤ k) (hfits : t.poolQuery.rangeOffset.toNat + k ≤ size)
    (hpieces : ∀ (p : UInt32 × UInt32) (n ret : NodeId), 0 < p.2.toNat → p.2.toNat < k →
      p.1.toNat + p.2.toNat ≤ size → owner p.1 = some n → ∀ fuel, k ≤ fuel →
      deliver net fuel n ⟨(rangeOf p).setReturnNode ret, false⟩ =
        some ((span p).map (lastPiece net owner))) :
    ∀ fuel, k + 1 ≤ fuel → deliver net fuel here t =
      some ((List.range' t.poolQuery.rangeOffset.toNat k).map (lastPiece net owner)) := by
  obtain ⟨ps, hroute, hspan, hps⟩ := routeTask_range here hmany hsize hmode (by omega) (by omega)
  have hsent : ∀ p ∈ ps, ∃ s, sendReplica net here ((rangeOf p).setReturnNode here) = some s ∧
      ∀ fuel, k ≤ fuel → deliver net fuel s.1 s.2 = some ((span p).map (lastPiece net owner)) := by
    intro p hp
    obtain ⟨hpos, hlt⟩ := hps p hp
    -- A piece lies in the range, so its first container has a node.
    have hinside : ∀ i ∈ span p, i < t.poolQuery.rangeOffset.toNat + k := by
      intro i hi
      have hmem : i ∈ ps.flatMap span := List.mem_flatMap.mpr ⟨p, hp, hi⟩
      rw [hspan, hcount] at hmem
      exact (List.mem_range'_1.mp hmem).2
    have hlast := hinside (p.1.toNat + p.2.toNat - 1) (by
      simp only [span, List.mem_range'_1]
      omega)
    obtain ⟨n, howner⟩ := Option.isSome_iff_exists.mp (hcomplete p.1 (by omega))
    exact ⟨_, sendReplica_range h hhere howner,
      hpieces p n here hpos (by omega) (by omega) howner⟩
  intro fuel hfuel
  obtain ⟨fuel, rfl⟩ : ∃ m, fuel = m + 1 := ⟨fuel - 1, by omega⟩
  rw [deliver, hroute]
  dsimp only
  rw [mapM_deliver hsent fuel (by omega), Option.map_some, ← List.flatMap_def, ← List.map_flatMap,
    hspan, hcount]

/-- A piece is delivered from the node of its first container. -/
theorem deliver_piece {size : Nat} (h : Agrees net owner) (hmany : 2 ≤ net.hosts.length)
    (hsize : 1 ≤ net.neighborhoodSize.toNat) (hbound : size < 2 ^ 32)
    (hcomplete : ∀ c : ContainerId, c.toNat < size → (owner c).isSome) (k : Nat) :
    ∀ (p : UInt32 × UInt32) (n ret : NodeId), 0 < p.2.toNat → p.2.toNat = k →
      p.1.toNat + p.2.toNat ≤ size → owner p.1 = some n → ∀ fuel, k + 1 ≤ fuel →
      deliver net fuel n ⟨(rangeOf p).setReturnNode ret, false⟩ =
        some ((span p).map (lastPiece net owner)) := by
  induction k using Nat.strong_induction_on with
  | _ k ih =>
    intro p n ret hpos hcount hfits howner
    rcases Nat.lt_or_ge k 2 with hsmall | hlarge
    · have hone : p.2 = 1 := UInt32.toNat_inj.mp (by simp; omega)
      intro fuel hfuel
      obtain ⟨fuel, rfl⟩ : ∃ m, fuel = m + 2 := ⟨fuel - 2, by omega⟩
      rw [deliver_at_owner h howner (Or.inr (Or.inr ⟨rfl, hone, rfl⟩))]
      simp [span, hone, lastPiece, howner, rangeOf, PoolQuery.range, PoolQuery.setReturnNode]
    · rw [span, hcount]
      refine deliver_pieces h hmany hsize hbound hcomplete (h.hosted p.1 n howner) rfl hcount
        hlarge (by rw [← hcount]; exact hfits) ?_
      intro p' n' ret' hpos' hlt hfits' howner' fuel hfuel
      exact ih p'.2.toNat hlt p' n' ret' hpos' rfl hfits' howner' fuel (by omega)

/-- A broadcast is the range of all containers. -/
theorem deliver_broadcast {origin : NodeId} {forceNet : Bool} {fuel : Nat}
    (hmany : 2 ≤ net.hosts.length) :
    deliver net fuel origin ⟨PoolQuery.broadcast, forceNet⟩ =
      deliver net fuel origin ⟨PoolQuery.range 0 (net.info origin).numContainers, forceNet⟩ := by
  cases fuel with
  | zero => rfl
  | succ fuel =>
    by_cases hnum : (net.info origin).numContainers = 0
    · -- A broadcast over no container resolves to itself, and such a query has no node.
      have hhosts : ¬net.hosts.length = 1 := by omega
      have hbroadcast : routeTask net origin ⟨PoolQuery.broadcast, forceNet⟩ = .forward [] := by
        simp [routeTask, PoolQuery.broadcast, resolvePoolQuery, resolveBroadcastQuery, hnum,
          isTaskLocal, hhosts, PoolQuery.setReturnNode, sendReplica, targetNode]
      have hrange : routeTask net origin
          ⟨PoolQuery.range 0 (net.info origin).numContainers, forceNet⟩ = .failed := by
        simp [routeTask, PoolQuery.range, resolvePoolQuery, resolveRangeQuery, hnum]
      simp [deliver, hbroadcast, hrange]
    · have hroute : routeTask net origin ⟨PoolQuery.broadcast, forceNet⟩ =
          routeTask net origin
            ⟨PoolQuery.range 0 (net.info origin).numContainers, forceNet⟩ := by
        simp [routeTask, PoolQuery.broadcast, PoolQuery.range, resolvePoolQuery,
          resolveBroadcastQuery, hnum, isTaskLocal, routeLocal]
      rw [deliver, deliver, hroute]

/-- The container `i` on its node. -/
def hostedAs (net : Network) (owner : ContainerId → Option NodeId) (i : Nat) : Delivery :=
  let node := (owner (UInt32.ofNat i)).getD 0
  ⟨node, (net.info node).containers.find? (UInt32.ofNat i)⟩

theorem eq_hostedAs_iff {origin : NodeId} {c : ContainerId} {forceNet : Bool}
    (h : Agrees net owner) (howner : owner c = some n) (hc : c ≠ PoolQuery.kInvalidContainerId) :
    (⟨n, executor net n (idOnArrival origin n (PoolQuery.range c 1) c forceNet)⟩ : Delivery) =
        hostedAs net owner c.toNat ↔
      Unmistaken net origin n (PoolQuery.range c 1) c forceNet := by
  obtain ⟨container, hfind⟩ :=
    AMap.contains_iff.mp ((h.registered n (h.hosted c n howner) c).mpr howner)
  have hfind' := AMap.find?_eq_some_iff.mpr hfind
  rw [← executor_iff_unmistaken hc (Or.inr (Or.inr rfl)) hfind', hostedAs, UInt32.ofNat_toNat,
    howner, Option.getD_some, hfind', Delivery.mk.injEq]
  exact and_iff_right rfl

theorem lastPiece_eq {c : ContainerId} (howner : owner c = some n) :
    lastPiece net owner c.toNat =
      ⟨n, executor net n (idOnArrival n n (PoolQuery.range c 1) c false)⟩ := by
  simp [lastPiece, howner, idOnArrival, PoolQuery.range]

/-- All deliveries on a node run one container there, so those of a range run its containers only
if each runs its own. -/
theorem perm_hostedAs_iff {ids : List Nat} :
    (ids.map (lastPiece net owner)).Perm (ids.map (hostedAs net owner)) ↔
      ∀ i ∈ ids, lastPiece net owner i = hostedAs net owner i := by
  refine ⟨?_, fun h => by rw [List.map_congr_left h]⟩
  intro hperm i hi
  obtain ⟨j, _, hj⟩ := List.mem_map.mp (hperm.symm.subset (List.mem_map_of_mem hi))
  have hnode : (lastPiece net owner j).node = (hostedAs net owner i).node := by rw [hj]
  have hsame : lastPiece net owner j = lastPiece net owner i := by
    simp only [lastPiece, hostedAs] at hnode ⊢
    rw [hnode]
  rw [← hsame, hj]

/-- **A fan-out runs each container of its range once exactly when none is mistaken at the last
hop.**  A range, or a broadcast, of a pool on at least two nodes is delivered after finitely many
hops, one delivery for each container of the range and on its node.  The last hop of a container
in a longer range is a range of one, on the node of the container itself. -/
theorem fanOut_exact_iff {origin : NodeId} {offset count : UInt32} {q : PoolQuery}
    (h : Agrees net owner) (hmany : 2 ≤ net.hosts.length) (hsize : 1 ≤ net.neighborhoodSize)
    (horigin : origin ∈ net.hosts)
    (hcomplete : ∀ c, c < (net.info origin).numContainers → (owner c).isSome)
    (hq : q = PoolQuery.range offset count ∨
      q = PoolQuery.broadcast ∧ offset = 0 ∧ count = (net.info origin).numContainers)
    (hfits : offset.toNat + count.toNat ≤ (net.info origin).numContainers.toNat) (forceNet : Bool) :
    ∃ ds, (∀ fuel, count.toNat + 3 ≤ fuel → deliver net fuel origin ⟨q, forceNet⟩ = some ds) ∧
      (ds.Perm ((List.range' offset.toNat count.toNat).map (hostedAs net owner)) ↔
        ∀ (c : ContainerId) (n : NodeId), offset ≤ c → c.toNat < offset.toNat + count.toNat →
          owner c = some n → Unmistaken net (if count = 1 then origin else n) n
            (PoolQuery.range c 1) c (count == 1 && forceNet)) := by
  have hcomplete' : ∀ c : ContainerId, c.toNat < (net.info origin).numContainers.toNat →
      (owner c).isSome := fun c hc => hcomplete c (UInt32.lt_iff_toNat_lt.mpr hc)
  have hvalid : ∀ c : ContainerId, c.toNat < (net.info origin).numContainers.toNat →
      c ≠ PoolQuery.kInvalidContainerId := by
    rintro c hc rfl
    have hlt := (net.info origin).numContainers.toNat_lt
    exact absurd hc (by simp [PoolQuery.kInvalidContainerId]; omega)
  -- A broadcast goes on as the range of all containers.
  have hrange : ∀ fuel, deliver net fuel origin ⟨q, forceNet⟩ =
      deliver net fuel origin ⟨PoolQuery.range offset count, forceNet⟩ := by
    intro fuel
    rcases hq with rfl | ⟨rfl, rfl, rfl⟩
    · rfl
    · exact deliver_broadcast hmany
  simp only [hrange]
  obtain hzero | hone | hlarge : count.toNat = 0 ∨ count.toNat = 1 ∨ 2 ≤ count.toNat := by omega
  · refine ⟨[], fun fuel hfuel => ?_, ?_⟩
    · obtain ⟨fuel, rfl⟩ : ∃ m, fuel = m + 1 := ⟨fuel - 1, by omega⟩
      have hroute : routeTask net origin ⟨PoolQuery.range offset count, forceNet⟩ = .failed := by
        simp [routeTask, PoolQuery.range, resolvePoolQuery, resolveRangeQuery,
          (UInt32.toNat_inj.mp hzero : count = 0)]
      rw [deliver, hroute]
    · simp only [hzero, List.range'_zero, List.map_nil, List.Perm.refl, true_iff]
      intro c n hle hlt
      exact absurd (UInt32.le_iff_toNat_le.mp hle) (by omega)
  · obtain rfl : count = 1 := UInt32.toNat_inj.mp hone
    obtain ⟨n, howner⟩ := Option.isSome_iff_exists.mp (hcomplete' offset (by omega))
    refine ⟨[⟨n, executor net n
      (idOnArrival origin n (PoolQuery.range offset 1) offset forceNet)⟩], fun fuel hfuel => ?_, ?_⟩
    · obtain ⟨fuel, rfl⟩ : ∃ m, fuel = m + 3 := ⟨fuel - 3, by omega⟩
      exact deliver_single h horigin howner (Or.inr (Or.inr ⟨rfl, rfl, rfl⟩))
    · rw [hone, List.range'_one, List.map_singleton, List.singleton_perm_singleton,
        eq_hostedAs_iff h howner (hvalid offset (by omega))]
      simp only [if_true, beq_self_eq_true, Bool.true_and]
      refine ⟨?_, fun hall => hall offset n (UInt32.le_refl _) (by omega) howner⟩
      intro hun c n' hle hlt howner'
      obtain rfl : c = offset :=
        UInt32.toNat_inj.mp (by have := UInt32.le_iff_toNat_le.mp hle; omega)
      rw [howner] at howner'
      obtain rfl := Option.some.inj howner'
      exact hun
  · have hne : ¬count = 1 := by
      rintro rfl
      exact absurd hlarge (by decide)
    have hsize' := UInt32.le_iff_toNat_le.mp hsize
    have hbound := (net.info origin).numContainers.toNat_lt
    have hdeliver : ∀ fuel, count.toNat + 1 ≤ fuel →
        deliver net fuel origin ⟨PoolQuery.range offset count, forceNet⟩ =
          some ((List.range' offset.toNat count.toNat).map (lastPiece net owner)) := by
      refine deliver_pieces h hmany hsize' hbound hcomplete' horigin rfl rfl hlarge hfits ?_
      intro p n ret hpos hlt hfits' howner fuel hfuel
      exact deliver_piece h hmany hsize' hbound hcomplete' p.2.toNat p n ret hpos rfl hfits' howner
        fuel (by omega)
    refine ⟨_, fun fuel hfuel => hdeliver fuel (by omega), ?_⟩
    rw [perm_hostedAs_iff]
    simp only [if_neg hne, beq_eq_false_iff_ne.mpr hne, Bool.false_and]
    constructor
    · intro hall c n hle hlt howner
      rw [← eq_hostedAs_iff h howner (hvalid c (by omega)), ← lastPiece_eq howner]
      exact hall c.toNat (List.mem_range'_1.mpr ⟨UInt32.le_iff_toNat_le.mp hle, hlt⟩)
    · intro hall i hi
      obtain ⟨hle, hlt⟩ := List.mem_range'_1.mp hi
      obtain ⟨c, rfl⟩ : ∃ c : ContainerId, c.toNat = i :=
        ⟨UInt32.ofNat i, UInt32.toNat_ofNat_of_lt' (by rw [UInt32.size]; omega)⟩
      obtain ⟨n, howner⟩ := Option.isSome_iff_exists.mp (hcomplete' c (by omega))
      rw [lastPiece_eq howner, eq_hostedAs_iff h howner (hvalid c (by omega))]
      exact hall c n (UInt32.le_iff_toNat_le.mpr hle) hlt howner

end

theorem recovered_complete :
    ∀ c, c < (recovered.info 1).numContainers → ((recovered.info 0).addressMap.find? c).isSome := by
  intro c hc
  have hlt : c.toNat < 3 := UInt32.lt_iff_toNat_lt.mp hc
  have hc : c = UInt32.ofNat c.toNat := by simp
  rw [hc]
  obtain hi | hi | hi : c.toNat = 0 ∨ c.toNat = 1 ∨ c.toNat = 2 := by omega
  all_goals rw [hi]; decide

/-- Containers 0 and 1 are what their nodes fall back to, so a range of the two runs both. -/
theorem fanOut_exact_iff_recovered :
    ∃ ds, (∀ fuel, 5 ≤ fuel →
        deliver recovered fuel 1 ⟨PoolQuery.range 0 2, false⟩ = some ds) ∧
      ds.Perm [⟨0, some 100⟩, ⟨1, some 101⟩] := by
  obtain ⟨ds, hdeliver, hiff⟩ := fanOut_exact_iff recovered_agrees (by decide) (by decide)
    (by decide) recovered_complete (Or.inl (rfl : PoolQuery.range 0 2 = _)) (by decide) false
  refine ⟨ds, hdeliver, hiff.mpr ?_⟩
  intro c n _ hlt howner
  have hfallback : IsFallback (recovered.info n) c := by
    have hc : c = UInt32.ofNat c.toNat := by simp
    rw [hc] at howner ⊢
    have hlt : c.toNat < 2 := hlt
    obtain hi | hi : c.toNat = 0 ∨ c.toNat = 1 := by omega
    all_goals
      rw [hi] at howner ⊢
      obtain rfl := Option.some.inj howner
      rfl
  exact ⟨fun _ _ => rfl, by simp, fun _ _ _ => hfallback, by simp [PoolQuery.range]⟩

/-- A broadcast over the three containers runs container 1 twice, and container 2 not at all. -/
theorem broadcast_mistaken :
    Agrees recovered (recovered.info 0).addressMap.find? ∧
      (∀ c, c < (recovered.info 1).numContainers →
        ((recovered.info 0).addressMap.find? c).isSome) ∧
      deliver recovered 6 1 ⟨PoolQuery.broadcast, false⟩ =
        some [⟨0, some 100⟩, ⟨1, some 101⟩, ⟨1, some 101⟩] ∧
      (List.range' 0 3).map (hostedAs recovered (recovered.info 0).addressMap.find?) =
        [⟨0, some 100⟩, ⟨1, some 101⟩, ⟨1, some 102⟩] :=
  ⟨recovered_agrees, recovered_complete, by decide, by decide⟩

end Cluster
end IowarpCore
