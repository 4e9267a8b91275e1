/-
A recovery plan and what the nodes make of it.

The plan goes through the pools and their address maps, so its keys are the entries that name
the dead node (`keys_plan`), each once, as the keys of a map are.  Every node applies the whole
plan, and a key comes up once: what a node has for it afterwards is decided in one round
(`mapped_recoverFrom`, `registered_recoverFrom`).
-/
import IowarpCore.Proofs.AddressWal
import IowarpCore.Proofs.Migrate
import IowarpCore.Runtime.Recover

namespace IowarpCore
namespace Recovering

open Cluster (Container RecoveryAssignment Node ProbeEnv Swim)
open Pools

/-- The container an assignment is about. -/
def key (ra : RecoveryAssignment) : PoolId × ContainerId := (ra.poolId, ra.containerId)

/-! ### The plan -/

/-- The containers of a pool that its map has on the node. -/
def lost (deadNodeId : Node) (info : PoolInfo) : List ContainerId :=
  (info.addressMap.entries.filter fun e => e.2 = deadNodeId.toUInt32).map Prod.fst

variable {deadNodeId : Node} {nodes : List Node} {table : Table} {plan : List RecoveryAssignment}

theorem mem_lost {info : PoolInfo} {containerId : ContainerId} :
    containerId ∈ lost deadNodeId info ↔
      info.addressMap.find? containerId = some deadNodeId.toUInt32 := by
  rw [AMap.find?_eq_some_iff, lost, List.mem_map]
  constructor
  · rintro ⟨⟨c, node⟩, hmem, rfl⟩
    obtain ⟨hentry, hnode⟩ := List.mem_filter.mp hmem
    rwa [← of_decide_eq_true hnode]
  · intro hentry
    exact ⟨_, List.mem_filter.mpr ⟨hentry, decide_eq_true rfl⟩, rfl⟩

theorem lost_nodup (deadNodeId : Node) (info : PoolInfo) : (lost deadNodeId info).Nodup :=
  info.addressMap.nodup.sublist (List.filter_sublist.map Prod.fst)

/-- The destination is one of the nodes. -/
def Among (nodes : List Node) (dest : UInt32) : Prop :=
  ∃ node ∈ nodes, node.toUInt32 = dest

/-- `ScheduleRecover` leaves the choice open or names one of the nodes. -/
def Schedules (env : ProbeEnv) (nodes : List Node) : Prop :=
  ∀ container, env.scheduleRecover container = 0xffffffff ∨ Among nodes (env.scheduleRecover container)

theorem among_recoverDest {env : ProbeEnv} (hne : nodes ≠ [])
    (hsched : Schedules env nodes) (rrIdx : Nat) (info : PoolInfo) :
    Among nodes (Swim.recoverDest env nodes rrIdx info).1 := by
  have hlt : rrIdx % nodes.length < nodes.length := Nat.mod_lt _ (List.length_pos_iff.mpr hne)
  have hrobin : Among nodes (nodes.getD (rrIdx % nodes.length) 0).toUInt32 := by
    rw [List.getD_eq_getElem?_getD, List.getElem?_eq_getElem hlt, Option.getD_some]
    exact ⟨_, List.getElem_mem hlt, rfl⟩
  unfold Swim.recoverDest
  cases info.localContainer with
  | none => exact hrobin
  | some container =>
    dsimp only
    split
    · exact hrobin
    · rename_i hchosen
      exact (hsched container).resolve_left hchosen

/-- What the plan has for one pool, where all destinations are such. -/
structure PoolPlan (P : UInt32 → Prop) (poolId : PoolId) (lostIds : List ContainerId)
    (new : List RecoveryAssignment) : Prop where
  ids : new.map (·.containerId) = lostIds
  pool : ∀ ra ∈ new, ra.poolId = poolId
  dest : ∀ ra ∈ new, P ra.destNodeId

/-- The entries that name the node, pool by pool. -/
def lostKeys (deadNodeId : Node) (pools : List (PoolId × PoolInfo)) : List (PoolId × ContainerId) :=
  pools.flatMap fun pool => (lost deadNodeId pool.2).map fun containerId => (pool.1, containerId)

section

variable {P : UInt32 → Prop} {env : ProbeEnv}
  (hP : ∀ rrIdx info, P (Swim.recoverDest env nodes rrIdx info).1)

include hP

theorem recoverPool_spec (deadNodeId : Node) (poolId : PoolId) (info : PoolInfo)
    (entries : List (ContainerId × UInt32)) (acc : Nat × List RecoveryAssignment) :
    ∃ new, (Swim.recoverPool env deadNodeId nodes poolId info entries acc).2 = acc.2 ++ new ∧
      PoolPlan P poolId
        ((entries.filter fun e => e.2 = deadNodeId.toUInt32).map Prod.fst) new := by
  induction entries generalizing acc with
  | nil => exact ⟨[], (List.append_nil _).symm, rfl, by simp, by simp⟩
  | cons e entries ih =>
    obtain ⟨rrIdx, assignments⟩ := acc
    obtain ⟨containerId, nodeId⟩ := e
    rw [Swim.recoverPool]
    by_cases hnode : nodeId = deadNodeId.toUInt32
    · rw [if_pos hnode, List.filter_cons_of_pos (by simpa using hnode)]
      dsimp only
      obtain ⟨new, heq, hnew⟩ := ih ((Swim.recoverDest env nodes rrIdx info).2, assignments ++
        [⟨poolId, info.chimodName, info.poolName, info.chimodParams, containerId,
          deadNodeId.toUInt32, (Swim.recoverDest env nodes rrIdx info).1⟩])
      refine ⟨_ :: new, by rw [heq, List.append_assoc]; rfl, ?_, ?_, ?_⟩
      · rw [List.map_cons, List.map_cons, hnew.ids]
      · intro ra hra
        rcases List.mem_cons.mp hra with rfl | hra
        · rfl
        · exact hnew.pool ra hra
      · intro ra hra
        rcases List.mem_cons.mp hra with rfl | hra
        · exact hP rrIdx info
        · exact hnew.dest ra hra
    · rw [if_neg hnode, List.filter_cons_of_neg (by simpa using hnode)]
      exact ih (rrIdx, assignments)

theorem recoverPools_spec (deadNodeId : Node) (pools : List (PoolId × PoolInfo))
    (acc : Nat × List RecoveryAssignment) :
    ∃ new, (pools.foldl (fun acc pool => Swim.recoverPool env deadNodeId nodes pool.1 pool.2
          pool.2.addressMap.entries acc) acc).2 = acc.2 ++ new ∧
      new.map key = lostKeys deadNodeId pools ∧ ∀ ra ∈ new, P ra.destNodeId := by
  induction pools generalizing acc with
  | nil => exact ⟨[], (List.append_nil _).symm, rfl, by simp⟩
  | cons pool pools ih =>
    obtain ⟨new, hnew, hplan⟩ := recoverPool_spec hP deadNodeId pool.1 pool.2
      pool.2.addressMap.entries acc
    obtain ⟨rest, hrest, hkeys, hdest⟩ := ih
      (Swim.recoverPool env deadNodeId nodes pool.1 pool.2 pool.2.addressMap.entries acc)
    refine ⟨new ++ rest, by rw [List.foldl_cons, hrest, hnew, List.append_assoc], ?_, ?_⟩
    · have hown : new.map key = (lost deadNodeId pool.2).map fun id => (pool.1, id) := by
        rw [lost, ← hplan.ids, List.map_map]
        exact List.map_congr_left fun ra hra => Prod.ext (hplan.pool ra hra) rfl
      rw [List.map_append, hown, hkeys, lostKeys, lostKeys, List.flatMap_cons]
    · intro ra hra
      rcases List.mem_append.mp hra with hra | hra
      · exact hplan.dest ra hra
      · exact hdest ra hra

end

theorem mem_lostKeys {poolId : PoolId} {containerId : ContainerId} :
    (poolId, containerId) ∈ lostKeys deadNodeId table.entries ↔
      mapped table poolId containerId = some deadNodeId.toUInt32 := by
  rw [lostKeys, List.mem_flatMap, mapped, Option.bind_eq_some_iff]
  constructor
  · rintro ⟨⟨p, info⟩, hpool, hmem⟩
    obtain ⟨c, hlost, heq⟩ := List.mem_map.mp hmem
    obtain ⟨rfl, rfl⟩ := Prod.mk.inj heq
    exact ⟨info, AMap.find?_eq_some_iff.mpr hpool, mem_lost.mp hlost⟩
  · rintro ⟨info, hpool, hmapped⟩
    exact ⟨(poolId, info), AMap.find?_eq_some_iff.mp hpool,
      List.mem_map.mpr ⟨containerId, mem_lost.mpr hmapped, rfl⟩⟩

theorem lostKeys_nodup (deadNodeId : Node) (table : Table) :
    (lostKeys deadNodeId table.entries).Nodup := by
  rw [lostKeys, List.nodup_flatMap]
  constructor
  · intro pool _
    exact (lost_nodup deadNodeId pool.2).map fun _ _ heq => (Prod.mk.inj heq).2
  · refine (List.pairwise_map.mp table.nodup).imp fun hne => ?_
    intro k hk hk'
    obtain ⟨_, -, rfl⟩ := List.mem_map.mp hk
    obtain ⟨_, -, heq⟩ := List.mem_map.mp hk'
    exact hne (Prod.mk.inj heq).1.symm

/-! ### Hosts -/

/-- The alive nodes among the hosts of a node. -/
def aliveNodes (s : Swim) : List Node :=
  (s.ipc.hostsCache.filter fun h => h.2.state = .alive).map Prod.fst

/-- The plan for a node: an assignment for each container that is mapped to it and for no other
one, and all destinations are alive. -/
structure Plans (deadNodeId : Node) (nodes : List Node) (table : Table)
    (plan : List RecoveryAssignment) : Prop where
  once : (plan.map key).Nodup
  all : ∀ poolId containerId, (poolId, containerId) ∈ plan.map key ↔
    mapped table poolId containerId = some deadNodeId.toUInt32
  dest : ∀ ra ∈ plan, Among nodes ra.destNodeId

theorem plans_computeRecoveryPlan {env : ProbeEnv} {s : Swim} (halive : aliveNodes s ≠ [])
    (hsched : Schedules env (aliveNodes s)) (deadNodeId : Node) :
    Plans deadNodeId (aliveNodes s) env.pools (s.computeRecoveryPlan env deadNodeId) := by
  obtain ⟨new, hnew, hkeys, hdest⟩ := recoverPools_spec (among_recoverDest halive hsched)
    deadNodeId env.pools.entries (0, [])
  have hplan : s.computeRecoveryPlan env deadNodeId = new := by
    rw [Swim.computeRecoveryPlan, if_neg (by simpa [aliveNodes] using halive)]
    exact hnew
  rw [hplan]
  refine ⟨?_, fun poolId containerId => ?_, hdest⟩
  · rw [hkeys]
    exact lostKeys_nodup deadNodeId env.pools
  · rw [hkeys]
    exact mem_lostKeys

/-- With a node alive, or without containers to recover, the plan has one assignment for each
container of the node. -/
theorem keys_computeRecoveryPlan {env : ProbeEnv} {s : Swim} (deadNodeId : Node) :
    (s.computeRecoveryPlan env deadNodeId).map key = Swim.hostedOn env.pools deadNodeId ↔
      ((Swim.hostedOn env.pools deadNodeId).isEmpty ||
        s.ipc.hostsCache.any fun h => h.2.state = .alive) = true := by
  have halive : (aliveNodes s).isEmpty = !s.ipc.hostsCache.any fun h => h.2.state = .alive := by
    rw [Bool.eq_iff_iff, aliveNodes, List.isEmpty_iff]
    simp
  cases hnone : (aliveNodes s).isEmpty with
  | true =>
    have hplan : s.computeRecoveryPlan env deadNodeId = [] := if_pos hnone
    rw [halive, Bool.not_eq_true'] at hnone
    rw [hplan, hnone, Bool.or_false, List.isEmpty_iff]
    exact eq_comm
  | false =>
    obtain ⟨new, hnew, hkeys, -⟩ := @recoverPools_spec (aliveNodes s) (fun _ => True) env
      (fun _ _ => trivial) deadNodeId env.pools.entries (0, [])
    have hplan : s.computeRecoveryPlan env deadNodeId = new :=
      (if_neg (by simpa [aliveNodes] using hnone)).trans hnew
    rw [halive, Bool.not_eq_false'] at hnone
    rw [hplan, hkeys, hnone, Bool.or_true]
    exact iff_of_true rfl rfl

/-! ### One round -/

/-- The container a node has registered under an id. -/
def registered (table : Table) (poolId : PoolId) (containerId : ContainerId) : Option Container :=
  (table.find? poolId).bind fun info => info.containers.find? containerId

theorem registered_update (table : Table) (p : PoolId) (c : ContainerId) (node : UInt32)
    (poolId : PoolId) (containerId : ContainerId) :
    registered (updateContainerNodeMapping table p c node).2 poolId containerId =
      registered table poolId containerId := by
  unfold registered updateContainerNodeMapping
  cases hfind : table.find? p with
  | none => rfl
  | some info =>
    refine AMap.congr_find?_insertOrAssign
      (fun o => o.bind fun info => info.containers.find? containerId) hfind ?_ poolId
    rfl

theorem mapped_register (table : Table) (p : PoolId) (c : ContainerId) (container : Container)
    (isStatic : Bool) (poolId : PoolId) (containerId : ContainerId) :
    mapped (registerContainer table p c container isStatic).2 poolId containerId =
      mapped table poolId containerId := by
  unfold mapped registerContainer
  cases hfind : table.find? p with
  | none => rfl
  | some info =>
    refine AMap.congr_find?_insertOrAssign
      (fun o => o.bind fun info => info.addressMap.find? containerId) hfind ?_ poolId
    rfl

theorem contains_register (table : Table) (p : PoolId) (c : ContainerId) (container : Container)
    (isStatic : Bool) (poolId : PoolId) :
    (registerContainer table p c container isStatic).2.contains poolId = table.contains poolId := by
  unfold registerContainer AMap.contains
  cases hfind : table.find? p with
  | none => rfl
  | some info =>
    refine AMap.congr_find?_insertOrAssign Option.isSome hfind ?_ poolId
    rfl

theorem registered_register (table : Table) (p : PoolId) (c : ContainerId) (container : Container)
    (isStatic : Bool) (poolId : PoolId) (containerId : ContainerId) (hpool : table.contains poolId = true) :
    registered (registerContainer table p c container isStatic).2 poolId containerId =
      if (p, c) = (poolId, containerId) then some container
      else registered table poolId containerId := by
  unfold registered registerContainer
  by_cases hp : p = poolId
  · subst hp
    obtain ⟨info, hinfo⟩ := Option.isSome_iff_exists.mp hpool
    rw [hinfo]
    dsimp only
    rw [AMap.find?_insertOrAssign, if_pos rfl, Option.bind_some, Option.bind_some]
    dsimp only
    rw [AMap.find?_insertOrAssign]
    by_cases hc : c = containerId
    · subst hc
      rw [if_pos rfl, if_pos rfl]
    · rw [if_neg fun heq => hc heq.symm, if_neg fun heq => hc (Prod.mk.inj heq).2]
  · rw [if_neg fun heq => hp (Prod.mk.inj heq).1]
    cases table.find? p with
    | none => rfl
    | some info =>
      dsimp only
      rw [AMap.find?_insertOrAssign, if_neg fun heq => hp heq.symm]

variable {env : RecoverEnv} {k : Nat} {s : State} {ra : RecoveryAssignment} {poolId : PoolId}
  {containerId : ContainerId}

theorem contains_remap (env : RecoverEnv) (k : Nat) (s : State) (ra : RecoveryAssignment)
    (poolId : PoolId) : (remap env k s ra).table.contains poolId = s.table.contains poolId :=
  contains_apply s.table ⟨env.clock k, ra.poolId, ra.containerId, ra.deadNodeId, ra.destNodeId⟩ poolId

theorem contains_recoverOne (env : RecoverEnv) (k : Nat) (s : State) (ra : RecoveryAssignment)
    (poolId : PoolId) : (recoverOne env k s ra).table.contains poolId = s.table.contains poolId := by
  have hremap := contains_remap env k s ra poolId
  unfold recoverOne
  split
  · exact hremap
  · split
    · exact hremap
    · exact (contains_register ..).trans hremap

/-- The map of a node says afterwards what the assignment says. -/
theorem mapped_recoverOne (env : RecoverEnv) (k : Nat) (ra : RecoveryAssignment)
    (hpool : s.table.contains poolId = true) :
    mapped (recoverOne env k s ra).table poolId containerId =
      if key ra = (poolId, containerId) then some ra.destNodeId
      else mapped s.table poolId containerId := by
  have hremap : mapped (remap env k s ra).table poolId containerId =
      if key ra = (poolId, containerId) then some ra.destNodeId
      else mapped s.table poolId containerId := by
    simp only [key, Prod.mk.injEq]
    exact mapped_apply s.table ⟨env.clock k, ra.poolId, ra.containerId, ra.deadNodeId, ra.destNodeId⟩
      poolId containerId hpool
  unfold recoverOne
  split
  · exact hremap
  · split
    · exact hremap
    · exact (mapped_register ..).trans hremap

/-- Only the destination registers anything, and only the container of the assignment. -/
theorem registered_recoverOne (containerId : ContainerId) (hpool : s.table.contains poolId = true)
    (hcreate : (env.createContainer k ra.chimodName ra.poolId ra.poolName).isSome = true) :
    ∃ container, registered (recoverOne env k s ra).table poolId containerId =
      if key ra = (poolId, containerId) ∧ ra.destNodeId.toUInt64 = env.selfNodeId then some container
      else registered s.table poolId containerId := by
  obtain ⟨container, hcontainer⟩ := Option.isSome_iff_exists.mp hcreate
  refine ⟨container, ?_⟩
  have hremap : registered (remap env k s ra).table poolId containerId =
      registered s.table poolId containerId := registered_update ..
  unfold recoverOne
  by_cases hdest : ra.destNodeId.toUInt64 = env.selfNodeId
  · rw [if_neg (not_not_intro hdest), hcontainer]
    dsimp only
    rw [registered_register _ _ _ _ _ _ _ ((contains_remap env k s ra poolId).trans hpool), hremap]
    simp only [key, hdest, and_true]
  · rw [if_pos hdest, if_neg fun h => hdest h.2, hremap]

/-! ### All rounds -/

theorem contains_recoverFrom (env : RecoverEnv) (k : Nat) (plan : List RecoveryAssignment) (s : State)
    (poolId : PoolId) : (recoverFrom env k plan s).table.contains poolId = s.table.contains poolId := by
  induction plan generalizing k s with
  | nil => rfl
  | cons ra plan ih => rw [recoverFrom, ih, contains_recoverOne]

theorem mapped_recoverFrom_other
    (hother : (poolId, containerId) ∉ plan.map key) (hpool : s.table.contains poolId = true) :
    mapped (recoverFrom env k plan s).table poolId containerId =
      mapped s.table poolId containerId := by
  induction plan generalizing k s with
  | nil => rfl
  | cons ra plan ih =>
    rw [List.map_cons, List.mem_cons, not_or] at hother
    rw [recoverFrom, ih hother.2 (by rw [contains_recoverOne, hpool]), mapped_recoverOne env k ra hpool,
      if_neg fun heq => hother.1 heq.symm]

theorem mapped_recoverFrom (hnodup : (plan.map key).Nodup) (hra : ra ∈ plan) (hpool : s.table.contains ra.poolId = true) :
    mapped (recoverFrom env k plan s).table ra.poolId ra.containerId = some ra.destNodeId := by
  induction plan generalizing k s with
  | nil => exact absurd hra List.not_mem_nil
  | cons first plan ih =>
    rw [List.map_cons, List.nodup_cons] at hnodup
    rw [recoverFrom]
    rcases List.mem_cons.mp hra with rfl | hra
    · rw [mapped_recoverFrom_other hnodup.1 (by rw [contains_recoverOne, hpool]),
        mapped_recoverOne env k ra hpool]
      exact if_pos rfl
    · exact ih hnodup.2 hra (by rw [contains_recoverOne, hpool])

/-- `CreateContainer` succeeds on the node for every assignment. -/
def Creates (env : RecoverEnv) (plan : List RecoveryAssignment) : Prop :=
  ∀ k, ∀ ra ∈ plan, (env.createContainer k ra.chimodName ra.poolId ra.poolName).isSome = true

theorem registered_recoverFrom_other (hcreates : Creates env plan)
    (hother : ∀ ra ∈ plan, key ra = (poolId, containerId) → ra.destNodeId.toUInt64 ≠ env.selfNodeId)
    (hpool : s.table.contains poolId = true) :
    registered (recoverFrom env k plan s).table poolId containerId =
      registered s.table poolId containerId := by
  induction plan generalizing k s with
  | nil => rfl
  | cons ra plan ih =>
    obtain ⟨container, hone⟩ := registered_recoverOne containerId hpool
      (hcreates k ra List.mem_cons_self)
    rw [recoverFrom, ih (fun k ra hra => hcreates k ra (List.mem_cons_of_mem _ hra))
      (fun ra hra => hother ra (List.mem_cons_of_mem _ hra)) (by rw [contains_recoverOne, hpool]), hone,
      if_neg fun h => hother ra List.mem_cons_self h.1 h.2]

theorem registered_recoverFrom (hnodup : (plan.map key).Nodup)
    (hcreates : Creates env plan) (hra : ra ∈ plan)
    (hdest : ra.destNodeId.toUInt64 = env.selfNodeId) (hpool : s.table.contains ra.poolId = true) :
    (registered (recoverFrom env k plan s).table ra.poolId ra.containerId).isSome = true := by
  induction plan generalizing k s with
  | nil => exact absurd hra List.not_mem_nil
  | cons first plan ih =>
    rw [List.map_cons, List.nodup_cons] at hnodup
    have hrest : Creates env plan := fun k ra hra => hcreates k ra (List.mem_cons_of_mem _ hra)
    rw [recoverFrom]
    rcases List.mem_cons.mp hra with rfl | hra
    · obtain ⟨container, hone⟩ := registered_recoverOne ra.containerId hpool
        (hcreates k ra List.mem_cons_self)
      have hlast : ∀ other ∈ plan, key other = (ra.poolId, ra.containerId) →
          other.destNodeId.toUInt64 ≠ env.selfNodeId := fun other hother hkey =>
        absurd (List.mem_map.mpr ⟨other, hother, hkey⟩) hnodup.1
      rw [registered_recoverFrom_other hrest hlast (by rw [contains_recoverOne, hpool]), hone]
      exact congrArg Option.isSome (if_pos ⟨rfl, hdest⟩)
    · exact ih hnodup.2 hrest hra (by rw [contains_recoverOne, hpool])

/-! ### The cluster -/

/-- Two nodes that know the same pools and have the same address maps. -/
def SameMaps (table table' : Table) : Prop :=
  (∀ poolId, table.contains poolId = table'.contains poolId) ∧
    ∀ poolId containerId, mapped table poolId containerId = mapped table' poolId containerId

/-- The node ids of the hosts are ids of address maps. -/
def FitsMaps (s : Swim) : Prop :=
  ∀ h ∈ s.ipc.hostsCache, h.1.toUInt32.toUInt64 = h.1

/-- An alive node of the hosts. -/
def IsAlive (s : Swim) (node : Node) : Prop :=
  ∃ h ∈ s.ipc.hostsCache, h.1 = node ∧ h.2.state = .alive

theorem isAlive_iff {s : Swim} {node : Node} : IsAlive s node ↔ node ∈ aliveNodes s := by
  simp only [IsAlive, aliveNodes, List.mem_map, List.mem_filter, decide_eq_true_eq]
  constructor
  · rintro ⟨h, hmem, rfl, hstate⟩
    exact ⟨h, ⟨hmem, hstate⟩, rfl⟩
  · rintro ⟨h, ⟨hmem, hstate⟩, rfl⟩
    exact ⟨h, hmem, rfl, hstate⟩

theorem alive_of_among {s : Swim} (hfits : FitsMaps s) {dest : UInt32}
    (h : Among (aliveNodes s) dest) : IsAlive s dest.toUInt64 := by
  obtain ⟨node, hnode, rfl⟩ := h
  obtain ⟨h, hmem, rfl, hstate⟩ := isAlive_iff.mpr hnode
  exact ⟨h, hmem, (hfits h hmem).symm, hstate⟩

/-- The nodes after each has worked through the plan. -/
def recovered (envs : Node → RecoverEnv) (plan : List RecoveryAssignment) (tables : Node → Table)
    (wals : Node → WalDir) (node : Node) : Table :=
  (recoverContainers (envs node) plan (tables node) (wals node)).table

/-- A host that is not alive. -/
def IsDead (s : Swim) (node : Node) : Prop :=
  (∃ h ∈ s.ipc.hostsCache, h.1 = node) ∧ ¬ IsAlive s node

/-- `ScheduleRecover` answers -1 or with the id of an alive node. -/
def SchedulesAlive (env : ProbeEnv) (s : Swim) : Prop :=
  ∀ container, env.scheduleRecover container = 0xffffffff ∨
    IsAlive s (env.scheduleRecover container).toUInt64

theorem SchedulesAlive.schedules {env : ProbeEnv} {s : Swim} (h : SchedulesAlive env s) :
    Schedules env (aliveNodes s) := fun container =>
  (h container).imp_right fun halive => ⟨_, isAlive_iff.mp halive, UInt32.toUInt32_toUInt64 _⟩

/-- The plan has one assignment for each container of the dead node, to an alive node, and no
other ones. -/
structure SoundPlan (s : Swim) (deadNodeId : Node) (table : Table) (plan : List RecoveryAssignment) :
    Prop where
  once : (plan.map key).Nodup
  all : ∀ poolId containerId, (poolId, containerId) ∈ plan.map key ↔
    mapped table poolId containerId = some deadNodeId.toUInt32
  dest : ∀ ra ∈ plan, IsAlive s ra.destNodeId.toUInt64 ∧ ra.destNodeId ≠ deadNodeId.toUInt32

/-- What a node has after it worked through the plan. -/
structure WorkedThrough (deadNodeId node : Node) (plan : List RecoveryAssignment)
    (before after : Table) : Prop where
  gone : ∀ poolId containerId, mapped after poolId containerId ≠ some deadNodeId.toUInt32
  kept : ∀ poolId containerId, mapped before poolId containerId ≠ some deadNodeId.toUInt32 →
    mapped after poolId containerId = mapped before poolId containerId
  moved : ∀ ra ∈ plan, mapped after ra.poolId ra.containerId = some ra.destNodeId
  /-- It has a recovered container if it is the destination, or if it had it before. -/
  own : ∀ ra ∈ plan, (registered after ra.poolId ra.containerId).isSome = true ↔
    ra.destNodeId.toUInt64 = node ∨ (registered before ra.poolId ra.containerId).isSome = true
  pools : ∀ poolId, after.contains poolId = before.contains poolId

theorem soundPlan {env : ProbeEnv} {s : Swim} (halive : ∃ node, IsAlive s node)
    (hdead : IsDead s deadNodeId) (hfits : FitsMaps s) (hsched : SchedulesAlive env s) :
    SoundPlan s deadNodeId env.pools (s.computeRecoveryPlan env deadNodeId) := by
  obtain ⟨node, hnode⟩ := halive
  have hplans := plans_computeRecoveryPlan (List.ne_nil_of_mem (isAlive_iff.mp hnode))
    hsched.schedules deadNodeId
  refine ⟨hplans.once, hplans.all, fun ra hra => ?_⟩
  have hdest := alive_of_among hfits (hplans.dest ra hra)
  refine ⟨hdest, fun heq => hdead.2 ?_⟩
  obtain ⟨h, hmem, hid⟩ := hdead.1
  rwa [heq, ← hid, hfits h hmem, hid] at hdest

theorem contains_of_mapped {poolId : PoolId} {containerId : ContainerId} {node : UInt32}
    (h : mapped table poolId containerId = some node) : table.contains poolId = true := by
  obtain ⟨info, hinfo, -⟩ := Option.bind_eq_some_iff.mp h
  exact Option.isSome_iff_exists.mpr ⟨info, hinfo⟩

theorem workedThrough {s : Swim} {node : Node} (hplan : SoundPlan s deadNodeId table plan)
    (hself : env.selfNodeId = node) (hcreates : Creates env plan) (wal : WalDir) :
    WorkedThrough deadNodeId node plan table (recoverContainers env plan table wal).table := by
  have hknown : ∀ ra ∈ plan, table.contains ra.poolId = true := fun ra hra =>
    contains_of_mapped ((hplan.all ra.poolId ra.containerId).mp (List.mem_map_of_mem hra))
  have hmoved : ∀ ra ∈ plan, mapped (recoverContainers env plan table wal).table ra.poolId
      ra.containerId = some ra.destNodeId := fun ra hra =>
    mapped_recoverFrom hplan.once hra (hknown ra hra)
  have hkept : ∀ poolId containerId, mapped table poolId containerId ≠ some deadNodeId.toUInt32 →
      mapped (recoverContainers env plan table wal).table poolId containerId =
        mapped table poolId containerId := by
    intro poolId containerId hne
    by_cases hpool : table.contains poolId = true
    · exact mapped_recoverFrom_other (fun hmem => hne ((hplan.all poolId containerId).mp hmem)) hpool
    · have hunknown := Bool.eq_false_iff.mpr hpool
      rw [mapped_unknown hunknown]
      exact mapped_unknown ((contains_recoverFrom env 0 plan ⟨table, wal, 0⟩ poolId).trans hunknown) _
  refine ⟨fun poolId containerId hmapped => ?_, hkept, hmoved, fun ra hra => ?_, fun poolId =>
    contains_recoverFrom ..⟩
  · by_cases hbefore : mapped table poolId containerId = some deadNodeId.toUInt32
    · obtain ⟨ra, hra, hkey⟩ := List.mem_map.mp ((hplan.all poolId containerId).mpr hbefore)
      obtain ⟨rfl, rfl⟩ := Prod.mk.inj hkey
      rw [hmoved ra hra] at hmapped
      exact (hplan.dest ra hra).2 (Option.some.inj hmapped)
    · exact hbefore ((hkept poolId containerId hbefore).symm.trans hmapped)
  · by_cases hdest : ra.destNodeId.toUInt64 = node
    · simp only [hdest, true_or, iff_true]
      exact registered_recoverFrom hplan.once hcreates hra (hdest.trans hself.symm) (hknown ra hra)
    · have hother : ∀ other ∈ plan, key other = (ra.poolId, ra.containerId) →
          other.destNodeId.toUInt64 ≠ env.selfNodeId := by
        intro other hmem hkey
        have heq : other = ra := List.inj_on_of_nodup_map hplan.once hmem hra hkey
        rw [heq, hself]
        exact hdest
      rw [recoverContainers, registered_recoverFrom_other hcreates hother (hknown ra hra)]
      simp only [hdest, false_or]

/--
**A recovery moves the containers of a dead node to alive ones.**  The plan is sound, and when
every alive node has worked through it their maps are equal again, and each recovered container
is registered where it is mapped to and where it was registered before.
-/
theorem recovery_moves {env : ProbeEnv} {s : Swim} {deadNodeId : Node}
    (halive : ∃ node, IsAlive s node) (hdead : IsDead s deadNodeId) (hfits : FitsMaps s)
    (hsched : SchedulesAlive env s) (envs : Node → RecoverEnv)
    (hself : ∀ node, (envs node).selfNodeId = node) (tables : Node → Table) (wals : Node → WalDir)
    (hsame : ∀ node, IsAlive s node → SameMaps (tables node) env.pools)
    (hcreates : ∀ node, IsAlive s node → Creates (envs node) (s.computeRecoveryPlan env deadNodeId)) :
    SoundPlan s deadNodeId env.pools (s.computeRecoveryPlan env deadNodeId) ∧
      (∀ node node', IsAlive s node → IsAlive s node' →
        SameMaps (recovered envs (s.computeRecoveryPlan env deadNodeId) tables wals node)
          (recovered envs (s.computeRecoveryPlan env deadNodeId) tables wals node')) ∧
      ∀ node, IsAlive s node →
        WorkedThrough deadNodeId node (s.computeRecoveryPlan env deadNodeId) (tables node)
          (recovered envs (s.computeRecoveryPlan env deadNodeId) tables wals node) := by
  have hplan := soundPlan halive hdead hfits hsched
  have hworked : ∀ node, IsAlive s node →
      WorkedThrough deadNodeId node (s.computeRecoveryPlan env deadNodeId) (tables node)
        (recovered envs (s.computeRecoveryPlan env deadNodeId) tables wals node) := by
    intro node hnode
    have hown : SoundPlan s deadNodeId (tables node) (s.computeRecoveryPlan env deadNodeId) :=
      ⟨hplan.once, fun poolId containerId => by
        rw [hplan.all poolId containerId, (hsame node hnode).2 poolId containerId], hplan.dest⟩
    exact workedThrough hown (hself node) (hcreates node hnode) (wals node)
  refine ⟨hplan, fun node node' hnode hnode' => ⟨fun poolId => ?_, fun poolId containerId => ?_⟩, hworked⟩
  · rw [(hworked node hnode).pools, (hworked node' hnode').pools, (hsame node hnode).1,
      (hsame node' hnode').1]
  · by_cases hlost : mapped env.pools poolId containerId = some deadNodeId.toUInt32
    · obtain ⟨ra, hra, hkey⟩ := List.mem_map.mp ((hplan.all poolId containerId).mpr hlost)
      obtain ⟨rfl, rfl⟩ := Prod.mk.inj hkey
      rw [(hworked node hnode).moved ra hra, (hworked node' hnode').moved ra hra]
    · rw [(hworked node hnode).kept poolId containerId (by rwa [(hsame node hnode).2]),
        (hworked node' hnode').kept poolId containerId (by rwa [(hsame node' hnode').2]),
        (hsame node hnode).2, (hsame node' hnode').2]

/-! ### Three nodes -/

/-- A pool with a container on each of three nodes, as a node has it. -/
def tableOf (node : UInt32) : Table :=
  AMap.empty.insertOrAssign ⟨1, 1⟩
    { numContainers := 3
      containers := AMap.empty.insertOrAssign node (40 + node.toNat)
      addressMap := addressesFrom 3
      localContainer := some (40 + node.toNat)
      poolName := [112]
      chimodName := [109]
      chimodParams := []
      staticContainer := some (40 + node.toNat) }

/-- Node 0 sees its hosts so. -/
def hosts (hostsCache : List (Node × Cluster.Host)) : Swim :=
  Swim.start
    { nodeId := 0
      hostfileMap := AMap.empty
      hostsCache := hostsCache
      hostsCacheValid := true
      deadNodes := []
      selfFenced := false }

/-- Node 2 is dead. -/
def lastDead : Swim :=
  hosts [(0, ⟨"", .alive, 0⟩), (1, ⟨"", .alive, 0⟩), (2, ⟨"", .dead, 0⟩)]

/-- What node 0 finds, with these pools. -/
def leaderEnv (pools : Table) : ProbeEnv where
  clock := fun _ => 0
  sentAt := fun _ => 0
  result := fun _ => none
  shuffle := id
  shuffle_perm := fun l => .refl l
  pools := pools
  scheduleRecover := fun _ => 0xffffffff

/-- A node whose module makes containers. -/
def makes (node : Node) : RecoverEnv where
  selfNodeId := node
  clock := fun k => UInt64.ofNat k
  createContainer := fun k _ _ _ => some (90 + k)

theorem recovery_moves_lastDead :
    SoundPlan lastDead 2 (tableOf 0) (lastDead.computeRecoveryPlan (leaderEnv (tableOf 0)) 2) ∧
      (∀ node node', IsAlive lastDead node → IsAlive lastDead node' →
        SameMaps (recovered makes (lastDead.computeRecoveryPlan (leaderEnv (tableOf 0)) 2)
            (fun node => tableOf node.toUInt32) (fun _ => AMap.empty) node)
          (recovered makes (lastDead.computeRecoveryPlan (leaderEnv (tableOf 0)) 2)
            (fun node => tableOf node.toUInt32) (fun _ => AMap.empty) node')) ∧
      ∀ node, IsAlive lastDead node →
        WorkedThrough 2 node (lastDead.computeRecoveryPlan (leaderEnv (tableOf 0)) 2)
          (tableOf node.toUInt32)
          (recovered makes (lastDead.computeRecoveryPlan (leaderEnv (tableOf 0)) 2)
            (fun node => tableOf node.toUInt32) (fun _ => AMap.empty) node) := by
  have hdead : IsDead lastDead 2 := by
    refine ⟨⟨(2, ⟨"", .dead, 0⟩), List.mem_of_getElem? (i := 2) rfl, rfl⟩, ?_⟩
    rintro ⟨h, hmem, hid, hstate⟩
    simp only [lastDead, hosts, Swim.start, List.mem_cons, List.not_mem_nil, or_false] at hmem
    rcases hmem with rfl | rfl | rfl
    · exact absurd hid (by decide)
    · exact absurd hid (by decide)
    · exact absurd hstate (by decide)
  have hfits : FitsMaps lastDead := by
    intro h hmem
    simp only [lastDead, hosts, Swim.start, List.mem_cons, List.not_mem_nil, or_false] at hmem
    rcases hmem with rfl | rfl | rfl <;> rfl
  have hsched : SchedulesAlive (leaderEnv (tableOf 0)) lastDead := fun _ => Or.inl rfl
  have hsame : ∀ node : Node, IsAlive lastDead node →
      SameMaps (tableOf node.toUInt32) (leaderEnv (tableOf 0)).pools := by
    intro node _
    constructor
    · intro poolId
      unfold leaderEnv tableOf AMap.contains
      rw [AMap.find?_insertOrAssign, AMap.find?_insertOrAssign]
      split <;> rfl
    · intro poolId containerId
      unfold leaderEnv tableOf mapped
      rw [AMap.find?_insertOrAssign, AMap.find?_insertOrAssign]
      split <;> rfl
  exact recovery_moves ⟨0, _, List.mem_cons_self, rfl, rfl⟩ hdead hfits hsched makes (fun _ => rfl)
    (fun node => tableOf node.toUInt32) (fun _ => AMap.empty) hsame (fun _ _ _ _ _ => rfl)

/-- Node 0 after it was asked to migrate container 1, which is on node 1, to node 2. -/
def askedNode0 : Table :=
  (Migration.migrateContainers ⟨0, tableOf 0, AMap.empty, []⟩
    [(⟨⟨1, 1⟩, 1, 2⟩, ⟨[], [.changeAddressTable 5 ⟨1, 1⟩ 1 2], 0⟩)]).node.table

/-- Node 1 after it has had the broadcast. -/
def toldNode1 : Table :=
  (Migration.Op.run ⟨1, tableOf 1, AMap.empty, []⟩ (.changeAddressTable 5 ⟨1, 1⟩ 1 2)).table

/-- The nodes then. -/
def afterMigration (node : Node) : Table := if node = 0 then askedNode0 else toldNode1

/-- Node 2 dies, and container 1 is recovered on node 0: it is registered on node 1 as well.
And a node whose id does not fit a map is taken for the dead one. -/
theorem registered_twice :
    let plan := lastDead.computeRecoveryPlan (leaderEnv askedNode0) 2
    let after := recovered makes plan afterMigration (fun _ => AMap.empty)
    mapped askedNode0 ⟨1, 1⟩ 1 = some 2 ∧ mapped toldNode1 ⟨1, 1⟩ 1 = some 2 ∧
      mapped (after 0) ⟨1, 1⟩ 1 = some 0 ∧ mapped (after 1) ⟨1, 1⟩ 1 = some 0 ∧
      registered (after 0) ⟨1, 1⟩ 1 = some 90 ∧ registered (after 1) ⟨1, 1⟩ 1 = some 41 ∧
      ((hosts [(2, ⟨"", .dead, 0⟩), (0x100000002, ⟨"", .alive, 0⟩)]).computeRecoveryPlan
        (leaderEnv (tableOf 0)) 2).map RecoveryAssignment.destNodeId = [2] := by
  decide

end Recovering
end IowarpCore
