/-
What `MigrateContainers` leaves behind.

A plug stays in whatever the other tasks do (`isPlugged_runAll`), so an entry whose broadcast
fails leaves its container plugged: the branch goes on with the next entry.  And an entry whose
container is not here calls `Migrate` on the local container of the pool instead.
-/
import IowarpCore.Lib.Along
import IowarpCore.Runtime.Migrate

namespace IowarpCore
namespace Migration

open Cluster (Container)
open Pools

/-! ### Plugs -/

variable {container : Container} {s : NodeState}

theorem isPlugged_plugContainer
    (h : s.isPlugged container = true) (poolId : PoolId) (containerId : ContainerId) :
    (s.plugContainer poolId containerId).isPlugged container = true := by
  unfold NodeState.plugContainer
  split
  · exact h
  · exact decide_eq_true (List.mem_cons_of_mem _ (of_decide_eq_true h))

theorem isPlugged_run (h : s.isPlugged container = true)
    (op : Op) : (op.run s).isPlugged container = true := by
  cases op with
  | plugContainer poolId containerId => exact isPlugged_plugContainer h poolId containerId
  | updatePoolMetadata | initAddressMap | registerContainer | unregisterContainer | destroyPool
  | changeAddressTable => exact h

/-- The other tasks take no plug out. -/
theorem isPlugged_runAll (h : s.isPlugged container = true)
    (ops : List Op) : (ops.foldl Op.run s).isPlugged container = true := by
  induction ops generalizing s with
  | nil => exact h
  | cons op ops ih => exact ih (isPlugged_run h op)

theorem isPlugged_own {poolId : PoolId} {containerId : ContainerId} (h : s.getContainerRaw poolId containerId = some container) :
    (s.plugContainer poolId containerId).isPlugged container = true := by
  rw [NodeState.plugContainer, h]
  exact decide_eq_true List.mem_cons_self

/-! ### Lookups -/

/-- A lookup of the container finds it or nothing: it is here, or the pool has no local
container to fall back to. -/
def FindsOwn (s : NodeState) (poolId : PoolId) (containerId : ContainerId) : Prop :=
  match s.table.find? poolId with
  | none => True
  | some info =>
    (containerId ≠ PoolQuery.kInvalidContainerId ∧ info.containers.contains containerId = true) ∨
      info.localContainer = none ∨ info.localContainer = info.containers.find? containerId

theorem findsOwn_iff (s : NodeState) (poolId : PoolId) (containerId : ContainerId) :
    FindsOwn s poolId containerId ↔ ∀ container,
      s.getContainer poolId containerId = some container →
        s.getContainerRaw poolId containerId = some container := by
  unfold FindsOwn NodeState.getContainer NodeState.getContainerRaw
  cases s.table.find? poolId with
  | none => simp
  | some info =>
    dsimp only
    unfold Cluster.PoolInfo.getContainer AMap.contains
    by_cases hid : containerId = PoolQuery.kInvalidContainerId
    · simp only [hid, ne_eq, not_true_eq_false, if_false, false_and, false_or]
      cases info.localContainer with
      | none => simp
      | some container =>
        simp only [reduceCtorEq, false_or, Option.some.injEq, forall_eq']
        exact eq_comm
    · simp only [ne_eq, hid, not_false_eq_true, if_true, true_and]
      cases info.containers.find? containerId with
      | none => cases info.localContainer <;> simp
      | some container => simp

theorem getContainerRaw_unregister (s : NodeState) (poolId : PoolId) (containerId : ContainerId) :
    NodeState.getContainerRaw
      { s with table := (unregisterContainer s.table poolId containerId).2 } poolId containerId =
        none := by
  unfold NodeState.getContainerRaw unregisterContainer
  cases hpool : s.table.find? poolId with
  | none => simp [hpool]
  | some info =>
    dsimp only
    cases hfind : info.containers.find? containerId with
    | none => simp [hpool, hfind]
    | some removed =>
      dsimp only
      rw [AMap.find?_insertOrAssign, if_pos rfl]
      dsimp only
      split
      · unfold PoolInfo.recalculateLocalContainer
        split <;> simp
      · simp

/-! ### One entry -/

/-- The mapping was changed and the container is not registered here any more. -/
structure Moved (info : MigrateInfo) (waits : Waits) (s s' : State) : Prop where
  changed : waits.returnCode = 0
  unregistered : s'.node.getContainerRaw info.poolId info.containerId = none
  counted : s'.numMigrated = s.numMigrated + 1

/-- The container is registered and mapped as before and takes tasks. -/
structure Kept (info : MigrateInfo) (s s' : State) (container : Container) : Prop where
  was : s.node.getContainerRaw info.poolId info.containerId = some container
  still : s'.node.getContainerRaw info.poolId info.containerId = some container
  mapped : getContainerNodeId s'.node.table info.poolId info.containerId =
    getContainerNodeId s.node.table info.poolId info.containerId
  unplugged : s'.node.isPlugged container = false

/-- `Migrate` is called on nothing but the container of the entry, which has moved or is kept. -/
def Served (info : MigrateInfo) (waits : Waits) (s s' : State) : Prop :=
  (∃ calls, s'.calls = s.calls ++ calls ∧ ∀ call ∈ calls, call.1 = info ∧
      (s.drained info waits).getContainerRaw info.poolId info.containerId = some call.2) ∧
    (Moved info waits s s' ∨ ∃ container, Kept info s s' container)

/-- The broadcast succeeds, and the lookup finds the container or nothing. -/
def GoesThrough (info : MigrateInfo) (waits : Waits) (s : State) : Prop :=
  waits.returnCode = 0 ∧ FindsOwn (s.drained info waits) info.poolId info.containerId

theorem calls_migrateOne (s : State) (info : MigrateInfo) (waits : Waits) :
    (s.migrateOne info waits).calls = s.calls ++
      (((s.drained info waits).getContainer info.poolId info.containerId).map
        fun container => (info, container)).toList := by
  unfold State.migrateOne
  cases hfound : (s.drained info waits).getContainer info.poolId info.containerId with
  | none =>
    split <;> simp [hfound]
  | some container =>
    split <;> simp [hfound]

theorem moved_of_succeeded {info : MigrateInfo} {waits : Waits} (s : State)
    (hcode : waits.returnCode = 0) : Moved info waits s (s.migrateOne info waits) where
  changed := hcode
  unregistered := by
    rw [State.migrateOne, if_neg (not_not_intro hcode)]
    exact getContainerRaw_unregister _ info.poolId info.containerId
  counted := by rw [State.migrateOne, if_neg (not_not_intro hcode)]

/-- A container whose broadcast fails is left plugged. -/
theorem not_kept_of_failed {info : MigrateInfo} {waits : Waits} (s : State)
    (hcode : waits.returnCode ≠ 0) (container : Container) :
    ¬ Kept info s (s.migrateOne info waits) container := by
  intro h
  have hplugged : ((s.migrateOne info waits).node).isPlugged container = true := by
    rw [State.migrateOne, if_pos hcode]
    exact isPlugged_runAll (isPlugged_runAll (isPlugged_own h.was) _) _
  rw [h.unplugged] at hplugged
  exact Bool.false_ne_true hplugged

theorem served_migrateOne_iff (info : MigrateInfo) (waits : Waits) (s : State) :
    Served info waits s (s.migrateOne info waits) ↔ GoesThrough info waits s := by
  rw [GoesThrough, findsOwn_iff]
  constructor
  · rintro ⟨⟨calls, hcalls, hown⟩, hout⟩
    rw [calls_migrateOne] at hcalls
    refine ⟨?_, fun container hfound => ?_⟩
    · rcases hout with hmoved | ⟨container, hkept⟩
      · exact hmoved.changed
      · exact by_contra fun hcode => not_kept_of_failed s hcode container hkept
    · have hcall : (info, container) ∈ calls := by
        rw [← List.append_cancel_left hcalls, hfound]
        simp
      exact (hown _ hcall).2
  · rintro ⟨hcode, hown⟩
    refine ⟨⟨_, calls_migrateOne s info waits, fun call hcall => ?_⟩,
      Or.inl (moved_of_succeeded s hcode)⟩
    rw [Option.mem_toList] at hcall
    obtain ⟨container, hfound, rfl⟩ := Option.map_eq_some_iff.mp hcall
    exact ⟨rfl, hown container hfound⟩

/-! ### All entries -/

/-- The loop goes on with this entry. -/
def Turns (entry : MigrateInfo × Waits) (s s' : State) : Prop :=
  s' = s.migrateOne entry.1 entry.2

/--
**An entry is served if and only if it goes through.**  Each entry of a task either has its
container moved and counted or keeps it as it was, and no other container is migrated, exactly
when every broadcast succeeds and no lookup falls back to another container.
-/
theorem migrates_iff (node : NodeState) (entries : List (MigrateInfo × Waits)) :
    Along (fun entry s s' => Turns entry s s' ∧ Served entry.1 entry.2 s s') entries
        (State.start node) (migrateContainers node entries) ↔
      Along (fun entry s s' => Turns entry s s' ∧ GoesThrough entry.1 entry.2 s) entries
        (State.start node) (migrateContainers node entries) := by
  refine Along.congr_of_invariant (I := fun _ => True) (fun entry s s' _ => ?_)
    (fun _ _ _ _ _ => trivial) trivial
  constructor
  · rintro ⟨rfl, hserved⟩
    exact ⟨rfl, (served_migrateOne_iff entry.1 entry.2 s).mp hserved⟩
  · rintro ⟨rfl, hthrough⟩
    exact ⟨rfl, (served_migrateOne_iff entry.1 entry.2 s).mpr hthrough⟩

/-! ### A container nobody serves -/

/-- Node 0 with container 0 of a pool that has container 1 on node 1. -/
def twoNodes : NodeState where
  nodeId := 0
  table := AMap.empty.insertOrAssign ⟨1, 0⟩
    { numContainers := 2
      containers := AMap.empty.insertOrAssign 0 40
      addressMap := addressesFrom 2
      localContainer := some 40
      poolName := [112]
      chimodName := [109]
      chimodParams := []
      staticContainer := some 40 }
  wal := AMap.empty
  plugged := []

/-- Node 0 makes the change, and another node answers that it does not know the pool. -/
def changedHereOnly : Waits where
  draining := []
  broadcasting := [.changeAddressTable 5 ⟨1, 0⟩ 0 1]
  returnCode := 1

/-- Container 0 is registered here, mapped to node 1 and plugged after the broadcast failed; and
an entry for container 1, which is on node 1, migrates container 0. -/
theorem left_plugged :
    let after := migrateContainers twoNodes [(⟨⟨1, 0⟩, 0, 1⟩, changedHereOnly)]
    let other := migrateContainers twoNodes [(⟨⟨1, 0⟩, 1, 0⟩, ⟨[], [], 0⟩)]
    after.numMigrated = 0 ∧ after.node.getContainerRaw ⟨1, 0⟩ 0 = some 40 ∧
      after.node.isPlugged 40 = true ∧ getContainerNodeId after.node.table ⟨1, 0⟩ 0 = 1 ∧
      ¬ Served ⟨⟨1, 0⟩, 0, 1⟩ changedHereOnly (State.start twoNodes) after ∧
      other.calls = [(⟨⟨1, 0⟩, 1, 0⟩, 40)] ∧
      ¬ Served ⟨⟨1, 0⟩, 1, 0⟩ ⟨[], [], 0⟩ (State.start twoNodes) other := by
  refine ⟨by decide, by decide, by decide, by decide, ?_, by decide, ?_⟩
  · rintro ⟨-, hmoved | ⟨container, hkept⟩⟩
    · exact absurd hmoved.changed (by decide)
    · exact absurd hkept.mapped (by decide)
  · rintro ⟨⟨calls, hcalls, hown⟩, -⟩
    have hone : [((⟨⟨1, 0⟩, 1, 0⟩, 40) : MigrateInfo × Container)] = calls := hcalls
    subst hone
    exact absurd (hown _ List.mem_cons_self).2 (by decide)

end Migration
end IowarpCore
