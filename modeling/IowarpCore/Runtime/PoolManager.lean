/-
The pool table of a node: `GetOrCreatePool` of `admin_runtime.cc` and the part of
`pool_manager.cc` it uses.

A pool is published in the table before its container runs `Create`, the one await of the
task.  Other tasks run while it waits.  `Surroundings` is what the rest of the node answers
while a task is created: the module manager, the module itself, the hosts.  A function of
a module that throws is an `Except.error`; nothing behind the await throws, since
an exception that leaves a coroutine ends the process.

The texts of the log, the counter of pools created and `is_initialized_`, which is set before
the first task runs, are left out.
-/
import IowarpCore.Lib.Interleave
import IowarpCore.Cluster.Routing

namespace IowarpCore
namespace Pools

open Cluster (Container)

/-- `chi::PoolInfo`, with the maps the router reads. -/
structure PoolInfo extends Cluster.PoolInfo where
  poolName : Bytes
  chimodName : Bytes
  chimodParams : Bytes
  staticContainer : Option Container

/-- `pool_metadata_`. -/
abbrev Table := AMap PoolId PoolInfo

/-- `BaseCreateTask`, without the flags and texts nothing here reads. -/
structure CreateTask where
  chimodName : Bytes
  poolName : Bytes
  chimodParams : Bytes
  newPoolId : PoolId
  doCompose : Bool
  returnCode : UInt32
  deriving DecidableEq

/-- What a function of a module may do: throw or return. -/
abbrev Throwing := Except Unit

structure Surroundings where
  /-- The size of `GetAllHosts()`. -/
  numHosts : UInt32
  nodeId : UInt32
  /-- Whether there is a `CHI_MODULE_MANAGER`. -/
  moduleManager : Bool
  /-- Whether `GetChiMod` finds the module. -/
  hasChiMod : Bytes → Bool
  createContainer : Bytes → PoolId → Bytes → Throwing (Option Container)
  /-- `restart_` of the `PoolConfig` that the parameters are the image of. -/
  restartOf : Bytes → Throwing Bool
  restart : Container → PoolId → Bytes → ContainerId → Throwing Unit
  init : Container → PoolId → Bytes → ContainerId → Throwing Unit

/-! ### The table -/

/-- `FindPoolByName`: the null id if there is no such pool. -/
def findPoolByName (table : Table) (poolName : Bytes) : PoolId :=
  match table.entries.find? fun e => e.2.poolName = poolName with
  | some e => e.1
  | none => UniqueId.null

def hasPool (table : Table) (poolId : PoolId) : Bool := table.contains poolId

def updatePoolMetadata (table : Table) (poolId : PoolId) (info : PoolInfo) : Table :=
  table.insertOrAssign poolId info

/-- At first a container is on the node of its own number. -/
def addressesFrom (numContainers : UInt32) : AMap ContainerId UInt32 :=
  (List.range numContainers.toNat).foldl
    (fun m i => m.insertOrAssign (UInt32.ofNat i) (UInt32.ofNat i)) AMap.empty

def initAddressMap (table : Table) (poolId : PoolId) (numContainers : UInt32) : Table :=
  match table.find? poolId with
  | none => table
  | some info =>
    table.insertOrAssign poolId { info with addressMap := addressesFrom numContainers }

/-- `RegisterContainer` of a container that is not null. -/
def registerContainer (table : Table) (poolId : PoolId) (containerId : ContainerId)
    (container : Container) (isStatic : Bool) : Bool × Table :=
  match table.find? poolId with
  | none => (false, table)
  | some info =>
    (true, table.insertOrAssign poolId
      { info with
        containers := info.containers.insertOrAssign containerId container
        staticContainer :=
          if isStatic || info.staticContainer.isNone then some container
          else info.staticContainer
        localContainer :=
          if info.localContainer.isNone then some container else info.localContainer })

/-- Any other container of the pool on this node, else the static one. -/
def PoolInfo.recalculateLocalContainer (info : PoolInfo) : PoolInfo :=
  match info.containers.entries with
  | e :: _ => { info with localContainer := some e.2 }
  | [] => { info with localContainer := info.staticContainer }

def unregisterContainer (table : Table) (poolId : PoolId) (containerId : ContainerId) :
    Bool × Table :=
  match table.find? poolId with
  | none => (false, table)
  | some info =>
    match info.containers.find? containerId with
    | none => (false, table)
    | some removed =>
      let rest := { info with containers := info.containers.erase containerId }
      (true, table.insertOrAssign poolId
        (if info.localContainer = some removed then rest.recalculateLocalContainer else rest))

/-- `DestroyPool`: the containers are dropped with the entry. -/
def destroyPool (table : Table) (poolId : PoolId) : Table := table.erase poolId

/-! ### Creating a pool -/

def validatePoolParams (env : Surroundings) (chimodName poolName : Bytes) : Bool :=
  if chimodName.isEmpty || poolName.isEmpty then false
  else if !env.moduleManager then false
  else env.hasChiMod chimodName

/-- The metadata a pool starts with. -/
def newPoolInfo (env : Surroundings) (task : CreateTask) : PoolInfo where
  poolName := task.poolName
  chimodName := task.chimodName
  chimodParams := task.chimodParams
  numContainers := env.numHosts
  containers := AMap.empty
  addressMap := AMap.empty
  staticContainer := none
  localContainer := none

/-- How the try block gets on before the container is registered. -/
inductive Making where
  | made (container : Container)
  | noContainer
  /-- An exception, with the container if there is one already. -/
  | threw (container : Option Container)
  deriving DecidableEq

/-- Make the container and initialise it. -/
def makeContainer (env : Surroundings) (task : CreateTask) : Making :=
  match env.createContainer task.chimodName task.newPoolId task.poolName with
  | .error _ => .threw none
  | .ok none => .noContainer
  | .ok (some container) =>
    let isRestart := if task.doCompose then env.restartOf task.chimodParams else .ok false
    match isRestart with
    | .error _ => .threw (some container)
    | .ok restart =>
      let initialised :=
        if restart then env.restart container task.newPoolId task.poolName env.nodeId
        else env.init container task.newPoolId task.poolName env.nodeId
      match initialised with
      | .error _ => .threw (some container)
      | .ok _ => .made container

/-- The one request a task awaits: `Create` of its container. -/
structure CreateCall where
  container : Container
  task : CreateTask

/-- A task over the pool table that awaits return codes. -/
abbrev PoolTask := Co Table CreateCall UInt32

/-- From the await on. -/
def finishCreate (env : Surroundings) (task : CreateTask) (returnCode : UInt32) :
    PoolTask CreateTask := do
  if returnCode ≠ 0 then
    Co.modify fun table => (unregisterContainer table task.newPoolId env.nodeId).2
    Co.modify fun table => table.erase task.newPoolId
    return { task with returnCode := returnCode }
  else
    return { task with returnCode := returnCode }

/-- From the publication of the metadata on. -/
def createLocalPool (env : Surroundings) (task : CreateTask) : PoolTask CreateTask := do
  Co.modify fun table => updatePoolMetadata table task.newPoolId (newPoolInfo env task)
  Co.modify fun table => initAddressMap table task.newPoolId env.numHosts
  if !env.moduleManager then
    Co.modify fun table => table.erase task.newPoolId
    return task
  else
    match makeContainer env task with
    | .threw container =>
      if container.isSome then
        Co.modify fun table => (unregisterContainer table task.newPoolId env.nodeId).2
      Co.modify fun table => table.erase task.newPoolId
      return task
    | .noContainer =>
      Co.modify fun table => table.erase task.newPoolId
      return task
    | .made container =>
      let table ← Co.read
      let (registered, table') :=
        registerContainer table task.newPoolId env.nodeId container true
      Co.modify fun _ => table'
      if !registered then
        Co.modify fun table => table.erase task.newPoolId
        return task
      else
        let returnCode ← Co.call ⟨container, task⟩
        finishCreate env task returnCode

/-- `PoolManager::CreatePool`. -/
def createPool (env : Surroundings) (task : CreateTask) : PoolTask CreateTask := do
  if !validatePoolParams env task.chimodName task.poolName then return task
  else
    let table ← Co.read
    let existingPoolId := findPoolByName table task.poolName
    if !existingPoolId.isNull then return { task with newPoolId := existingPoolId }
    else if task.newPoolId.isNull then return task
    else if hasPool table task.newPoolId then return task
    else createLocalPool env task

/-- `Runtime::GetOrCreatePool`.  A task that `CreatePool` left at 0 has succeeded. -/
def getOrCreatePool (env : Surroundings) (task : CreateTask) : PoolTask CreateTask :=
  createPool env { task with returnCode := 0 }

/-! ### Many tasks -/

/-- A task with the surroundings it meets. -/
structure Request where
  env : Surroundings
  task : CreateTask

def Request.prog (r : Request) : PoolTask CreateTask := getOrCreatePool r.env r.task

/-- Where such a task stands. -/
abbrev Thread := Co.Thread Table CreateCall UInt32 CreateTask

/-- The tasks started on a node and its pool table.  `δ` is what the containers know. -/
abbrev Node (δ : Type) := Co.Pool Request Table δ CreateCall UInt32 CreateTask

inductive Op where
  | move (m : Co.Move Request)
  | destroy (poolId : PoolId)

/-- What may happen on a node whose containers answer `Create` as `S` says: a move of the
tasks, or, while no task waits, the end of a pool. -/
inductive Step {δ : Type} (S : CreateCall → δ → UInt32 → δ → Prop) :
    Op → Node δ → Node δ → Prop
  | move {m : Co.Move Request} {p p' : Node δ} :
      Co.Moves S Request.prog m p p' → Step S (.move m) p p'
  | destroy {poolId : PoolId} {p : Node δ} :
      (∀ x ∈ p.threads, ∃ task, x.2 = .done task) →
      Step S (.destroy poolId) p { p with world := ⟨destroyPool p.world.c poolId, p.world.d⟩ }

end Pools
end IowarpCore
