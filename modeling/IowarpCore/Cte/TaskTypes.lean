/-
How the tasks of the CTE core travel: task.h, the target, tag, blob, query, telemetry and
flush tasks of core_tasks.h, and the copies `SendIn` and `RecvIn` make of them.

`SerializeIn` and `SerializeOut` give an archive a list of fields; loading the archive
into another task sets these fields of it and no others.  So each is a function of the
task that was saved and the task it is loaded into, and the fields that are set are the
ones the source lists.  A `bulk` is a buffer: a pointer and the bytes there.

A `RunContext` is never copied or sent and is left out.
-/
import IowarpCore.Bdev.Device
import IowarpCore.Cluster.Routing

namespace IowarpCore.Cte.Wire

/-! ### The fields of every task -/

structure TaskId where
  pid : UInt32
  tid : UInt32
  major : UInt32
  replicaId : UInt32
  unique : UInt32
  nodeId : UInt64
  netKey : UInt64
deriving DecidableEq, Repr

/-- The fields of `chi::Task`. -/
structure Base where
  poolId : PoolId
  taskId : TaskId
  poolQuery : PoolQuery
  method : UInt32
  taskFlags : UInt32
  periodNs : F64
  returnCode : UInt32
  completer : ContainerId
  /-- -1 is the null group. -/
  taskGroup : Int64
deriving DecidableEq, Repr

namespace Base

/-- `SetNull`. -/
def null : Base :=
  { poolId := .null, taskId := ⟨0, 0, 0, 0, 0, 0, 0⟩, poolQuery := .localQuery, method := 0,
    taskFlags := 0, periodNs := ⟨0⟩, returnCode := 0, completer := 0, taskGroup := -1 }

/-- The emplace constructor. -/
def emplace (taskId : TaskId) (poolId : PoolId) (poolQuery : PoolQuery) (method : UInt32) : Base :=
  { poolId := poolId, taskId := taskId, poolQuery := poolQuery, method := method,
    taskFlags := 0, periodNs := ⟨0⟩, returnCode := 0, completer := 0, taskGroup := -1 }

/-- `Task::Copy`. -/
def copy (other own : Base) : Base :=
  { own with
    poolId := other.poolId
    taskId := other.taskId
    poolQuery := other.poolQuery
    method := other.method
    taskFlags := other.taskFlags
    periodNs := other.periodNs
    returnCode := other.returnCode
    completer := other.completer
    taskGroup := other.taskGroup }

/-- `Task::SerializeIn`. -/
def serializeIn (sent own : Base) : Base :=
  { own with
    poolId := sent.poolId
    taskId := sent.taskId
    poolQuery := sent.poolQuery
    method := sent.method
    taskFlags := sent.taskFlags
    periodNs := sent.periodNs
    returnCode := sent.returnCode }

/-- `Task::SerializeOut`. -/
def serializeOut (sent own : Base) : Base :=
  { own with returnCode := sent.returnCode, completer := sent.completer }

/-- `Task::Aggregate`. -/
def aggregate (replica own : Base) : Base :=
  { own with
    returnCode := if replica.returnCode ≠ 0 then replica.returnCode else own.returnCode
    completer := replica.completer }

end Base

def TASK_PERIODIC : UInt32 := 1
def TASK_ROUTED : UInt32 := 2
def TASK_DATA_OWNER : UInt32 := 4
def TASK_REMOTE : UInt32 := 8
def TASK_FORCE_NET : UInt32 := 16
def TASK_STARTED : UInt32 := 32
def TASK_RUN_CTX_EXISTS : UInt32 := 64

/-! ### Buffers -/

/-- A `ShmPtr` and the bytes there; null points nowhere. -/
structure Bulk where
  ptr : Option UInt64
  bytes : Bytes
deriving DecidableEq, Repr

/-- `bulk` of a request with `BULK_XFER`: the bytes, in the receiver's buffer at `place`.
A null pointer is taken to come as one. -/
def Bulk.loadIn (place : UInt64) (size : UInt64) (sent : Bulk) : Bulk :=
  match sent.ptr with
  | some _ => ⟨some place, sent.bytes.take size.toNat⟩
  | none => ⟨none, []⟩

/-- `bulk` of a request with `BULK_EXPOSE`: no bytes, a buffer for as many. -/
def Bulk.expose (place : UInt64) (size : UInt64) : Bulk :=
  ⟨some place, List.replicate size.toNat 0⟩

/-- `bulk` of an answer: into the buffer that is there, else the one at `place`. -/
def Bulk.loadOut (place : UInt64) (size : UInt64) (sent own : Bulk) : Bulk :=
  match own.ptr with
  | some ptr => ⟨some ptr, sent.bytes.take size.toNat ++ own.bytes.drop size.toNat⟩
  | none => ⟨some place, sent.bytes.take size.toNat⟩

/-! ### A task type -/

/-- A task: the fields of every task, and those of its own type. -/
structure Task (F : Type) where
  base : Base
  own : F

/-- What `Aggregate` does behind `Task::Aggregate`. -/
inductive Aggregation (F : Type) where
  /-- `Copy` of the replica. -/
  | copies
  /-- Adds the replica's outputs to the task's own. -/
  | merges (merge : F → F → F)

/-- A task struct: its constructors and its four hand-written lists of fields.  The last
five entries say which of its fields are what, as the source annotates and describes them. -/
structure TaskType where
  Fields : Type
  Args : Type
  method : UInt32
  /-- The SHM constructor. -/
  null : Fields
  /-- The emplace constructors. -/
  emplace : Args → Fields
  serializeIn : UInt64 → Fields → Fields → Fields
  serializeOut : UInt64 → Fields → Fields → Fields
  copy : Fields → Fields → Fields
  aggregation : Aggregation Fields
  /-- The OUT and INOUT fields. -/
  Outputs : Type
  outputs : Fields → Outputs
  withOutputs : Outputs → Fields → Fields
  /-- The outputs that count something. -/
  counts : List (Fields → UInt64) := []
  /-- The outputs that list names, with the limit on their number. -/
  names : List (Fields → List Bytes) := []
  limit : Fields → UInt32 := fun _ => 0
  /-- The names come in lists of one length. -/
  paired : Fields → Prop := fun _ => True
  /-- The caller's buffer. -/
  buffer : Fields → Option UInt64 := fun _ => none

/-! ### Target tasks -/

structure RegisterTargetFields where
  targetName : Bytes
  bdevType : Bdev.BdevType
  totalSize : UInt64
  targetQuery : PoolQuery
  bdevId : PoolId
deriving DecidableEq, Repr

def registerTargetTask : TaskType where
  Fields := RegisterTargetFields
  Args := RegisterTargetFields
  method := 10
  null := ⟨[], .file, 0, .localQuery, .null⟩
  emplace args := args
  serializeIn _ sent own :=
    { own with
      targetName := sent.targetName
      bdevType := sent.bdevType
      totalSize := sent.totalSize
      targetQuery := sent.targetQuery
      bdevId := sent.bdevId }
  serializeOut _ _ own := own
  copy other own :=
    { own with
      targetName := other.targetName
      bdevType := other.bdevType
      totalSize := other.totalSize
      targetQuery := other.targetQuery
      bdevId := other.bdevId }
  aggregation := .copies
  Outputs := Unit
  outputs _ := ()
  withOutputs _ f := f

structure UnregisterTargetFields where
  targetName : Bytes
deriving DecidableEq, Repr

def unregisterTargetTask : TaskType where
  Fields := UnregisterTargetFields
  Args := Bytes
  method := 11
  null := ⟨[]⟩
  emplace targetName := ⟨targetName⟩
  serializeIn _ sent own := { own with targetName := sent.targetName }
  serializeOut _ _ own := own
  copy other own := { own with targetName := other.targetName }
  aggregation := .copies
  Outputs := Unit
  outputs _ := ()
  withOutputs _ f := f

structure ListTargetsFields where
  targetNames : List Bytes
deriving DecidableEq, Repr

def listTargetsTask : TaskType where
  Fields := ListTargetsFields
  Args := Unit
  method := 12
  null := ⟨[]⟩
  emplace _ := ⟨[]⟩
  serializeIn _ _ own := own
  serializeOut _ sent own := { own with targetNames := sent.targetNames }
  copy other own := { own with targetNames := other.targetNames }
  aggregation :=
    .merges fun replica own => { own with targetNames := own.targetNames ++ replica.targetNames }
  Outputs := List Bytes
  outputs f := f.targetNames
  withOutputs out f := { f with targetNames := out }
  names := [ListTargetsFields.targetNames]

/-- It has no fields of its own. -/
def statTargetsTask : TaskType where
  Fields := Unit
  Args := Unit
  method := 13
  null := ()
  emplace _ := ()
  serializeIn _ _ own := own
  serializeOut _ _ own := own
  copy _ own := own
  aggregation := .copies
  Outputs := Unit
  outputs _ := ()
  withOutputs _ f := f

structure GetTargetInfoFields where
  targetName : Bytes
  targetScore : F32
  remainingSpace : UInt64
  bytesRead : UInt64
  bytesWritten : UInt64
  opsRead : UInt64
  opsWritten : UInt64
deriving DecidableEq, Repr

/-- Its numbers are those of one target, the same on every replica. -/
def getTargetInfoTask : TaskType where
  Fields := GetTargetInfoFields
  Args := Bytes
  method := 32
  null := ⟨[], F32.zero, 0, 0, 0, 0, 0⟩
  emplace targetName := ⟨targetName, F32.zero, 0, 0, 0, 0, 0⟩
  serializeIn _ sent own := { own with targetName := sent.targetName }
  serializeOut _ sent own := { sent with targetName := own.targetName }
  copy other own :=
    { own with
      targetName := other.targetName
      targetScore := other.targetScore
      remainingSpace := other.remainingSpace
      bytesRead := other.bytesRead
      bytesWritten := other.bytesWritten
      opsRead := other.opsRead
      opsWritten := other.opsWritten }
  aggregation := .copies
  Outputs := F32 × UInt64 × UInt64 × UInt64 × UInt64 × UInt64
  outputs f := (f.targetScore, f.remainingSpace, f.bytesRead, f.bytesWritten, f.opsRead, f.opsWritten)
  withOutputs out f := ⟨f.targetName, out.1, out.2.1, out.2.2.1, out.2.2.2.1, out.2.2.2.2.1, out.2.2.2.2.2⟩

/-! ### Tag tasks -/

structure GetOrCreateTagFields where
  tagName : Bytes
  tagId : TagId
deriving DecidableEq, Repr

def getOrCreateTagTask : TaskType where
  Fields := GetOrCreateTagFields
  Args := Bytes × TagId
  method := 14
  null := ⟨[], .null⟩
  emplace args := ⟨args.1, args.2⟩
  serializeIn _ sent own := { own with tagName := sent.tagName, tagId := sent.tagId }
  serializeOut _ sent own := { own with tagId := sent.tagId }
  copy other own := { own with tagName := other.tagName, tagId := other.tagId }
  aggregation := .copies
  Outputs := TagId
  outputs f := f.tagId
  withOutputs out f := { f with tagId := out }

structure DelTagFields where
  tagId : TagId
  tagName : Bytes
deriving DecidableEq, Repr

/-- Two constructors: by id and by name. -/
def delTagTask : TaskType where
  Fields := DelTagFields
  Args := TagId ⊕ Bytes
  method := 19
  null := ⟨.null, []⟩
  emplace
    | .inl tagId => ⟨tagId, []⟩
    | .inr tagName => ⟨.null, tagName⟩
  serializeIn _ sent own := { own with tagId := sent.tagId, tagName := sent.tagName }
  serializeOut _ sent own := { own with tagId := sent.tagId }
  copy other own := { own with tagId := other.tagId, tagName := other.tagName }
  aggregation := .copies
  Outputs := TagId
  outputs f := f.tagId
  withOutputs out f := { f with tagId := out }

structure GetTagSizeFields where
  tagId : TagId
  tagSize : UInt64
deriving DecidableEq, Repr

def getTagSizeTask : TaskType where
  Fields := GetTagSizeFields
  Args := TagId
  method := 20
  null := ⟨.null, 0⟩
  emplace tagId := ⟨tagId, 0⟩
  serializeIn _ sent own := { own with tagId := sent.tagId }
  serializeOut _ sent own := { own with tagSize := sent.tagSize }
  copy other own := { own with tagId := other.tagId, tagSize := other.tagSize }
  aggregation := .merges fun replica own => { own with tagSize := own.tagSize + replica.tagSize }
  Outputs := UInt64
  outputs f := f.tagSize
  withOutputs out f := { f with tagSize := out }
  counts := [GetTagSizeFields.tagSize]

structure GetContainedBlobsFields where
  tagId : TagId
  blobNames : List Bytes
deriving DecidableEq, Repr

def getContainedBlobsTask : TaskType where
  Fields := GetContainedBlobsFields
  Args := TagId
  method := 24
  null := ⟨.null, []⟩
  emplace tagId := ⟨tagId, []⟩
  serializeIn _ sent own := { own with tagId := sent.tagId }
  serializeOut _ sent own := { own with blobNames := sent.blobNames }
  copy other own := { own with tagId := other.tagId, blobNames := other.blobNames }
  aggregation :=
    .merges fun replica own => { own with blobNames := own.blobNames ++ replica.blobNames }
  Outputs := List Bytes
  outputs f := f.blobNames
  withOutputs out f := { f with blobNames := out }
  names := [GetContainedBlobsFields.blobNames]

/-! ### Blob tasks -/

/-- `wrp_cte::core::Context`. -/
structure Context where
  dynamicCompress : Int32
  compressLib : Int32
  compressPreset : Int32
  targetPsnr : UInt32
  psnrChance : Int32
  maxPerformance : Bool
  consumerNode : Int32
  dataType : Int32
  trace : Bool
  traceKey : UInt64
  traceNode : Int32
  minPersistenceLevel : Int32
  persistenceTarget : Int32
  actualOriginalSize : UInt64
  actualCompressedSize : UInt64
  actualCompressionRatio : F64
  actualCompressTimeMs : F64
  actualPsnrDb : F64
deriving DecidableEq, Repr

def Context.null : Context :=
  { dynamicCompress := 0, compressLib := 0, compressPreset := 2, targetPsnr := 0,
    psnrChance := 100, maxPerformance := false, consumerNode := -1, dataType := 0,
    trace := false, traceKey := 0, traceNode := -1, minPersistenceLevel := 0,
    persistenceTarget := -1, actualOriginalSize := 0, actualCompressedSize := 0,
    actualCompressionRatio := ⟨0x3ff0000000000000⟩, actualCompressTimeMs := ⟨0⟩,
    actualPsnrDb := ⟨0⟩ }

/-- `Context::serialize`. -/
def Context.load (sent own : Context) : Context :=
  { own with
    dynamicCompress := sent.dynamicCompress
    compressLib := sent.compressLib
    compressPreset := sent.compressPreset
    targetPsnr := sent.targetPsnr
    psnrChance := sent.psnrChance
    maxPerformance := sent.maxPerformance
    consumerNode := sent.consumerNode
    dataType := sent.dataType
    trace := sent.trace
    traceKey := sent.traceKey
    traceNode := sent.traceNode
    minPersistenceLevel := sent.minPersistenceLevel
    persistenceTarget := sent.persistenceTarget
    actualOriginalSize := sent.actualOriginalSize
    actualCompressedSize := sent.actualCompressedSize
    actualCompressionRatio := sent.actualCompressionRatio
    actualCompressTimeMs := sent.actualCompressTimeMs
    actualPsnrDb := sent.actualPsnrDb }

structure PutBlobFields where
  tagId : TagId
  blobName : Bytes
  offset : UInt64
  size : UInt64
  blobData : Bulk
  score : F32
  context : Context
  flags : UInt32
deriving DecidableEq, Repr

def putBlobTask : TaskType where
  Fields := PutBlobFields
  Args := PutBlobFields
  method := 15
  null := ⟨.null, [], 0, 0, ⟨none, []⟩, F32.negOne, .null, 0⟩
  emplace args := args
  serializeIn place sent own :=
    { own with
      tagId := sent.tagId
      blobName := sent.blobName
      offset := sent.offset
      size := sent.size
      score := sent.score
      context := sent.context.load own.context
      flags := sent.flags
      blobData := sent.blobData.loadIn place sent.size }
  serializeOut _ sent own :=
    { own with blobName := sent.blobName, context := sent.context.load own.context }
  copy other own :=
    { own with
      tagId := other.tagId
      blobName := other.blobName
      offset := other.offset
      size := other.size
      blobData := other.blobData
      score := other.score
      context := other.context
      flags := other.flags }
  aggregation := .copies
  Outputs := Bytes × Context
  outputs f := (f.blobName, f.context)
  withOutputs out f := { f with blobName := out.1, context := out.2 }
  buffer f := f.blobData.ptr

structure GetBlobFields where
  tagId : TagId
  blobName : Bytes
  offset : UInt64
  size : UInt64
  flags : UInt32
  blobData : Bulk
deriving DecidableEq, Repr

/-- No field of `GetBlob` is an output; its result is what the buffer holds. -/
def getBlobTask : TaskType where
  Fields := GetBlobFields
  Args := GetBlobFields
  method := 16
  null := ⟨.null, [], 0, 0, 0, ⟨none, []⟩⟩
  emplace args := args
  serializeIn place sent own :=
    { own with
      tagId := sent.tagId
      blobName := sent.blobName
      offset := sent.offset
      size := sent.size
      flags := sent.flags
      blobData := Bulk.expose place sent.size }
  serializeOut place sent own :=
    { own with blobData := sent.blobData.loadOut place own.size own.blobData }
  copy other own :=
    { own with
      tagId := other.tagId
      blobName := other.blobName
      offset := other.offset
      size := other.size
      flags := other.flags
      blobData := other.blobData }
  aggregation := .copies
  Outputs := Unit
  outputs _ := ()
  withOutputs _ f := f
  buffer f := f.blobData.ptr

structure ReorganizeBlobFields where
  tagId : TagId
  blobName : Bytes
  newScore : F32
deriving DecidableEq, Repr

def reorganizeBlobTask : TaskType where
  Fields := ReorganizeBlobFields
  Args := TagId × Bytes × F32
  method := 17
  null := ⟨.null, [], F32.zero⟩
  emplace args := ⟨args.1, args.2.1, args.2.2⟩
  serializeIn _ sent own :=
    { own with tagId := sent.tagId, blobName := sent.blobName, newScore := sent.newScore }
  serializeOut _ _ own := own
  copy other own :=
    { own with tagId := other.tagId, blobName := other.blobName, newScore := other.newScore }
  aggregation := .copies
  Outputs := Unit
  outputs _ := ()
  withOutputs _ f := f

structure DelBlobFields where
  tagId : TagId
  blobName : Bytes
deriving DecidableEq, Repr

def delBlobTask : TaskType where
  Fields := DelBlobFields
  Args := TagId × Bytes
  method := 18
  null := ⟨.null, []⟩
  emplace args := ⟨args.1, args.2⟩
  serializeIn _ sent own := { own with tagId := sent.tagId, blobName := sent.blobName }
  serializeOut _ _ own := own
  copy other own := { own with tagId := other.tagId, blobName := other.blobName }
  aggregation := .copies
  Outputs := Unit
  outputs _ := ()
  withOutputs _ f := f

structure GetBlobScoreFields where
  tagId : TagId
  blobName : Bytes
  score : F32
deriving DecidableEq, Repr

def getBlobScoreTask : TaskType where
  Fields := GetBlobScoreFields
  Args := TagId × Bytes
  method := 22
  null := ⟨.null, [], F32.zero⟩
  emplace args := ⟨args.1, args.2, F32.zero⟩
  serializeIn _ sent own := { own with tagId := sent.tagId, blobName := sent.blobName }
  serializeOut _ sent own := { own with score := sent.score }
  copy other own :=
    { own with tagId := other.tagId, blobName := other.blobName, score := other.score }
  aggregation := .copies
  Outputs := F32
  outputs f := f.score
  withOutputs out f := { f with score := out }

structure GetBlobSizeFields where
  tagId : TagId
  blobName : Bytes
  size : UInt64
deriving DecidableEq, Repr

def getBlobSizeTask : TaskType where
  Fields := GetBlobSizeFields
  Args := TagId × Bytes
  method := 23
  null := ⟨.null, [], 0⟩
  emplace args := ⟨args.1, args.2, 0⟩
  serializeIn _ sent own := { own with tagId := sent.tagId, blobName := sent.blobName }
  serializeOut _ sent own := { own with size := sent.size }
  copy other own :=
    { own with tagId := other.tagId, blobName := other.blobName, size := other.size }
  aggregation := .copies
  Outputs := UInt64
  outputs f := f.size
  withOutputs out f := { f with size := out }

structure BlobBlockInfo where
  targetPoolId : PoolId
  blockSize : UInt64
  blockOffset : UInt64
deriving DecidableEq, Repr

structure GetBlobInfoFields where
  tagId : TagId
  blobName : Bytes
  score : F32
  totalSize : UInt64
  blocks : List BlobBlockInfo
deriving DecidableEq, Repr

/-- `blocks_` is an output that `SerializeOut` leaves out. -/
def getBlobInfoTask : TaskType where
  Fields := GetBlobInfoFields
  Args := TagId × Bytes
  method := 25
  null := ⟨.null, [], F32.zero, 0, []⟩
  emplace args := ⟨args.1, args.2, F32.zero, 0, []⟩
  serializeIn _ sent own := { own with tagId := sent.tagId, blobName := sent.blobName }
  serializeOut _ sent own := { own with score := sent.score, totalSize := sent.totalSize }
  copy other own :=
    { own with
      tagId := other.tagId
      blobName := other.blobName
      score := other.score
      totalSize := other.totalSize
      blocks := other.blocks }
  aggregation := .copies
  Outputs := F32 × UInt64 × List BlobBlockInfo
  outputs f := (f.score, f.totalSize, f.blocks)
  withOutputs out f := { f with score := out.1, totalSize := out.2.1, blocks := out.2.2 }

/-! ### Query tasks -/

structure TagQueryFields where
  tagRegex : Bytes
  maxTags : UInt32
  totalTagsMatched : UInt64
  results : List Bytes
deriving DecidableEq, Repr

/-- The loop that appends the replica's results up to `max_tags_`. -/
def TagQueryFields.append (own : TagQueryFields) : List Bytes → TagQueryFields
  | [] => own
  | tagName :: rest =>
    if own.maxTags ≠ 0 ∧ own.maxTags.toNat ≤ own.results.length then own
    else { own with results := own.results ++ [tagName] }.append rest

def tagQueryTask : TaskType where
  Fields := TagQueryFields
  Args := Bytes × UInt32
  method := 30
  null := ⟨[], 0, 0, []⟩
  emplace args := ⟨args.1, args.2, 0, []⟩
  serializeIn _ sent own := { own with tagRegex := sent.tagRegex, maxTags := sent.maxTags }
  serializeOut _ sent own :=
    { own with totalTagsMatched := sent.totalTagsMatched, results := sent.results }
  copy other own :=
    { own with
      tagRegex := other.tagRegex
      maxTags := other.maxTags
      totalTagsMatched := other.totalTagsMatched
      results := other.results }
  aggregation := .merges fun replica own =>
    { own with totalTagsMatched := own.totalTagsMatched + replica.totalTagsMatched }.append
      replica.results
  Outputs := UInt64 × List Bytes
  outputs f := (f.totalTagsMatched, f.results)
  withOutputs out f := { f with totalTagsMatched := out.1, results := out.2 }
  counts := [TagQueryFields.totalTagsMatched]
  names := [TagQueryFields.results]
  limit f := f.maxTags

structure BlobQueryFields where
  tagRegex : Bytes
  blobRegex : Bytes
  maxBlobs : UInt32
  totalBlobsMatched : UInt64
  tagNames : List Bytes
  blobNames : List Bytes
deriving DecidableEq, Repr

/-- The loop over `tag_names_`, which takes the blob name with the same index. -/
def BlobQueryFields.append (own : BlobQueryFields) : List Bytes → List Bytes → BlobQueryFields
  | tagName :: tagNames, blobName :: blobNames =>
    if own.maxBlobs ≠ 0 ∧ own.maxBlobs.toNat ≤ own.tagNames.length then own
    else
      { own with tagNames := own.tagNames ++ [tagName],
                 blobNames := own.blobNames ++ [blobName] }.append tagNames blobNames
  | _, _ => own

def blobQueryTask : TaskType where
  Fields := BlobQueryFields
  Args := Bytes × Bytes × UInt32
  method := 31
  null := ⟨[], [], 0, 0, [], []⟩
  emplace args := ⟨args.1, args.2.1, args.2.2, 0, [], []⟩
  serializeIn _ sent own :=
    { own with tagRegex := sent.tagRegex, blobRegex := sent.blobRegex, maxBlobs := sent.maxBlobs }
  serializeOut _ sent own :=
    { own with
      totalBlobsMatched := sent.totalBlobsMatched
      tagNames := sent.tagNames
      blobNames := sent.blobNames }
  copy other own :=
    { own with
      tagRegex := other.tagRegex
      blobRegex := other.blobRegex
      maxBlobs := other.maxBlobs
      totalBlobsMatched := other.totalBlobsMatched
      tagNames := other.tagNames
      blobNames := other.blobNames }
  aggregation := .merges fun replica own =>
    { own with totalBlobsMatched := own.totalBlobsMatched + replica.totalBlobsMatched }.append
      replica.tagNames replica.blobNames
  Outputs := UInt64 × List Bytes × List Bytes
  outputs f := (f.totalBlobsMatched, f.tagNames, f.blobNames)
  withOutputs out f :=
    { f with totalBlobsMatched := out.1, tagNames := out.2.1, blobNames := out.2.2 }
  counts := [BlobQueryFields.totalBlobsMatched]
  names := [BlobQueryFields.tagNames, BlobQueryFields.blobNames]
  limit f := f.maxBlobs
  paired f := f.tagNames.length = f.blobNames.length

/-! ### Telemetry and flush tasks -/

/-- Times are counts of the clock. -/
structure CteTelemetry where
  op : UInt32
  off : UInt64
  size : UInt64
  tagId : TagId
  blobHash : UInt64
  modTime : Int64
  readTime : Int64
  logicalTime : UInt64
deriving DecidableEq, Repr

/-- `CteTelemetry::serialize`, which sets every field. -/
def CteTelemetry.load (sent : CteTelemetry) : CteTelemetry :=
  { op := sent.op, off := sent.off, size := sent.size, tagId := sent.tagId,
    blobHash := sent.blobHash, modTime := sent.modTime, readTime := sent.readTime,
    logicalTime := sent.logicalTime }

structure PollTelemetryLogFields where
  minimumLogicalTime : UInt64
  lastLogicalTime : UInt64
  entries : List CteTelemetry
deriving DecidableEq, Repr

def pollTelemetryLogTask : TaskType where
  Fields := PollTelemetryLogFields
  Args := UInt64
  method := 21
  null := ⟨0, 0, []⟩
  emplace minimumLogicalTime := ⟨minimumLogicalTime, 0, []⟩
  serializeIn _ sent own := { own with minimumLogicalTime := sent.minimumLogicalTime }
  serializeOut _ sent own :=
    { own with
      lastLogicalTime := sent.lastLogicalTime
      entries := sent.entries.map CteTelemetry.load }
  copy other own :=
    { own with
      minimumLogicalTime := other.minimumLogicalTime
      lastLogicalTime := other.lastLogicalTime
      entries := other.entries }
  aggregation := .copies
  Outputs := UInt64 × List CteTelemetry
  outputs f := (f.lastLogicalTime, f.entries)
  withOutputs out f := { f with lastLogicalTime := out.1, entries := out.2 }

structure FlushMetadataFields where
  entriesFlushed : UInt64
deriving DecidableEq, Repr

def flushMetadataTask : TaskType where
  Fields := FlushMetadataFields
  Args := Unit
  method := 33
  null := ⟨0⟩
  emplace _ := ⟨0⟩
  serializeIn _ _ own := own
  serializeOut _ sent own := { own with entriesFlushed := sent.entriesFlushed }
  copy other own := { own with entriesFlushed := other.entriesFlushed }
  aggregation := .copies
  Outputs := UInt64
  outputs f := f.entriesFlushed
  withOutputs out f := { f with entriesFlushed := out }
  counts := [FlushMetadataFields.entriesFlushed]

structure FlushDataFields where
  targetPersistenceLevel : Int32
  bytesFlushed : UInt64
  blobsFlushed : UInt64
deriving DecidableEq, Repr

def flushDataTask : TaskType where
  Fields := FlushDataFields
  Args := Int32
  method := 34
  null := ⟨1, 0, 0⟩
  emplace targetPersistenceLevel := ⟨targetPersistenceLevel, 0, 0⟩
  serializeIn _ sent own := { own with targetPersistenceLevel := sent.targetPersistenceLevel }
  serializeOut _ sent own :=
    { own with bytesFlushed := sent.bytesFlushed, blobsFlushed := sent.blobsFlushed }
  copy other own :=
    { own with
      targetPersistenceLevel := other.targetPersistenceLevel
      bytesFlushed := other.bytesFlushed
      blobsFlushed := other.blobsFlushed }
  aggregation := .copies
  Outputs := UInt64 × UInt64
  outputs f := (f.bytesFlushed, f.blobsFlushed)
  withOutputs out f := { f with bytesFlushed := out.1, blobsFlushed := out.2 }
  counts := [FlushDataFields.bytesFlushed, FlushDataFields.blobsFlushed]

/-! ### Dispatch by method -/

inductive Method where
  | registerTarget | unregisterTarget | listTargets | statTargets | getTargetInfo
  | getOrCreateTag | putBlob | getBlob | reorganizeBlob | delBlob | delTag | getTagSize
  | pollTelemetryLog | getBlobScore | getBlobSize | getContainedBlobs | getBlobInfo
  | tagQuery | blobQuery | flushMetadata | flushData
deriving DecidableEq, Repr

/-- The casts of core_lib_exec.cc. -/
def Method.type : Method → TaskType
  | .registerTarget => registerTargetTask
  | .unregisterTarget => unregisterTargetTask
  | .listTargets => listTargetsTask
  | .statTargets => statTargetsTask
  | .getTargetInfo => getTargetInfoTask
  | .getOrCreateTag => getOrCreateTagTask
  | .putBlob => putBlobTask
  | .getBlob => getBlobTask
  | .reorganizeBlob => reorganizeBlobTask
  | .delBlob => delBlobTask
  | .delTag => delTagTask
  | .getTagSize => getTagSizeTask
  | .pollTelemetryLog => pollTelemetryLogTask
  | .getBlobScore => getBlobScoreTask
  | .getBlobSize => getBlobSizeTask
  | .getContainedBlobs => getContainedBlobsTask
  | .getBlobInfo => getBlobInfoTask
  | .tagQuery => tagQueryTask
  | .blobQuery => blobQueryTask
  | .flushMetadata => flushMetadataTask
  | .flushData => flushDataTask

namespace TaskType

variable (T : TaskType)

/-- The emplace constructor. -/
def create (taskId : TaskId) (poolId : PoolId) (poolQuery : PoolQuery) (args : T.Args) :
    Task T.Fields :=
  ⟨.emplace taskId poolId poolQuery T.method, T.emplace args⟩

/-- `Copy`. -/
def copyTask (other own : Task T.Fields) : Task T.Fields :=
  ⟨other.base.copy own.base, T.copy other.own own.own⟩

/-- `Aggregate`. -/
def aggregate (replica own : Task T.Fields) : Task T.Fields :=
  let own := { own with base := replica.base.aggregate own.base }
  match T.aggregation with
  | .copies => T.copyTask replica own
  | .merges merge => { own with own := merge replica.own own.own }

/-- `NewTask`. -/
def newTask : Task T.Fields := ⟨.null, T.null⟩

/-- The copy of a task that `SendIn` makes for replica `i` of it. -/
def copyFor (netKey : UInt64) (i : UInt32) (query : PoolQuery) (here : Cluster.NodeId)
    (origin : Task T.Fields) : Task T.Fields :=
  let copy := T.copyTask origin T.newTask
  { copy with base := { copy.base with
      taskId := { copy.base.taskId with netKey := netKey, replicaId := i }
      poolQuery := query.setReturnNode here } }

/-- What `RecvIn` makes of a request. -/
def received (place : UInt64) (sent : Task T.Fields) : Task T.Fields :=
  let base := sent.base.serializeIn Base.null
  ⟨{ base with taskFlags :=
      (base.taskFlags ||| (TASK_REMOTE ||| TASK_DATA_OWNER)) &&&
        ~~~(TASK_PERIODIC ||| TASK_FORCE_NET ||| TASK_ROUTED ||| TASK_RUN_CTX_EXISTS |||
          TASK_STARTED) },
    T.serializeIn place sent.own T.null⟩

/-- The answer `RecvOut` loads into a replica. -/
def loadOut (place : UInt64) (sent replica : Task T.Fields) : Task T.Fields :=
  ⟨sent.base.serializeOut replica.base, T.serializeOut place sent.own replica.own⟩

end TaskType

end IowarpCore.Cte.Wire
