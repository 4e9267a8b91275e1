/-
The blob operations of `core_runtime.cc`: `PutBlob`, `GetBlob`, `DelBlob`,
`ReorganizeBlob` and `FlushData` with the helpers they are made of.

A blob is a list of blocks on targets, and its bytes are those of the blocks one behind
the other.  A put frees the blocks of what it replaces, allocates what is missing at
the end and writes its data over the blocks it touches; each of these talks to block
devices and may be suspended there, which is why a put keeps a pointer to the blob and
reads the blob through it again after every wait.

Sub-tasks the runtime sends to itself run as part of the task that waits for them.
Exceptions are not modelled.
-/
import IowarpCore.Cte.Placement

namespace IowarpCore
namespace Cte

open Bdev (Request Reply Block overlay)

/-! ### Finding and creating blobs -/

def checkBlobExists (blobName : Bytes) (tagId : TagId) : TaskResume (Option BlobPtr) :=
  if blobName.isEmpty then return none
  else do
    let c ← TaskResume.readContainer
    let key := compositeKey tagId blobName
    return (c.blobs.find? key).map fun node => ⟨key, node.addr⟩

/-- `insert_or_assign` of a blob: an entry that is there keeps its address. -/
def Container.assignBlob (c : Container) (key : Bytes) (info : BlobInfo) : BlobPtr × Container :=
  match c.blobs.find? key with
  | some node => (⟨key, node.addr⟩, { c with blobs := c.blobs.insertOrAssign key ⟨node.addr, info⟩ })
  | none =>
    (⟨key, c.nextAddr⟩,
      { c with
        blobs := c.blobs.insertOrAssign key ⟨c.nextAddr, info⟩
        nextAddr := c.nextAddr + 1 })

def createNewBlob (blobName : Bytes) (tagId : TagId) (blobScore : F32) :
    TaskResume (Option BlobPtr) :=
  if blobName.isEmpty then return none
  else do
    let info : BlobInfo := { (default : BlobInfo) with blobName := blobName, score := blobScore }
    let c ← TaskResume.readContainer
    let (ptr, c') := c.assignBlob (compositeKey tagId blobName) info
    TaskResume.modifyContainer fun _ => c'
    logBlobTxn (.createNewBlob ⟨tagId.major, tagId.minor, blobName, blobScore⟩)
    return some ptr

/-! ### Freeing -/

/-- The blocks of one pool, with the query of the first of them. -/
abbrev PoolBlocks := AMap PoolId (PoolQuery × List Block)

/-- File a block under its pool.  The block type is always 0. -/
def groupBlock (groups : PoolBlocks) (b : BlobBlock) : PoolBlocks :=
  let (query, blocks) := (groups.find? b.bdevClient).getD (b.targetQuery, [])
  groups.insertOrAssign b.bdevClient (query, blocks ++ [⟨b.targetOffset, b.size, 0⟩])

def groupByPool (blocks : List BlobBlock) : PoolBlocks := blocks.foldl groupBlock AMap.empty

/-- One `FreeBlocks` request for each pool. -/
def freeLoop : List (PoolId × PoolQuery × List Block) → TaskResume Unit
  | [] => return ()
  | (pool, query, blocks) :: rest => do
      let bytesFreed := blocks.foldl (fun total b => total + b.size) 0
      let reply ← Co.call ⟨pool, query, .freeBlocks blocks⟩
      if reply.returnCode = 0 then
        TaskResume.modifyContainer fun c =>
          { c with targets := c.targets.addRemaining pool bytesFreed }
      freeLoop rest

/-- Free blocks of any pools, the pools in any order. -/
def freeByPool (blocks : List BlobBlock) : TaskResume Unit := do
  let groups ← Co.shuffle (groupByPool blocks).entries
  freeLoop groups

/-- `FreeAllBlobBlocks`; its error code is always 0. -/
def freeAllBlobBlocks (ptr : BlobPtr) : TaskResume UInt32 := do
  let info ← deref ptr
  freeByPool info.blocks
  updateBlob ptr fun info => { info with blocks := [] }
  return 0

/-- `ClearBlob`: whether the blob was cleared. -/
def clearBlob (ptr : BlobPtr) (blobScore : F32) (offset _size : UInt64) : TaskResume Bool :=
  if blobScore.lt F32.zero || F32.one.lt blobScore then return false
  else do
    let info ← deref ptr
    if offset ≠ 0 ∨ info.getTotalSize = 0 then return false
    else do
      let freeResult ← freeAllBlobBlocks ptr
      return freeResult == 0

/-! ### Allocating -/

/-- `AllocateFromTarget`: the offset of the first block of the reply.  The target is the
caller's copy, so what it subtracts from `remaining_space_` is lost with it. -/
def allocateFromTarget (target : TargetInfo) (size : UInt64) : TaskResume (Option UInt64) :=
  if target.remainingSpace < size then return none
  else do
    let reply ← Co.call ⟨target.bdevClient, target.targetQuery, .allocateBlocks size⟩
    return reply.blocks.head?.map Block.offset

/-- The loop of `ExtendBlob` over the selected targets: what is left to allocate. -/
def allocateLoop (ptr : BlobPtr) : List TargetInfo → UInt64 → TaskResume UInt64
  | [], remaining => return remaining
  | selected :: rest, remaining =>
    if remaining = 0 then return remaining
    else do
      let c ← TaskResume.readContainer
      match c.targets.find? selected.bdevClient with
      | none => allocateLoop ptr rest remaining
      | some target =>
        let allocateSize := min remaining target.remainingSpace
        if allocateSize = 0 then allocateLoop ptr rest remaining
        else do
          match ← allocateFromTarget target allocateSize with
          | none => allocateLoop ptr rest remaining
          | some allocatedOffset => do
              updateBlob ptr fun info =>
                { info with
                  blocks := info.blocks ++
                    [⟨target.bdevClient, target.targetQuery, allocatedOffset, allocateSize⟩] }
              allocateLoop ptr rest (remaining - allocateSize)

/-- `ExtendBlob`: its error code. -/
def extendBlob (cfg : Config) (ptr : BlobPtr) (offset size : UInt64) (blobScore : F32)
    (minPersistenceLevel : Int) : TaskResume UInt32 := do
  let info ← deref ptr
  let currentBlobSize := info.getTotalSize
  let requiredSize := offset + size
  if requiredSize ≤ currentBlobSize then return 0
  else do
    let additionalSize := requiredSize - currentBlobSize
    let c ← TaskResume.readContainer
    let availableTargets ← Co.shuffle c.targets.infos
    if availableTargets.isEmpty then return 1
    else do
      let selected ← selectTargets cfg availableTargets blobScore additionalSize
      let orderedTargets :=
        if minPersistenceLevel > 0 then
          selected.filter fun t => !(t.persistenceLevel.toInt < minPersistenceLevel)
        else selected
      if orderedTargets.isEmpty then return 2
      else do
        let remaining ← allocateLoop ptr orderedTargets additionalSize
        if remaining > 0 then return 3 else return 0

/-! ### Reading and writing the bytes of a blob -/

/-- The part of a transfer that falls into one block. -/
structure Piece where
  block : BlobBlock
  startInBlock : UInt64
  size : UInt64
  bufferOffset : UInt64
  deriving DecidableEq, Repr

/-- The loop that `ModifyExistingData` and `ReadData` share. -/
def ioPlan (dataSize dataOffset : UInt64) : List BlobBlock → UInt64 → UInt64 → List Piece
  | [], _, _ => []
  | b :: bs, remaining, blockOffset =>
    if remaining = 0 then []
    else
      let blockEnd := blockOffset + b.size
      let dataEnd := dataOffset + dataSize
      if dataOffset < blockEnd ∧ dataEnd > blockOffset then
        let start := max dataOffset blockOffset
        let size := min dataEnd blockEnd - start
        ⟨b, start - blockOffset, size, start - dataOffset⟩ ::
          ioPlan dataSize dataOffset bs (remaining - size) blockEnd
      else ioPlan dataSize dataOffset bs remaining blockEnd

namespace Piece

def devBlock (p : Piece) : Block := ⟨p.block.targetOffset + p.startInBlock, p.size, 0⟩

def writeRequest (data : Nat → UInt8) (p : Piece) : Request :=
  ⟨p.block.bdevClient, p.block.targetQuery,
    .write p.devBlock (fun i => data (p.bufferOffset.toNat + i)) p.size⟩

def readRequest (p : Piece) : Request :=
  ⟨p.block.bdevClient, p.block.targetQuery, .read p.devBlock p.size⟩

end Piece

/-- The reply reports as many bytes as were asked for. -/
def fullTransfer (q : Request) (r : Reply) : Bool :=
  match q.op with
  | .write _ _ length => r.bytes == length
  | .read _ length => r.bytes == length
  | _ => true

/-- The error code of a batch: 1 if a reply came up short. -/
def transferError (qs : List Request) (rs : List Reply) : UInt32 :=
  if (qs.zip rs).all fun x => fullTransfer x.1 x.2 then 0 else 1

/-- `ModifyExistingData`: its error code. -/
def modifyExistingData (blocks : List BlobBlock) (data : Nat → UInt8) (dataSize dataOffset : UInt64) :
    TaskResume UInt32 := do
  let writes := (ioPlan dataSize dataOffset blocks dataSize 0).map (Piece.writeRequest data)
  let replies ← Co.callAll fullTransfer writes
  return transferError writes replies

/-- The buffer after the replies to the pieces have been copied into it. -/
def fillBuffer (buffer : Nat → UInt8) : List (Piece × Reply) → Nat → UInt8
  | [] => buffer
  | (p, r) :: rest => fillBuffer (overlay buffer p.bufferOffset.toNat r.landed.toNat r.data) rest

/-- `ReadData`: its error code and what the buffer then holds. -/
def readData (blocks : List BlobBlock) (buffer : Nat → UInt8) (dataSize dataOffset : UInt64) :
    TaskResume (UInt32 × (Nat → UInt8)) := do
  let pieces := ioPlan dataSize dataOffset blocks dataSize 0
  let reads := pieces.map Piece.readRequest
  let replies ← Co.callAll fullTransfer reads
  return (transferError reads replies, fillBuffer buffer (pieces.zip replies))

/-! ### The tag a blob belongs to -/

namespace Container

def tagTotal? (c : Container) (tagId : TagId) : Option UInt64 :=
  (c.tagIdToInfo.find? tagId).map TagInfo.totalSize

def setTagTotal (c : Container) (tagId : TagId) (total : UInt64) : Container :=
  { c with tagIdToInfo := c.tagIdToInfo.mapVal fun id info =>
      if id = tagId then { info with totalSize := total } else info }

/-- The size change of a put, as a signed difference, added to or taken off the total. -/
def changeTagTotal (c : Container) (tagId : TagId) (newSize oldSize : UInt64) : Container :=
  match c.tagTotal? tagId with
  | none => c
  | some total =>
    let change := newSize - oldSize
    if change < 0x8000000000000000 then c.setTagTotal tagId (total + change)
    else
      let absChange := 0 - change
      { c.setTagTotal tagId (total - absChange) with
        wrapped := c.wrapped || total < absChange }

/-- What `DelBlob` does to the total. -/
def dropFromTagTotal (c : Container) (tagId : TagId) (blobSize : UInt64) : Container :=
  match c.tagTotal? tagId with
  | none => c
  | some total => c.setTagTotal tagId (if blobSize ≤ total then total - blobSize else 0)

end Container

/-! ### PutBlob -/

structure PutBlobTask where
  tagId : TagId
  blobName : Bytes
  offset : UInt64
  size : UInt64
  blobData : Option (Nat → UInt8)
  score : F32
  context : Context

/-- A negative score means the blob's own, or 1 for a new blob. -/
def resolveScore (score : F32) (found : Option BlobPtr) : TaskResume F32 :=
  if score.lt F32.zero then
    match found with
    | some ptr => do return (← deref ptr).score
    | none => return F32.one
  else return score

/-- Step 1 of a put on a blob that exists: the size that counts as its old size. -/
def putClear (t : PutBlobTask) (blobScore : F32) (ptr : BlobPtr) : TaskResume UInt64 := do
  let cleared ← clearBlob ptr blobScore t.offset t.size
  if cleared then do
    logBlobTxn (.clearBlob ⟨t.tagId.major, t.tagId.minor, t.blobName⟩)
    return 0
  else return (← deref ptr).getTotalSize

def blockTxn (b : BlobBlock) : Wal.TxnExtendBlobBlock :=
  ⟨b.bdevClient.major, b.bdevClient.minor, b.targetQuery, b.targetOffset, b.size⟩

/-- The record of all current blocks. -/
def logBlocks (t : PutBlobTask) (ptr : BlobPtr) : TaskResume Unit := do
  let info ← deref ptr
  if info.blocks.isEmpty then return ()
  else logBlobTxn (.extendBlob ⟨t.tagId.major, t.tagId.minor, t.blobName, info.blocks.map blockTxn⟩)

/-- The metadata a put leaves when its data is written. -/
def putFinish (t : PutBlobTask) (blobScore : F32) (ptr : BlobPtr) (oldBlobSize : UInt64) :
    TaskResume Unit := do
  updateBlob ptr fun info =>
    { info with
      compressLib := t.context.compressLib
      compressPreset := t.context.compressPreset
      traceKey := t.context.traceKey
      score := blobScore }
  let info ← deref ptr
  TaskResume.modifyContainer (·.changeTagTotal t.tagId info.getTotalSize oldBlobSize)

/-- Steps 2 and 3 of a put: extend the blob and write the data. -/
def putStore (cfg : Config) (t : PutBlobTask) (data : Nat → UInt8) (blobScore : F32)
    (ptr : BlobPtr) (oldBlobSize : UInt64) : TaskResume UInt32 := do
  let allocResult ← extendBlob cfg ptr t.offset t.size blobScore t.context.minPersistenceLevel
  if allocResult ≠ 0 then return 10 + allocResult
  else do
    logBlocks t ptr
    let info ← deref ptr
    let writeResult ← modifyExistingData info.blocks data t.size t.offset
    if writeResult ≠ 0 then return 20 + writeResult
    else do
      putFinish t blobScore ptr oldBlobSize
      return 0

/-- `PutBlob`: its return code. -/
def putBlob (cfg : Config) (t : PutBlobTask) : TaskResume UInt32 :=
  if t.size = 0 then return 2
  else
    match t.blobData with
    | none => return 3
    | some data =>
      if t.blobName.isEmpty then return 4
      else do
        let found ← checkBlobExists t.blobName t.tagId
        let blobScore ← resolveScore t.score found
        if F32.one.lt blobScore then return 5
        else
          match found with
          | some ptr => do
              let oldBlobSize ← putClear t blobScore ptr
              putStore cfg t data blobScore ptr oldBlobSize
          | none => do
              match ← createNewBlob t.blobName t.tagId blobScore with
              | none => return 5
              | some ptr => putStore cfg t data blobScore ptr 0

/-! ### GetBlob and DelBlob -/

structure GetBlobTask where
  tagId : TagId
  blobName : Bytes
  offset : UInt64
  size : UInt64
  blobData : Nat → UInt8

/-- `GetBlob`: its return code and the buffer. -/
def getBlob (t : GetBlobTask) : TaskResume (UInt32 × (Nat → UInt8)) :=
  if t.size = 0 then return (1, t.blobData)
  else if t.blobName.isEmpty then return (1, t.blobData)
  else do
    match ← checkBlobExists t.blobName t.tagId with
    | none => return (1, t.blobData)
    | some ptr => do
        let info ← deref ptr
        readData info.blocks t.blobData t.size t.offset

/-- `DelBlob`: its return code. -/
def delBlob (tagId : TagId) (blobName : Bytes) : TaskResume UInt32 :=
  if blobName.isEmpty then return 1
  else do
    match ← checkBlobExists blobName tagId with
    | none => return 1
    | some ptr => do
        let info ← deref ptr
        let blobSize := info.getTotalSize
        let _ ← freeAllBlobBlocks ptr
        TaskResume.modifyContainer (·.dropFromTagTotal tagId blobSize)
        TaskResume.modifyContainer fun c => { c with blobs := c.blobs.erase (compositeKey tagId blobName) }
        logBlobTxn (.delBlob ⟨tagId.major, tagId.minor, blobName⟩)
        return 0

/-! ### ReorganizeBlob -/

structure ReorganizeBlobTask where
  tagId : TagId
  blobName : Bytes
  newScore : F32

/-- `ReorganizeBlob`: its return code. -/
def reorganizeBlob (cfg : Config) (t : ReorganizeBlobTask) : TaskResume UInt32 :=
  if t.blobName.isEmpty then return 1
  else if t.newScore.lt F32.zero || F32.one.lt t.newScore then return 1
  else do
    match ← checkBlobExists t.blobName t.tagId with
    | none => return 3
    | some ptr => do
        let info ← deref ptr
        if (t.newScore.sub info.score).abs.lt cfg.scoreDifferenceThreshold then return 0
        else
          let blobSize := info.getTotalSize
          if blobSize = 0 then return 0
          else if !cfg.bufferAvailable blobSize then return 5
          else do
            let (getResult, buffer) ←
              getBlob ⟨t.tagId, t.blobName, 0, blobSize, cfg.freshBuffer⟩
            if getResult ≠ 0 then return 6
            else do
              let putResult ←
                putBlob cfg ⟨t.tagId, t.blobName, 0, blobSize, some buffer, t.newScore, default⟩
              if putResult ≠ 0 then return 7 else return 0

/-! ### FlushData -/

structure FlushEntry where
  compositeKey : Bytes
  blobName : Bytes
  tagId : TagId
  totalSize : UInt64
  score : F32
  deriving DecidableEq, Repr

namespace Container

/-- The block lies on a registered target below the persistence level. -/
def isBelow (c : Container) (level : Int) (b : BlobBlock) : Bool :=
  match c.targets.find? b.bdevClient with
  | some target => target.persistenceLevel.toInt < level
  | none => false

/-- The blobs with a block below the level. -/
def blobsToFlush (c : Container) (level : Int) (entries : List (Bytes × BlobNode)) :
    List FlushEntry :=
  (entries.filter fun e => e.2.info.blocks.any (c.isBelow level)).map fun e =>
    ⟨e.1, e.2.info.blobName, parseTagId e.1, e.2.info.getTotalSize, e.2.info.score⟩

end Container

/-- One blob of `FlushData`: read it, free the blocks below the level, put it again. -/
def flushOne (cfg : Config) (level : Int) (entry : FlushEntry) : TaskResume Bool := do
  let c ← TaskResume.readContainer
  match c.blobs.find? entry.compositeKey with
  | none => return false
  | some node =>
    if node.info.blocks.isEmpty then return false
    else if entry.totalSize = 0 then return false
    else if !cfg.bufferAvailable entry.totalSize then return false
    else do
      let (readError, buffer) ←
        readData node.info.blocks cfg.freshBuffer entry.totalSize 0
      if readError ≠ 0 then return false
      else do
        let ptr : BlobPtr := ⟨entry.compositeKey, node.addr⟩
        let info ← deref ptr
        let c ← TaskResume.readContainer
        let nonvolatileBlocks := info.blocks.filter fun b => !c.isBelow level b
        freeByPool (info.blocks.filter (c.isBelow level))
        updateBlob ptr fun info => { info with blocks := nonvolatileBlocks }
        let putResult ← putBlob cfg
          ⟨entry.tagId, entry.blobName, 0, entry.totalSize, some buffer, entry.score,
            { (default : Context) with minPersistenceLevel := level }⟩
        return putResult == 0

/-- The loop of `FlushData`: the blobs and bytes flushed. -/
def flushLoop (cfg : Config) (level : Int) : List FlushEntry → UInt64 × UInt64 →
    TaskResume (UInt64 × UInt64)
  | [], counts => return counts
  | entry :: rest, (blobs, bytes) => do
      let flushed ← flushOne cfg level entry
      if flushed then flushLoop cfg level rest (blobs + 1, bytes + entry.totalSize)
      else flushLoop cfg level rest (blobs, bytes)

/-- `FlushData`: the blobs and bytes flushed.  Its return code is always 0. -/
def flushData (cfg : Config) (level : Int) : TaskResume (UInt64 × UInt64) := do
  let c ← TaskResume.readContainer
  if c.targets.infos.any fun t => t.persistenceLevel.toInt ≥ level then do
    let entries ← Co.shuffle c.blobs.entries
    flushLoop cfg level (c.blobsToFlush level entries) (0, 0)
  else return (0, 0)

end Cte
end IowarpCore
