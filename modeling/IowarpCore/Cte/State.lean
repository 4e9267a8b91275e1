/-
What the container of the transfer engine holds: `core_tasks.h` and the members of
`core_runtime.h`.

Blobs live in one map under the key `major.minor.name`.  The runtime works on them
through pointers into that map, which stay good while their entry is there and dangle
once it is erased, even when an entry of the same key is inserted again.  So an entry
carries an address of its own and a pointer is a key with an address.

The logs are the records written since the last truncation.  Which of the logs a record
goes to is up to the worker that runs the task at that moment.

Four fields are not in the source.  `dangling` is raised when a pointer is used whose
entry is gone, `wrapped` when a subtraction from a tag's total goes below zero, `raced`
when `DelTag` finds its tag changed after it waited for the deletes of its blobs, and
`ordered` falls when a record is logged although a log with a higher number already
holds one about the same blob or tag.  Timestamps, telemetry and the counters of bytes
and operations on a target are left out: no function modelled here reads them.
-/
import IowarpCore.Lib.Coroutine
import IowarpCore.Bdev.Device
import IowarpCore.Wal.TransactionLog

namespace IowarpCore
namespace Cte

open Bdev (Request Reply)

/-- `bdev::PersistenceLevel`. -/
inductive PersistenceLevel where
  | volatile | temporaryNonVolatile | longTerm
  deriving DecidableEq, Repr, Inhabited

def PersistenceLevel.toInt : PersistenceLevel → Int
  | volatile => 0
  | temporaryNonVolatile => 1
  | longTerm => 2

/-- The part of `bdev::PerfMetrics` that placement looks at. -/
structure PerfMetrics where
  writeBandwidthMbps : F64
  readLatencyUs : F64
  writeLatencyUs : F64
  deriving DecidableEq, Repr, Inhabited

structure TargetInfo where
  bdevClient : PoolId
  targetQuery : PoolQuery
  targetScore : F32
  remainingSpace : UInt64
  perfMetrics : PerfMetrics
  persistenceLevel : PersistenceLevel
  deriving DecidableEq, Repr, Inhabited

structure BlobBlock where
  bdevClient : PoolId
  targetQuery : PoolQuery
  targetOffset : UInt64
  size : UInt64
  deriving DecidableEq, Repr, Inhabited

structure BlobInfo where
  blobName : Bytes
  blocks : List BlobBlock
  score : F32
  compressLib : Int32
  compressPreset : Int32
  traceKey : UInt64
  deriving DecidableEq, Repr

/-- The default constructor. -/
instance : Inhabited BlobInfo := ⟨⟨[], [], F32.zero, 0, 2, 0⟩⟩

/-- The sum of the block sizes, in 64 bits. -/
def totalSizeOf (blocks : List BlobBlock) : UInt64 :=
  blocks.foldl (fun total b => total + b.size) 0

def BlobInfo.getTotalSize (b : BlobInfo) : UInt64 := totalSizeOf b.blocks

structure TagInfo where
  tagName : Bytes
  tagId : TagId
  totalSize : UInt64
  deriving DecidableEq, Repr, Inhabited

/-- The fields of `Context` that a put looks at. -/
structure Context where
  compressLib : Int32
  compressPreset : Int32
  traceKey : UInt64
  minPersistenceLevel : Int
  deriving DecidableEq, Repr

/-- The default constructor. -/
instance : Inhabited Context := ⟨⟨0, 2, 0, 0⟩⟩

/-! ### Keys -/

/-- The decimal digits of `n`, put in front of `acc`. -/
def decimalFuel : Nat → Nat → Bytes → Bytes
  | 0, _, acc => acc
  | fuel + 1, n, acc =>
    let acc := UInt8.ofNat (48 + n % 10) :: acc
    if n / 10 = 0 then acc else decimalFuel fuel (n / 10) acc

/-- `std::to_string` of a 32-bit number, which has at most ten digits. -/
def toDecimal (n : UInt32) : Bytes := decimalFuel 10 n.toNat []

def dot : UInt8 := 46

/-- What every key of a blob of the tag starts with. -/
def tagPrefix (t : TagId) : Bytes := toDecimal t.major ++ [dot] ++ toDecimal t.minor ++ [dot]

def compositeKey (t : TagId) (blobName : Bytes) : Bytes := tagPrefix t ++ blobName

/-- `key.compare(0, prefix.length(), prefix) == 0`. -/
def hasTagPrefix (t : TagId) (key : Bytes) : Bool := (tagPrefix t).isPrefixOf key

/-- The number a run of digits spells. -/
def decValue (bs : Bytes) : Nat := bs.foldl (fun v d => v * 10 + (d.toNat - 48)) 0

/-- The tag id `FlushData` reads off the front of a key. -/
def parseTagId (key : Bytes) : TagId :=
  let major := key.takeWhile (· ≠ dot)
  let rest := key.dropWhile (· ≠ dot)
  match rest with
  | [] => UniqueId.null
  | _ :: rest =>
    if dot ∈ rest then
      ⟨UInt32.ofNat (decValue major), UInt32.ofNat (decValue (rest.takeWhile (· ≠ dot)))⟩
    else UniqueId.null

/-! ### The container -/

/-- `registered_targets_`.  `RegisterTarget` stores a target under the id of its device. -/
structure Targets where
  map : AMap PoolId TargetInfo
  keyed : ∀ e ∈ map.entries, e.2.bdevClient = e.1

namespace Targets

def infos (t : Targets) : List TargetInfo := t.map.entries.map Prod.snd

def find? (t : Targets) (p : PoolId) : Option TargetInfo := t.map.find? p

/-- `target_info->remaining_space_ += bytes`, if the target is registered. -/
def addRemaining (t : Targets) (p : PoolId) (bytes : UInt64) : Targets where
  map := t.map.mapVal fun k info =>
    if k = p then { info with remainingSpace := info.remainingSpace + bytes } else info
  keyed := by
    intro e he
    obtain ⟨k, info⟩ := e
    obtain ⟨info₀, hmem, hinfo⟩ := AMap.mem_mapVal.mp he
    have hkey := t.keyed _ hmem
    show info.bdevClient = k
    rw [← hinfo]
    by_cases hk : k = p
    · simpa [hk] using hkey
    · simpa [hk] using hkey

end Targets

/-- An entry of the blob map, at the address it was inserted at. -/
structure BlobNode where
  addr : Nat
  info : BlobInfo
  deriving DecidableEq, Repr, Inhabited

/-- A `BlobInfo*`. -/
structure BlobPtr where
  key : Bytes
  addr : Nat
  deriving DecidableEq, Repr, Inhabited

structure Container where
  targets : Targets
  tagNameToId : AMap Bytes TagId
  tagIdToInfo : AMap TagId TagInfo
  blobs : AMap Bytes BlobNode
  nextAddr : Nat
  nextTagIdMinor : UInt32
  blobTxnLogs : List (List Wal.Txn)
  tagTxnLogs : List (List Wal.Txn)
  roundRobinCounter : UInt32
  dangling : Bool
  wrapped : Bool
  raced : Bool
  ordered : Bool

/-- A container as `Create` leaves it, with so many workers that log. -/
def Container.create (targets : Targets) (numLogs : Nat) : Container where
  targets := targets
  tagNameToId := AMap.empty
  tagIdToInfo := AMap.empty
  blobs := AMap.empty
  nextAddr := 0
  nextTagIdMinor := 1
  blobTxnLogs := List.replicate numLogs []
  tagTxnLogs := List.replicate numLogs []
  roundRobinCounter := 0
  dangling := false
  wrapped := false
  raced := false
  ordered := true

inductive DpeType where
  | random | roundRobin | maxBw
  deriving DecidableEq, Repr, Inhabited

/-- The configuration, the node, and what the shared-memory allocator does: whether it has
a buffer of a size and what a fresh buffer holds. -/
structure Config where
  dpeType : DpeType
  scoreDifferenceThreshold : F32
  nodeId : UInt32
  bufferAvailable : UInt64 → Bool
  freshBuffer : Nat → UInt8

/-- A task of the engine: it works on the container and sends requests to block devices. -/
abbrev TaskResume := Co Container Request Reply

namespace TaskResume

def readContainer : TaskResume Container := Co.read

def modifyContainer (f : Container → Container) : TaskResume Unit := Co.modify f

end TaskResume

namespace Container

/-- The entry a pointer points to. -/
def deref? (c : Container) (p : BlobPtr) : Option BlobInfo :=
  match c.blobs.find? p.key with
  | some node => if node.addr = p.addr then some node.info else none
  | none => none

/-- Write through a pointer. -/
def updateBlob (c : Container) (p : BlobPtr) (f : BlobInfo → BlobInfo) : Container :=
  match c.deref? p with
  | some info => { c with blobs := c.blobs.insertOrAssign p.key ⟨p.addr, f info⟩ }
  | none => { c with dangling := true }

/-- Append to one of several logs, if there are any. -/
def appendLog (logs : List (List Wal.Txn)) (worker : Nat) (t : Wal.Txn) : List (List Wal.Txn) :=
  logs.modify (worker % logs.length) (· ++ [t])

/-- No log behind the one the record goes to holds a record that conflicts with it. -/
def appendsInOrder (logs : List (List Wal.Txn)) (worker : Nat) (t : Wal.Txn) : Bool :=
  (logs.drop (worker % logs.length + 1)).all fun log => !log.any t.conflicts

end Container

/-- Read through a pointer. -/
def deref (p : BlobPtr) : TaskResume BlobInfo := do
  let c ← TaskResume.readContainer
  match c.deref? p with
  | some info => return info
  | none =>
    TaskResume.modifyContainer fun c => { c with dangling := true }
    return default

def updateBlob (p : BlobPtr) (f : BlobInfo → BlobInfo) : TaskResume Unit :=
  TaskResume.modifyContainer (·.updateBlob p f)

/-- Log to the blob log of the worker that happens to run the task. -/
def logBlobTxn (t : Wal.Txn) : TaskResume Unit := do
  let worker ← Co.draw
  TaskResume.modifyContainer fun c =>
    { c with
      blobTxnLogs := Container.appendLog c.blobTxnLogs worker t
      ordered := c.ordered && Container.appendsInOrder c.blobTxnLogs worker t }

/-- Log to the tag log of the worker that happens to run the task. -/
def logTagTxn (t : Wal.Txn) : TaskResume Unit := do
  let worker ← Co.draw
  TaskResume.modifyContainer fun c =>
    { c with
      tagTxnLogs := Container.appendLog c.tagTxnLogs worker t
      ordered := c.ordered && Container.appendsInOrder c.tagTxnLogs worker t }

end Cte
end IowarpCore
