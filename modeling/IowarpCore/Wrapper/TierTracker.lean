/-
The tracker of block movements in the Rust wrapper: tier_tracker.rs, `poll_movements`,
`populate_tag` and `detect_movements`.

What the tracker asks of the CTE is a client: the telemetry from a logical time on, the
names in a tag, and the blocks of a blob.  Hash sets are lists without duplicates, and the
order in which one is drained is a parameter.  An `Instant` is a number.  Names of tiers and
the times at which names were seen are not modelled: nothing reads them.
-/
import IowarpCore.Cte.TaskTypes

namespace IowarpCore
namespace TierTracker

open Cte.Wire (CteTelemetry)

/-! ### Data -/

inductive CteOp where
  | putBlob | getBlob | delBlob | getOrCreateTag | delTag | getTagSize | reorganizeBlob
deriving DecidableEq, Repr

/-- `CteOp::from`. -/
def CteOp.ofU32 (value : UInt32) : CteOp :=
  if value = 0 then .putBlob
  else if value = 1 then .getBlob
  else if value = 2 then .delBlob
  else if value = 3 then .getOrCreateTag
  else if value = 4 then .delTag
  else if value = 5 then .getTagSize
  else if value = 6 then .reorganizeBlob
  else .putBlob

structure BlobKey where
  tagMajor : UInt32
  tagMinor : UInt32
  blobHash : UInt64
deriving DecidableEq, Repr

def BlobKey.new (tagId : TagId) (blobHash : UInt64) : BlobKey :=
  ⟨tagId.major, tagId.minor, blobHash⟩

def BlobKey.tagId (key : BlobKey) : TagId := ⟨key.tagMajor, key.tagMinor⟩

structure BlobBlockInfo where
  poolId : UInt64
  blockSize : UInt64
  blockOffset : UInt64
deriving DecidableEq, Repr

structure BlobInfo where
  score : F32
  totalSize : UInt64
  blocks : List BlobBlockInfo
deriving DecidableEq, Repr

structure CachedBlobState where
  info : BlobInfo
  lastCheck : Nat
deriving DecidableEq, Repr

/-- A block that changed its pool, or is new. -/
structure TierMovementEvent where
  blobKey : BlobKey
  blockIndex : Nat
  fromPool : Option UInt64
  toPool : UInt64
  blockSize : UInt64
  timestamp : Nat
  logicalTime : UInt64
deriving DecidableEq, Repr

/-- What the tracker asks of the CTE. -/
structure Client where
  /-- The entries from a logical time on; none on an error. -/
  pollTelemetry : UInt64 → Option (List CteTelemetry)
  /-- The names in a tag; none if the call panics. -/
  getContainedBlobs : TagId → Option (List Bytes)
  /-- The info of a blob; none on an error. -/
  getBlobInfo : TagId → Bytes → Option BlobInfo

/-- The order in which a hash set is drained. -/
structure DrainOrder where
  order : List BlobKey → List BlobKey
  perm : ∀ l, (order l).Perm l

structure TierMovementTracker where
  hashRegistry : AMap (TagId × UInt64) Bytes
  populatedTags : List TagId
  blobCache : AMap BlobKey CachedBlobState
  dirtyHashes : List BlobKey
  pollInterval : Nat
  lastTelemetryTime : UInt64

/-! ### Names -/

/-- `compute_hash`, FNV-1a over the tag id and the name. -/
def computeHash (tagId : TagId) (blobName : Bytes) : UInt64 :=
  (leBytes 4 tagId.major.toNat ++ leBytes 4 tagId.minor.toNat ++ blobName).foldl
    (fun hash byte => (hash ^^^ byte.toUInt64) * 0x100000001b3) 0xcbf29ce484222325

namespace TierMovementTracker

/-- A tracker with a poll interval. -/
def new (pollInterval : Nat) : TierMovementTracker :=
  ⟨AMap.empty, [], AMap.empty, [], pollInterval, 0⟩

/-- `populate_tag`. -/
def populateTag (client : Client) (tagId : TagId) (t : TierMovementTracker) :
    TierMovementTracker :=
  if tagId ∈ t.populatedTags then t
  else
    { t with
      hashRegistry := ((client.getContainedBlobs tagId).getD []).foldl
        (fun registry name => registry.insertOrAssign (tagId, computeHash tagId name) name)
        t.hashRegistry
      populatedTags := tagId :: t.populatedTags }

/-- `populated_tags.remove`. -/
def forgetTag (tagId : TagId) (t : TierMovementTracker) : TierMovementTracker :=
  { t with populatedTags := t.populatedTags.filter (· ≠ tagId) }

/-- `resolve_hash`. -/
def resolveHash (tagId : TagId) (blobHash : UInt64) (t : TierMovementTracker) : Option Bytes :=
  t.hashRegistry.find? (tagId, blobHash)

/-- The name of a blob, and the tracker that has looked for it; the tag is populated again if
the registry does not have it. -/
def resolve (client : Client) (key : BlobKey) (t : TierMovementTracker) :
    Option Bytes × TierMovementTracker :=
  match t.resolveHash key.tagId key.blobHash with
  | some name => (some name, t)
  | none =>
    let t := (t.forgetTag key.tagId).populateTag client key.tagId
    (t.resolveHash key.tagId key.blobHash, t)

/-! ### Movements -/

/-- The event for a block of the new placement, if there is one: the old block is found by
size and offset. -/
def detectMovement (blobKey : BlobKey) (old : List BlobBlockInfo) (timestamp : Nat) (i : Nat)
    (newBlock : BlobBlockInfo) : Option TierMovementEvent :=
  match old.find? fun b =>
      b.blockSize = newBlock.blockSize ∧ b.blockOffset = newBlock.blockOffset with
  | some oldBlock =>
    if oldBlock.poolId ≠ newBlock.poolId then
      some ⟨blobKey, i, some oldBlock.poolId, newBlock.poolId, newBlock.blockSize, timestamp, 0⟩
    else none
  | none => some ⟨blobKey, i, none, newBlock.poolId, newBlock.blockSize, timestamp, 0⟩

/-- `detect_movements`. -/
def detectMovements (blobKey : BlobKey) (oldInfo newInfo : BlobInfo) (timestamp : Nat) :
    List TierMovementEvent :=
  newInfo.blocks.zipIdx.filterMap fun block =>
    detectMovement blobKey oldInfo.blocks timestamp block.2 block.1

/-! ### Polling -/

/-- Logical time tracking. -/
def advance (entry : CteTelemetry) (t : TierMovementTracker) : TierMovementTracker :=
  if t.lastTelemetryTime < entry.logicalTime then
    { t with lastTelemetryTime := entry.logicalTime }
  else t

/-- A reorganized blob becomes dirty. -/
def markDirty (client : Client) (entry : CteTelemetry) (t : TierMovementTracker) :
    TierMovementTracker :=
  if CteOp.ofU32 entry.op = .reorganizeBlob ∧ entry.blobHash ≠ 0 then
    let t := t.populateTag client entry.tagId
    { t with dirtyHashes := t.dirtyHashes.insert (.new entry.tagId entry.blobHash) }
  else t

/-- A put makes the names of its tag be asked for again. -/
def refreshTag (entry : CteTelemetry) (t : TierMovementTracker) : TierMovementTracker :=
  if CteOp.ofU32 entry.op = .putBlob ∧ entry.blobHash ≠ 0 then t.forgetTag entry.tagId else t

/-- What an entry of the telemetry does. -/
def see (client : Client) (t : TierMovementTracker) (entry : CteTelemetry) :
    TierMovementTracker :=
  ((t.advance entry).markDirty client entry).refreshTag entry

/-- The blob was checked less than the interval before. -/
def debounced (t : TierMovementTracker) (now : Nat) (key : BlobKey) : Bool :=
  match t.blobCache.find? key with
  | some cached => decide (now - cached.lastCheck < t.pollInterval)
  | none => false

/-- A dirty blob's check: its events, and the tracker that knows where it is now. -/
def check (client : Client) (now : Nat) (t : TierMovementTracker) (key : BlobKey) :
    List TierMovementEvent × TierMovementTracker :=
  if t.debounced now key then ([], t)
  else
    let resolved := t.resolve client key
    let t := resolved.2
    match resolved.1 with
    | none => ([], t)
    | some blobName =>
      match client.getBlobInfo key.tagId blobName with
      | none => ([], { t with blobCache := t.blobCache.erase key })
      | some blobInfo =>
        let events :=
          match t.blobCache.find? key with
          | some cached => detectMovements key cached.info blobInfo now
          | none => []
        (events, { t with blobCache := t.blobCache.insertOrAssign key ⟨blobInfo, now⟩ })

/-- The checks of some dirty blobs, one after another. -/
def checkAll (client : Client) (now : Nat) (t : TierMovementTracker) :
    List BlobKey → List TierMovementEvent × TierMovementTracker
  | [] => ([], t)
  | key :: rest =>
    let checked := t.check client now key
    let others := checked.2.checkAll client now rest
    (checked.1 ++ others.1, others.2)

/-- `poll_movements`. -/
def pollMovements (client : Client) (drain : DrainOrder) (now : Nat) (t : TierMovementTracker) :
    List TierMovementEvent × TierMovementTracker :=
  match client.pollTelemetry t.lastTelemetryTime with
  | none => ([], t)
  | some telemetry =>
    let t := telemetry.foldl (see client) t
    { t with dirtyHashes := [] }.checkAll client now (drain.order t.dirtyHashes)

end TierMovementTracker

/-! ### Runs -/

/-- A telemetry entry, with how many were logged before it. -/
structure Logged where
  number : Nat
  entry : CteTelemetry
deriving DecidableEq, Repr

/-- The entry is for a reorganization of the blob. -/
def Logged.Reorganizes (l : Logged) (key : BlobKey) : Prop :=
  CteOp.ofU32 l.entry.op = .reorganizeBlob ∧ BlobKey.new l.entry.tagId l.entry.blobHash = key

instance (l : Logged) (key : BlobKey) : Decidable (l.Reorganizes key) :=
  inferInstanceAs (Decidable (_ ∧ _))

/-- The blobs, the telemetry that is retained and a tracker.  Beside them stands what the code
does not keep: how much was logged, what polls have seen, and how much had been logged when a
blob was last checked. -/
structure Run where
  blobs : AMap (TagId × Bytes) BlobInfo
  log : List Logged
  logged : Nat
  tracker : TierMovementTracker
  seen : List Logged
  checked : BlobKey → Nat

inductive Action where
  | put (tagId : TagId) (blobName : Bytes) (info : BlobInfo) (entry : CteTelemetry)
  | reorganize (tagId : TagId) (blobName : Bytes) (info : BlobInfo) (entry : CteTelemetry)
  /-- The telemetry retains only some entries. -/
  | forget (keep : Nat → Bool)
  | poll (drain : DrainOrder) (now : Nat)

namespace Run

def new (pollInterval : Nat) : Run :=
  ⟨AMap.empty, [], 0, .new pollInterval, [], fun _ => 0⟩

/-- The client of the tracker: telemetry polling returns every retained entry from a logical
time on, and the info of a blob has its blocks. -/
def client (r : Run) : Client where
  pollTelemetry minTime :=
    some ((r.log.map Logged.entry).filter fun entry => minTime ≤ entry.logicalTime)
  getContainedBlobs tagId :=
    some ((r.blobs.entries.filter fun e => e.1.1 = tagId).map fun e => e.1.2)
  getBlobInfo tagId blobName := r.blobs.find? (tagId, blobName)

/-- What the next poll sees. -/
def visible (r : Run) : List Logged :=
  r.log.filter fun l => r.tracker.lastTelemetryTime ≤ l.entry.logicalTime

/-- The tracker that has seen it. -/
def seeing (r : Run) : TierMovementTracker :=
  (r.visible.map Logged.entry).foldl (TierMovementTracker.see r.client) r.tracker

/-- A poll checks the blob. -/
def Checks (r : Run) (now : Nat) (key : BlobKey) : Prop :=
  key ∈ r.seeing.dirtyHashes ∧ r.tracker.debounced now key = false

instance (r : Run) (now : Nat) (key : BlobKey) : Decidable (r.Checks now key) :=
  inferInstanceAs (Decidable (_ ∧ _))

/-- A blob has the blocks, and its operation is logged. -/
def place (r : Run) (op : UInt32) (tagId : TagId) (blobName : Bytes) (info : BlobInfo)
    (entry : CteTelemetry) : Run :=
  { r with
    blobs := r.blobs.insertOrAssign (tagId, blobName) info
    log := r.log ++ [⟨r.logged,
      { entry with op := op, tagId := tagId, blobHash := computeHash tagId blobName }⟩]
    logged := r.logged + 1 }

def take (r : Run) : Action → Run
  | .put tagId blobName info entry => r.place 0 tagId blobName info entry
  | .reorganize tagId blobName info entry =>
    if r.blobs.contains (tagId, blobName) then r.place 6 tagId blobName info entry else r
  | .forget keep => { r with log := r.log.filter fun l => keep l.number }
  | .poll drain now =>
    { r with
      tracker := (r.tracker.pollMovements r.client drain now).2
      seen := r.seen ++ r.visible
      checked := fun key => if r.Checks now key then r.logged else r.checked key }

/-- What a poll would emit. -/
def events (r : Run) (drain : DrainOrder) (now : Nat) : List TierMovementEvent :=
  (r.tracker.pollMovements r.client drain now).1

end Run

end TierTracker
end IowarpCore
