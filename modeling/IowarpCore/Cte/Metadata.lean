/-
Metadata on disk: the snapshot `FlushMetadata` writes, and how a restarted container
gets its maps back from the snapshot and the write-ahead logs.

The snapshot is one entry for every tag and every blob.  `RestoreMetadataFromLog` reads
entries until one is not complete or not known, drops the blocks on volatile targets and
moves the counter for tag ids past every id it saw.  `ReplayTransactionLogs` then replays
all tag logs, one whole log after another, and all blob logs behind them, and computes the
totals of the tags anew.
-/
import IowarpCore.Cte.Tag

namespace IowarpCore
namespace Cte

open Wal (Txn TransactionLog TxnExtendBlobBlock)

/-! ### Writing the snapshot -/

/-- The length goes out as a 32-bit word, and so many bytes behind it. -/
def writeName (s : Bytes) : Bytes := writeString (s.take (UInt32.ofNat s.length).toNat)

def writeTagEntry (e : TagId × TagInfo) : Bytes :=
  [0] ++ writeName e.2.tagName ++ writeU32 e.1.major ++ writeU32 e.1.minor ++
    writeU64 e.2.totalSize

/-- A block goes out field by field as in the write-ahead log. -/
def writeBlock (b : BlobBlock) : Bytes := Txn.blockBytes (blockTxn b)

def writeBlobEntry (e : Bytes × BlobInfo) : Bytes :=
  [1] ++ writeName e.1 ++ writeName e.2.blobName ++ writeU32 e.2.score.bits ++
    writeU32 e.2.compressLib.toUInt32 ++ writeU32 e.2.compressPreset.toUInt32 ++
    writeU64 e.2.traceKey ++ writeU32 (UInt32.ofNat e.2.blocks.length) ++
    e.2.blocks.flatMap writeBlock

/-- The file `FlushMetadata` writes for maps visited in the order given. -/
def writeSnapshot (tags : List (TagId × TagInfo)) (blobs : List (Bytes × BlobInfo)) : Bytes :=
  tags.flatMap writeTagEntry ++ blobs.flatMap writeBlobEntry

/-! ### Restoring it -/

namespace Container

/-- The pool is a registered target and volatile. -/
def isVolatile (c : Container) (p : PoolId) : Bool :=
  match c.targets.find? p with
  | some target => target.persistenceLevel == .volatile
  | none => false

end Container

def ofBlockTxn (t : TxnExtendBlobBlock) : BlobBlock :=
  ⟨⟨t.bdevMajor, t.bdevMinor⟩, t.targetQuery, t.targetOffset, t.size⟩

def readTagEntry : Reader (Bytes × TagId × UInt64) := do
  let tagName ← readString
  let major ← readU32
  let minor ← readU32
  let totalSize ← readU64
  return (tagName, ⟨major, minor⟩, totalSize)

/-- The fields of a blob entry in front of its blocks, and the number of blocks. -/
def readBlobHeader : Reader (Bytes × BlobInfo × UInt32) := do
  let compositeKey ← readString
  let blobName ← readString
  let score ← readU32
  let compressLib ← readU32
  let compressPreset ← readU32
  let traceKey ← readU64
  let numBlocks ← readU32
  return (compositeKey,
    ⟨blobName, [], ⟨score⟩, compressLib.toInt32, compressPreset.toInt32, traceKey⟩, numBlocks)

/-- The block loop.  A block that is cut off ends it, and then nothing is left to read. -/
def restoreBlocks (c : Container) : Nat → Bytes → List BlobBlock × Option Bytes
  | 0, bs => ([], some bs)
  | n + 1, bs =>
    match TransactionLog.readBlock.run bs with
    | none => ([], none)
    | some (t, rest) =>
      let b := ofBlockTxn t
      let (blocks, rest') := restoreBlocks c n rest
      (if c.isVolatile b.bdevClient then blocks else b :: blocks, rest')

/-- `max_minor` after a tag id. -/
def bumpMinor (maxMinor : UInt32) (tagId : TagId) : UInt32 :=
  if tagId.minor ≥ maxMinor then tagId.minor + 1 else maxMinor

/-- One pass of the loop of `RestoreMetadataFromLog`; `none` for the rest of the file leaves
the loop. -/
def restoreEntry (c : Container) (maxMinor : UInt32) (bs : Bytes) :
    (Container × UInt32) × Option Bytes :=
  match bs with
  | [] => ((c, maxMinor), none)
  | entryType :: rest =>
    if entryType = 0 then
      match readTagEntry.run rest with
      | none => ((c, maxMinor), none)
      | some ((tagName, tagId, totalSize), rest) =>
        ((c.putTag tagName tagId totalSize, bumpMinor maxMinor tagId), some rest)
    else if entryType = 1 then
      match readBlobHeader.run rest with
      | none => ((c, maxMinor), none)
      | some ((compositeKey, info, numBlocks), rest) =>
        let (blocks, rest) := restoreBlocks c numBlocks.toNat rest
        (((c.assignBlob compositeKey { info with blocks := blocks }).2, maxMinor), rest)
    else ((c, maxMinor), none)

/-- The loop; every pass that continues consumes at least the type byte. -/
def restoreLoop : Nat → Container → UInt32 → Bytes → Container × UInt32
  | 0, c, maxMinor, _ => (c, maxMinor)
  | fuel + 1, c, maxMinor, bs =>
    match restoreEntry c maxMinor bs with
    | ((c, maxMinor), none) => (c, maxMinor)
    | ((c, maxMinor), some rest) => restoreLoop fuel c maxMinor rest

/-- Move the counter for tag ids past what was seen. -/
def Container.raiseMinor (c : Container) (maxMinor : UInt32) : Container :=
  if maxMinor > c.nextTagIdMinor then { c with nextTagIdMinor := maxMinor } else c

/-- `RestoreMetadataFromLog`. -/
def restoreMetadataFromLog (c : Container) (snapshot : Bytes) : Container :=
  let (c, maxMinor) := restoreLoop snapshot.length c 0 snapshot
  c.raiseMinor maxMinor

/-! ### Replaying the logs -/

/-- One record of a tag log. -/
def replayTagTxn (st : Container × UInt32) (t : Txn) : Container × UInt32 :=
  match t with
  | .createTag t =>
    let tagId : TagId := ⟨t.tagMajor, t.tagMinor⟩
    (st.1.putTag t.tagName tagId 0, bumpMinor st.2 tagId)
  | .delTag t =>
    let tagId : TagId := ⟨t.tagMajor, t.tagMinor⟩
    ({ st.1 with
        tagNameToId := st.1.tagNameToId.erase t.tagName
        blobs := st.1.blobs.filter fun key _ => !hasTagPrefix tagId key
        tagIdToInfo := st.1.tagIdToInfo.erase tagId }, st.2)
  | _ => st

/-- Change the entry of a key, if there is one. -/
def Container.mapBlob (c : Container) (key : Bytes) (f : BlobInfo → BlobInfo) : Container :=
  { c with blobs := c.blobs.mapVal fun k node => if k = key then ⟨node.addr, f node.info⟩ else node }

/-- One record of a blob log. -/
def replayBlobTxn (c : Container) (t : Txn) : Container :=
  match t with
  | .createNewBlob t =>
    (c.assignBlob (compositeKey ⟨t.tagMajor, t.tagMinor⟩ t.blobName)
      { (default : BlobInfo) with blobName := t.blobName, score := t.score }).2
  | .extendBlob t =>
    c.mapBlob (compositeKey ⟨t.tagMajor, t.tagMinor⟩ t.blobName) fun info =>
      { info with
        blocks := (t.newBlocks.map ofBlockTxn).filter fun b => !c.isVolatile b.bdevClient }
  | .clearBlob t =>
    c.mapBlob (compositeKey ⟨t.tagMajor, t.tagMinor⟩ t.blobName) fun info =>
      { info with blocks := [] }
  | .delBlob t =>
    { c with blobs := c.blobs.erase (compositeKey ⟨t.tagMajor, t.tagMinor⟩ t.blobName) }
  | _ => c

/-- The sum of the sizes of the blobs whose key carries the tag's prefix. -/
def Container.blobTotal (c : Container) (tagId : TagId) : UInt64 :=
  c.blobs.entries.foldl (fun total e =>
    if hasTagPrefix tagId e.1 then total + e.2.info.getTotalSize else total) 0

/-- Phase 3 of the replay. -/
def Container.recomputeTotals (c : Container) : Container :=
  { c with tagIdToInfo := c.tagIdToInfo.mapVal fun id info =>
      { info with totalSize := c.blobTotal id } }

/-- The records of a log file, as far as they can be taken apart. -/
def logRecords (l : TransactionLog) : List Txn := l.load.filterMap TransactionLog.deserialize

/-- `ReplayTransactionLogs`. -/
def replayTransactionLogs (c : Container) (tagLogs blobLogs : List TransactionLog) : Container :=
  let (c, maxMinor) := (tagLogs.flatMap logRecords).foldl replayTagTxn (c, c.nextTagIdMinor)
  let c := (blobLogs.flatMap logRecords).foldl replayBlobTxn c
  c.recomputeTotals.raiseMinor maxMinor

/-! ### Restart -/

/-- The files of the write-ahead logs. -/
def logFiles (logs : List (List Txn)) : List TransactionLog :=
  logs.map fun records => (TransactionLog.openLog none).logAll records

/-- A container that starts again: its targets are registered, its maps are empty, and the
logs it appends to are those on disk. -/
def Container.startAgain (c : Container) : Container :=
  { c with
    tagNameToId := AMap.empty
    tagIdToInfo := AMap.empty
    blobs := AMap.empty
    nextTagIdMinor := 1 }

/-- `Create` on a restart. -/
def Container.restart (c : Container) (snapshot : Option Bytes) : Container :=
  let started := c.startAgain
  let restored := snapshot.elim started (restoreMetadataFromLog started)
  replayTransactionLogs restored (logFiles c.tagTxnLogs) (logFiles c.blobTxnLogs)

end Cte
end IowarpCore
