/-
The write-ahead log: `transaction_log.h`.

A log file is a sequence of records `[u8 type][u32 payload size][payload]`, and
there are six kinds of payload.  `Txn.payload` is the buffer the `Log` overload of
each kind fills; `TransactionLog.log` appends the record to the file; `load` reads
the file back as pairs of a type byte and raw payload bytes, stopping at the first
record the file does not hold completely; the `deserialize` functions take a
payload apart again.

The file is modelled after a flush, so what was logged is what is on disk, and a
crash leaves any byte prefix of it.  A deserializer that would read past the end
of its payload is `none`: the C++ reads foreign memory there.
-/
import IowarpCore.Types
import IowarpCore.Lib.Framing

namespace IowarpCore.Wal

inductive TxnType where
  | createNewBlob | extendBlob | clearBlob | delBlob | createTag | delTag
  deriving DecidableEq, Repr

def TxnType.toByte : TxnType → UInt8
  | createNewBlob => 0
  | extendBlob => 1
  | clearBlob => 2
  | delBlob => 3
  | createTag => 4
  | delTag => 5

/-- `static_cast<TxnType>`; a byte that names no type matches no branch of the replay. -/
def TxnType.ofByte : UInt8 → Option TxnType
  | 0 => some createNewBlob
  | 1 => some extendBlob
  | 2 => some clearBlob
  | 3 => some delBlob
  | 4 => some createTag
  | 5 => some delTag
  | _ => none

/-! ### Payloads -/

structure TxnExtendBlobBlock where
  bdevMajor : UInt32
  bdevMinor : UInt32
  targetQuery : PoolQuery
  targetOffset : UInt64
  size : UInt64
  deriving DecidableEq, Repr

structure TxnCreateNewBlob where
  tagMajor : UInt32
  tagMinor : UInt32
  blobName : Bytes
  score : F32
  deriving DecidableEq, Repr

structure TxnExtendBlob where
  tagMajor : UInt32
  tagMinor : UInt32
  blobName : Bytes
  newBlocks : List TxnExtendBlobBlock
  deriving DecidableEq, Repr

structure TxnClearBlob where
  tagMajor : UInt32
  tagMinor : UInt32
  blobName : Bytes
  deriving DecidableEq, Repr

structure TxnDelBlob where
  tagMajor : UInt32
  tagMinor : UInt32
  blobName : Bytes
  deriving DecidableEq, Repr

structure TxnCreateTag where
  tagName : Bytes
  tagMajor : UInt32
  tagMinor : UInt32
  deriving DecidableEq, Repr

structure TxnDelTag where
  tagName : Bytes
  tagMajor : UInt32
  tagMinor : UInt32
  deriving DecidableEq, Repr

/-- A transaction of any of the six kinds. -/
inductive Txn where
  | createNewBlob (txn : TxnCreateNewBlob)
  | extendBlob (txn : TxnExtendBlob)
  | clearBlob (txn : TxnClearBlob)
  | delBlob (txn : TxnDelBlob)
  | createTag (txn : TxnCreateTag)
  | delTag (txn : TxnDelTag)
  deriving DecidableEq, Repr

namespace Txn

/-- The type each `Log` call passes with its payload. -/
def type : Txn → TxnType
  | createNewBlob _ => .createNewBlob
  | extendBlob _ => .extendBlob
  | clearBlob _ => .clearBlob
  | delBlob _ => .delBlob
  | createTag _ => .createTag
  | delTag _ => .delTag

def blockBytes (blk : TxnExtendBlobBlock) : Bytes :=
  writeU32 blk.bdevMajor ++ writeU32 blk.bdevMinor ++ blk.targetQuery.raw ++
    writeU64 blk.targetOffset ++ writeU64 blk.size

/-- The buffer the `Log` overload of this kind fills. -/
def payload : Txn → Bytes
  | createNewBlob t =>
    writeU32 t.tagMajor ++ writeU32 t.tagMinor ++ writeString t.blobName ++
      writeU32 t.score.bits
  | extendBlob t =>
    writeU32 t.tagMajor ++ writeU32 t.tagMinor ++ writeString t.blobName ++
      writeU32 (UInt32.ofNat t.newBlocks.length) ++ t.newBlocks.flatMap blockBytes
  | clearBlob t => writeU32 t.tagMajor ++ writeU32 t.tagMinor ++ writeString t.blobName
  | delBlob t => writeU32 t.tagMajor ++ writeU32 t.tagMinor ++ writeString t.blobName
  | createTag t => writeString t.tagName ++ writeU32 t.tagMajor ++ writeU32 t.tagMinor
  | delTag t => writeString t.tagName ++ writeU32 t.tagMajor ++ writeU32 t.tagMinor

/-- The blob a record is about. -/
def blob? : Txn → Option (TagId × Bytes)
  | createNewBlob t => some (⟨t.tagMajor, t.tagMinor⟩, t.blobName)
  | extendBlob t => some (⟨t.tagMajor, t.tagMinor⟩, t.blobName)
  | clearBlob t => some (⟨t.tagMajor, t.tagMinor⟩, t.blobName)
  | delBlob t => some (⟨t.tagMajor, t.tagMinor⟩, t.blobName)
  | createTag _ => none
  | delTag _ => none

/-- The tag a record is about. -/
def tag? : Txn → Option (Bytes × TagId)
  | createTag t => some (t.tagName, ⟨t.tagMajor, t.tagMinor⟩)
  | delTag t => some (t.tagName, ⟨t.tagMajor, t.tagMinor⟩)
  | _ => none

/-- Records about the same blob, or about tags that share their name or their id. -/
def conflicts (a b : Txn) : Bool :=
  match a.blob?, b.blob? with
  | some x, some y => x == y
  | _, _ =>
    match a.tag?, b.tag? with
    | some (n, i), some (n', i') => n == n' || i == i'
    | _, _ => false

end Txn

/-! ### Writing -/

/-- `WriteRecord`: the size goes to the file as a 32-bit word, and so many payload bytes. -/
def writeRecord (type : UInt8) (payload : Bytes) : Bytes :=
  let payloadSize := UInt32.ofNat payload.length
  [type] ++ writeU32 payloadSize ++ payload.take payloadSize.toNat

/-- The log, as the bytes of its file. -/
structure TransactionLog where
  file : Bytes
  deriving DecidableEq, Repr

namespace TransactionLog

/-- `Open` creates the file if it is missing and appends to whatever it holds. -/
def openLog (onDisk : Option Bytes) : TransactionLog := ⟨onDisk.getD []⟩

def log (l : TransactionLog) (t : Txn) : TransactionLog :=
  ⟨l.file ++ writeRecord t.type.toByte t.payload⟩

def logAll (l : TransactionLog) (ts : List Txn) : TransactionLog := ts.foldl log l

def truncate (_ : TransactionLog) : TransactionLog := ⟨[]⟩

/-! ### Loading -/

/-- An input stream: what is left of the file, and whether every read so far succeeded. -/
structure Ifs where
  rest : Bytes
  good : Bool

/-- `ifs.read`: a read past the end delivers what is there and fails the stream. -/
def Ifs.read (ifs : Ifs) (n : Nat) : Bytes × Ifs :=
  if n ≤ ifs.rest.length then (ifs.rest.take n, ⟨ifs.rest.drop n, ifs.good⟩)
  else (ifs.rest, ⟨[], false⟩)

/-- What one pass through the loop of `Load` does: `none` when the loop is left. -/
def loadStep (rest : Bytes) : Option ((UInt8 × Bytes) × Bytes) :=
  match rest with
  | [] => none
  | typeByte :: afterType =>
    let (sizeBytes, ifs) := Ifs.read ⟨afterType, true⟩ 4
    if ¬ifs.good then none
    else
      let payloadSize := UInt32.ofNat (leNat sizeBytes)
      let (payload, ifs) := ifs.read payloadSize.toNat
      if ¬ifs.good ∧ payload.length ≠ payloadSize.toNat then none
      else some ((typeByte, payload), ifs.rest)

/-- The loop of `Load`; every pass that continues consumes at least the five header bytes. -/
def loadLoop : Nat → Bytes → List (UInt8 × Bytes)
  | 0, _ => []
  | fuel + 1, rest =>
    match loadStep rest with
    | none => []
    | some (entry, rest') => entry :: loadLoop fuel rest'

def load (l : TransactionLog) : List (UInt8 × Bytes) := loadLoop l.file.length l.file

/-! ### Deserializing -/

def deserializeCreateNewBlob (data : Bytes) : Option TxnCreateNewBlob :=
  StateT.run' (m := Option) (s := data) do
    let tagMajor ← readU32
    let tagMinor ← readU32
    let blobName ← readString
    let score ← readU32
    return ⟨tagMajor, tagMinor, blobName, ⟨score⟩⟩

def readBlock : Reader TxnExtendBlobBlock := do
  let bdevMajor ← readU32
  let bdevMinor ← readU32
  let targetQuery ← PoolQuery.readRaw
  let targetOffset ← readU64
  let size ← readU64
  return ⟨bdevMajor, bdevMinor, targetQuery, targetOffset, size⟩

def readBlocks : Nat → Reader (List TxnExtendBlobBlock)
  | 0 => return []
  | n + 1 => do
      let blk ← readBlock
      return blk :: (← readBlocks n)

def deserializeExtendBlob (data : Bytes) : Option TxnExtendBlob :=
  StateT.run' (m := Option) (s := data) do
    let tagMajor ← readU32
    let tagMinor ← readU32
    let blobName ← readString
    let numBlocks ← readU32
    let newBlocks ← readBlocks numBlocks.toNat
    return ⟨tagMajor, tagMinor, blobName, newBlocks⟩

def deserializeClearBlob (data : Bytes) : Option TxnClearBlob :=
  StateT.run' (m := Option) (s := data) do
    let tagMajor ← readU32
    let tagMinor ← readU32
    let blobName ← readString
    return ⟨tagMajor, tagMinor, blobName⟩

def deserializeDelBlob (data : Bytes) : Option TxnDelBlob :=
  StateT.run' (m := Option) (s := data) do
    let tagMajor ← readU32
    let tagMinor ← readU32
    let blobName ← readString
    return ⟨tagMajor, tagMinor, blobName⟩

def deserializeCreateTag (data : Bytes) : Option TxnCreateTag :=
  StateT.run' (m := Option) (s := data) do
    let tagName ← readString
    let tagMajor ← readU32
    let tagMinor ← readU32
    return ⟨tagName, tagMajor, tagMinor⟩

def deserializeDelTag (data : Bytes) : Option TxnDelTag :=
  StateT.run' (m := Option) (s := data) do
    let tagName ← readString
    let tagMajor ← readU32
    let tagMinor ← readU32
    return ⟨tagName, tagMajor, tagMinor⟩

/-- The deserializer the replay picks by an entry's type. -/
def deserialize (entry : UInt8 × Bytes) : Option Txn :=
  match TxnType.ofByte entry.1 with
  | some .createNewBlob => (deserializeCreateNewBlob entry.2).map .createNewBlob
  | some .extendBlob => (deserializeExtendBlob entry.2).map .extendBlob
  | some .clearBlob => (deserializeClearBlob entry.2).map .clearBlob
  | some .delBlob => (deserializeDelBlob entry.2).map .delBlob
  | some .createTag => (deserializeCreateTag entry.2).map .createTag
  | some .delTag => (deserializeDelTag entry.2).map .delTag
  | none => none

end TransactionLog

end IowarpCore.Wal
