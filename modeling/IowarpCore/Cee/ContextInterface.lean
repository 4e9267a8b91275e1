/-
`ContextRetrieve` of the context exploration engine.

The blobs that match a query are read one behind the other into one buffer, a batch at a
time.  The reads of a batch run together; each has a part of the buffer to itself, so the
order in which they end does not matter.  The loop over the batches has fuel, because with
a batch size of 0 it does not end.
-/
import IowarpCore.Types

namespace IowarpCore

namespace ContextInterface

/-- What a `GetBlob` of `size` bytes answers, and what is then in the memory it was given. -/
structure GetBlobReply (size : UInt64) where
  returnCode : UInt32
  data : Bytes
  length : data.length = size.toNat

/-- The transfer engine.  What it answers stays the same while a context is put together. -/
structure CteClient where
  getOrCreateTag : Bytes → TagId
  getBlobSize : TagId → Bytes → UInt64
  getBlob : TagId → Bytes → (size : UInt64) → GetBlobReply size

/-- A `GetBlob` that was scheduled, and where in the buffer. -/
structure GetBlobTask where
  offset : UInt64
  size : UInt64
  reply : GetBlobReply size

/-- The reads of one batch, and the offset behind them. -/
def schedule (cte : CteClient) (maxContextSize : UInt64) :
    UInt64 → List (Bytes × Bytes) → List GetBlobTask × UInt64
  | bufferOffset, [] => ([], bufferOffset)
  | bufferOffset, (tagName, blobName) :: rest =>
    let tagId := cte.getOrCreateTag tagName
    if tagId.isNull then schedule cte maxContextSize bufferOffset rest
    else
      let blobSize := cte.getBlobSize tagId blobName
      if blobSize = 0 then schedule cte maxContextSize bufferOffset rest
      -- leaves the batch, not the loop over the batches
      else if bufferOffset + blobSize > maxContextSize then ([], bufferOffset)
      else
        let later := schedule cte maxContextSize (bufferOffset + blobSize) rest
        (⟨bufferOffset, blobSize, cte.getBlob tagId blobName blobSize⟩ :: later.1, later.2)

/-- The buffer when the read has ended.  Nothing is said of a read that was given memory
behind the buffer. -/
def GetBlobTask.wait (contextBuffer : Bytes) (task : GetBlobTask) : Option Bytes :=
  let bufferEnd := task.offset.toNat + task.size.toNat
  if bufferEnd ≤ contextBuffer.length then
    some (contextBuffer.take task.offset.toNat ++ task.reply.data ++ contextBuffer.drop bufferEnd)
  else none

/-- How a call ends. -/
inductive Retrieval
  | returned (results : List Bytes)
  | outOfBounds
  deriving DecidableEq

/-- The loop over the batches, up to the packing of the string. -/
def batches (cte : CteClient) (maxContextSize : UInt64) (queryResults : List (Bytes × Bytes))
    (batchSize : UInt32) : Nat → Nat → Bytes → UInt64 → Option Retrieval
  | 0, _, _, _ => none
  | fuel + 1, batchStart, contextBuffer, bufferOffset =>
    if batchStart < queryResults.length then
      let batchEnd := min (batchStart + batchSize.toNat) queryResults.length
      let batchCount := batchEnd - batchStart
      let batch := schedule cte maxContextSize bufferOffset
        ((queryResults.drop batchStart).take batchCount)
      match batch.1.foldlM GetBlobTask.wait contextBuffer with
      | none => some .outOfBounds
      | some contextBuffer =>
        batches cte maxContextSize queryResults batchSize fuel (batchStart + batchSize.toNat)
          contextBuffer batch.2
    else
      let packedContext := contextBuffer.take bufferOffset.toNat
      some (.returned (if packedContext = [] then [] else [packedContext]))

/-- `ContextRetrieve` for a query that was answered with these names, and the buffer that
`AllocateBuffer` gives. -/
def contextRetrieve (cte : CteClient) (tagNames blobNames : List Bytes) (maxContextSize : UInt64)
    (allocated : Option { buffer : Bytes // buffer.length = maxContextSize.toNat })
    (batchSize : UInt32) (fuel : Nat) : Option Retrieval :=
  let queryResults := tagNames.zip blobNames
  if queryResults = [] then some (.returned [])
  else
    match allocated with
    | none => some (.returned [])
    | some contextBuffer =>
      batches cte maxContextSize queryResults batchSize fuel 0 contextBuffer.1 0

end ContextInterface

end IowarpCore
