/-
The transfer loops of the two backends over a list of blocks: `WriteToFile`,
`ReadFromFile`, `WriteToRam` and `ReadFromRam`.

The RAM backend copies block after block.  The file backend submits up to `io_depth`
blocks to the asynchronous I/O layer before it waits for the first of them, and only then
counts what was transferred.  What the layer makes of a submission is a parameter; the
moves of one batch land in any order.

A loop that makes a pass without submitting anything makes the same pass again, for ever;
`fileLoop` returns nothing then.
-/
import IowarpCore.Bdev.Device

namespace IowarpCore
namespace Bdev

/-- Bytes moved between a device and a buffer. -/
structure Move where
  offset : UInt64
  bufferOffset : UInt64
  count : UInt64
  deriving DecidableEq, Repr

namespace Move

/-- From the buffer to the device. -/
def write (data contents : Nat → UInt8) (m : Move) : Nat → UInt8 :=
  overlay contents m.offset.toNat m.count.toNat fun i => data (m.bufferOffset.toNat + i)

/-- From the device to the buffer. -/
def read (contents buffer : Nat → UInt8) (m : Move) : Nat → UInt8 :=
  overlay buffer m.bufferOffset.toNat m.count.toNat fun i => contents (m.offset.toNat + i)

end Move

/-! ### RAM -/

/-- The loop that `WriteToRam` and `ReadFromRam` share: the return code, the bytes it
reports and the copies it made. -/
def ramLoop (ramSize length : UInt64) : List Block → UInt64 → UInt64 →
    UInt32 × UInt64 × List Move
  | [], totalBytes, _ => (0, totalBytes, [])
  | block :: rest, totalBytes, dataOffset =>
    let remaining := length - totalBytes
    if remaining = 0 then (0, totalBytes, [])
    else
      let blockSize := min remaining block.size
      if block.offset + blockSize > ramSize then (1, totalBytes, [])
      else
        let (returnCode, bytes, moves) :=
          ramLoop ramSize length rest (totalBytes + blockSize) (dataOffset + blockSize)
        (returnCode, bytes, ⟨block.offset, dataOffset, blockSize⟩ :: moves)

/-- `WriteToRam`: the return code, `bytes_written_` and the buffer of the device. -/
def writeToRam (ramSize : UInt64) (blocks : List Block) (length : UInt64)
    (data contents : Nat → UInt8) : UInt32 × UInt64 × (Nat → UInt8) :=
  let (returnCode, bytes, moves) := ramLoop ramSize length blocks 0 0
  (returnCode, bytes, moves.foldl (Move.write data) contents)

/-- `ReadFromRam`: the return code, `bytes_read_` and the buffer of the caller. -/
def readFromRam (ramSize : UInt64) (blocks : List Block) (length : UInt64)
    (contents buffer : Nat → UInt8) : UInt32 × UInt64 × (Nat → UInt8) :=
  let (returnCode, bytes, moves) := ramLoop ramSize length blocks 0 0
  (returnCode, bytes, moves.foldl (Move.read contents) buffer)

/-! ### Files -/

/-- What becomes of the submission with a number, for so many bytes. -/
abbrev AsyncIo := Nat → UInt64 → IoResult

/-- An entry of `pending_ios`: what it moves, and `bytes_transferred` unless it fails. -/
structure PendingIo where
  block : Block
  moved : Move
  transferred : Option UInt64
  deriving DecidableEq, Repr

/-- Phase 1: submit up to `io_depth` blocks.  The return code, `pending_ios` and the blocks
that were not submitted. -/
def submitBatch (aio : AsyncIo) (ioDepth : Nat) (length totalBytes dataOffset : UInt64)
    (submitted : Nat) : List PendingIo → List Block → UInt32 × List PendingIo × List Block
  | pending, [] => (0, pending, [])
  | pending, block :: rest =>
    if pending.length < ioDepth then
      let remaining := length - totalBytes
      if remaining = 0 then (0, pending, block :: rest)
      else
        let blockSize := min remaining block.size
        match aio (submitted + pending.length) blockSize with
        | .noContext => (1, pending, block :: rest)
        | .submitFailed => (2, pending, block :: rest)
        | .failed landed =>
          submitBatch aio ioDepth length totalBytes dataOffset submitted
            (pending ++ [⟨block, ⟨block.offset, dataOffset, min landed blockSize⟩, none⟩]) rest
        | .done transferred =>
          submitBatch aio ioDepth length totalBytes dataOffset submitted
            (pending ++ [⟨block, ⟨block.offset, dataOffset, min transferred blockSize⟩,
              some transferred⟩]) rest
    else (0, pending, block :: rest)

/-- Phase 2: wait for the submissions, unless all bytes are there already. -/
def waitBatch (length : UInt64) : List PendingIo → UInt64 → UInt64 → UInt32 × UInt64 × UInt64
  | [], totalBytes, dataOffset => (0, totalBytes, dataOffset)
  | p :: rest, totalBytes, dataOffset =>
    let remaining := length - totalBytes
    if remaining = 0 then (0, totalBytes, dataOffset)
    else
      let blockSize := min remaining p.block.size
      match p.transferred with
      | none => (4, totalBytes, dataOffset)
      | some transferred =>
        let actualBytes := min transferred blockSize
        waitBatch length rest (totalBytes + actualBytes) (dataOffset + actualBytes)

/-- The loop that `WriteToFile` and `ReadFromFile` share: the return code, the bytes it
reports and the moves, batch by batch.  Every pass that does not repeat itself takes a block
off, so there are no more passes than blocks. -/
def fileLoop (aio : AsyncIo) (ioDepth : Nat) (length : UInt64) : Nat → List Block → Nat →
    UInt64 → UInt64 → Option (UInt32 × UInt64 × List (List Move))
  | _, [], _, totalBytes, _ => some (0, totalBytes, [])
  | 0, _ :: _, _, _, _ => none
  | passes + 1, block :: rest, submitted, totalBytes, dataOffset =>
    let (returnCode, pending, left) :=
      submitBatch aio ioDepth length totalBytes dataOffset submitted [] (block :: rest)
    let moves := pending.map PendingIo.moved
    if returnCode ≠ 0 then some (returnCode, totalBytes, [moves])
    else if pending.isEmpty then none
    else
      let (returnCode, totalBytes, dataOffset) := waitBatch length pending totalBytes dataOffset
      if returnCode ≠ 0 then some (returnCode, totalBytes, [moves])
      else
        (fileLoop aio ioDepth length passes left (submitted + pending.length) totalBytes
          dataOffset).map fun (returnCode, bytes, batches) => (returnCode, bytes, moves :: batches)

/-- `WriteToFile` and `ReadFromFile`, if they return. -/
def fileTransfer (aio : AsyncIo) (ioDepth : Nat) (blocks : List Block) (length : UInt64) :
    Option (UInt32 × UInt64 × List (List Move)) :=
  fileLoop aio ioDepth length blocks.length blocks 0 0 0

/-- The head of the outer loop: the blocks from `block_idx` on, and what the loop counts. -/
structure FileState where
  left : List Block
  submitted : Nat
  totalBytes : UInt64
  dataOffset : UInt64
  deriving DecidableEq, Repr

/-- One pass of the outer loop: what the function returns, or the head of the loop again. -/
def filePass (aio : AsyncIo) (ioDepth : Nat) (length : UInt64) (s : FileState) :
    (UInt32 × UInt64) ⊕ FileState :=
  if s.left.isEmpty then .inl (0, s.totalBytes)
  else
    let (returnCode, pending, left) :=
      submitBatch aio ioDepth length s.totalBytes s.dataOffset s.submitted [] s.left
    if returnCode ≠ 0 then .inl (returnCode, s.totalBytes)
    else
      let (returnCode, totalBytes, dataOffset) := waitBatch length pending s.totalBytes s.dataOffset
      if returnCode ≠ 0 then .inl (returnCode, totalBytes)
      else .inr ⟨left, s.submitted + pending.length, totalBytes, dataOffset⟩

/-- The outer loop comes to its end. -/
inductive FileEnds (aio : AsyncIo) (ioDepth : Nat) (length : UInt64) : FileState → Prop
  | returns {s : FileState} {r : UInt32 × UInt64} (h : filePass aio ioDepth length s = .inl r) :
      FileEnds aio ioDepth length s
  | again {s s' : FileState} (h : filePass aio ioDepth length s = .inr s')
      (hrest : FileEnds aio ioDepth length s') : FileEnds aio ioDepth length s

/-- The moves of a batch land before those of the next, and in any order. -/
def Lands (apply : (Nat → UInt8) → Move → Nat → UInt8) (batches : List (List Move))
    (before after : Nat → UInt8) : Prop :=
  ∃ landed, List.Forall₂ List.Perm batches landed ∧ after = landed.flatten.foldl apply before

/-- `WriteToFile` returns with a code and `bytes_written_`, and the file then holds `after`. -/
def WritesToFile (aio : AsyncIo) (ioDepth : Nat) (blocks : List Block) (length : UInt64)
    (data contents : Nat → UInt8) (returnCode : UInt32) (bytes : UInt64)
    (after : Nat → UInt8) : Prop :=
  ∃ batches, fileTransfer aio ioDepth blocks length = some (returnCode, bytes, batches) ∧
    Lands (Move.write data) batches contents after

/-- `ReadFromFile` returns with a code and `bytes_read_`, and the caller's buffer then holds
`after`. -/
def ReadsFromFile (aio : AsyncIo) (ioDepth : Nat) (blocks : List Block) (length : UInt64)
    (contents buffer : Nat → UInt8) (returnCode : UInt32) (bytes : UInt64)
    (after : Nat → UInt8) : Prop :=
  ∃ batches, fileTransfer aio ioDepth blocks length = some (returnCode, bytes, batches) ∧
    Lands (Move.read contents) batches buffer after

end Bdev
end IowarpCore
