/-
A block device as its clients see it: the requests they send, what a device holds and
how it answers.

The contents are a function from positions to bytes.  A RAM device copies unless the
range leaves its buffer.  That check adds in 64 bits, so a range whose end wraps passes it; what
`memcpy` does with such a length is not modelled, and the answer here is that of a copy.  A file
device submits the transfer to the operating system,
which may refuse it, fail it part of the way or transfer fewer bytes than asked; how
it went, and which worker served the request, is the `Outcome`.

A client here sends one block with each transfer and never a transfer of no bytes, so
the batch loops of `WriteToFile` and `ReadFromFile` make one submission.

`granted` is not part of the device.  It records, for every position, whether
`AllocateBlocks` handed it out and `FreeBlocks` has not taken it back since.
-/
import IowarpCore.Lib.AMap
import IowarpCore.Types
import IowarpCore.Bdev.Allocator

namespace IowarpCore
namespace Bdev

inductive BdevType where
  | file | ram
  deriving DecidableEq, Repr, Inhabited

/-- The container of one block device. -/
structure Device where
  bdevType : BdevType
  alloc : Allocator
  fileSize : UInt64
  contents : Nat → UInt8

/-- How the operating system answered a transfer.  A transfer that is reported failed may
still have moved some bytes. -/
inductive IoResult where
  | noContext
  | submitFailed
  | failed (landed : UInt64)
  | done (transferred : UInt64)
  deriving DecidableEq, Repr

/-- What the environment decides about one request. -/
structure Outcome where
  worker : Nat
  io : IoResult
  deriving DecidableEq, Repr

/-- Worker 0, and the transfer is complete. -/
instance : Inhabited Outcome := ⟨⟨0, .done 0xffffffffffffffff⟩⟩

inductive Op where
  | allocateBlocks (size : UInt64)
  | freeBlocks (blocks : List Block)
  | write (block : Block) (data : Nat → UInt8) (length : UInt64)
  | read (block : Block) (length : UInt64)

structure Request where
  pool : PoolId
  query : PoolQuery
  op : Op

/-- The fields of the four task types that their senders look at.  `landed` is how many
bytes of the buffer of a read were overwritten. -/
structure Reply where
  returnCode : UInt32
  blocks : List Block
  bytes : UInt64
  landed : UInt64
  data : Nat → UInt8

instance : Inhabited Reply := ⟨⟨0, [], 0, 0, fun _ => 0⟩⟩

/-- `f` with the `n` positions from `at` on taken from `data`. -/
def overlay (f : Nat → UInt8) (start n : Nat) (data : Nat → UInt8) : Nat → UInt8 :=
  fun a => if start ≤ a ∧ a < start + n then data (a - start) else f a

/-- The return code of a transfer, the bytes it reports and the bytes it moved. -/
def transfer (dev : Device) (block : Block) (length : UInt64) (io : IoResult) :
    UInt32 × UInt64 × UInt64 :=
  let size := min length block.size
  match dev.bdevType with
  | .ram => if block.offset + size > dev.fileSize then (1, 0, 0) else (0, size, size)
  | .file =>
    match io with
    | .noContext => (1, 0, 0)
    | .submitFailed => (2, 0, 0)
    | .failed landed => (4, 0, min landed size)
    | .done transferred => (0, min transferred size, min transferred size)

namespace Device

/-- `WriteToRam` and `WriteToFile` for one block. -/
def write (dev : Device) (io : IoResult) (block : Block) (data : Nat → UInt8)
    (length : UInt64) : Reply × Device :=
  let (returnCode, bytes, landed) := transfer dev block length io
  (⟨returnCode, [], bytes, landed, data⟩,
    { dev with contents := overlay dev.contents block.offset.toNat landed.toNat data })

/-- `ReadFromRam` and `ReadFromFile` for one block. -/
def read (dev : Device) (io : IoResult) (block : Block) (length : UInt64) : Reply :=
  let (returnCode, bytes, landed) := transfer dev block length io
  ⟨returnCode, [], bytes, landed, fun i => dev.contents (block.offset.toNat + i)⟩

def allocateBlocks (dev : Device) (worker : Nat) (size : UInt64) : Reply × Device :=
  let ((returnCode, blocks), alloc) := dev.alloc.allocateBlocks worker size
  (⟨returnCode, blocks, 0, 0, fun _ => 0⟩, { dev with alloc := alloc })

def freeBlocks (dev : Device) (worker : Nat) (blocks : List Block) : Reply × Device :=
  (⟨0, [], 0, 0, fun _ => 0⟩, { dev with alloc := dev.alloc.freeBlocks worker blocks })

/-- One request. -/
def handle (dev : Device) (e : Outcome) : Op → Reply × Device
  | .allocateBlocks size => dev.allocateBlocks e.worker size
  | .freeBlocks blocks => dev.freeBlocks e.worker blocks
  | .write block data length => dev.write e.io block data length
  | .read block length => (dev.read e.io block length, dev)

end Device

/-- The space a block stands for: its category, or more where its size says so. -/
def capacity (b : Block) : Nat := max b.size.toNat (kBlockSizes.getD b.blockType.toNat 0).toNat

/-- Position `a` lies in the space of the block. -/
def inSpace (b : Block) (a : Nat) : Bool :=
  b.offset.toNat ≤ a && a < b.offset.toNat + capacity b

/-- All devices, with the record of what was handed out. -/
structure Devices where
  devs : AMap PoolId Device
  granted : PoolId → Nat → Bool

namespace Devices

/-- What a request and its reply change about `granted`. -/
def account (op : Op) (reply : Reply) (granted : Nat → Bool) : Nat → Bool :=
  match op with
  | .allocateBlocks _ => fun a => granted a || reply.blocks.any (inSpace · a)
  | .freeBlocks blocks => fun a => granted a && !blocks.any (inSpace · a)
  | _ => granted

/-- A request to a pool that does not exist fails. -/
def serve (e : Outcome) (q : Request) (d : Devices) : Reply × Devices :=
  match d.devs.find? q.pool with
  | none => (⟨1, [], 0, 0, fun _ => 0⟩, d)
  | some dev =>
    let (reply, dev') := dev.handle e q.op
    (reply,
      { devs := d.devs.insertOrAssign q.pool dev'
        granted := Function.update d.granted q.pool
          (account q.op reply (d.granted q.pool)) })

/-- The byte at a position of a pool; a pool that does not exist holds zeros. -/
def byteAt (d : Devices) (p : PoolId) (a : Nat) : UInt8 :=
  match d.devs.find? p with
  | none => 0
  | some dev => dev.contents a

end Devices

end Bdev
end IowarpCore
