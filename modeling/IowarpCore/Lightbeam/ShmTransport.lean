/-
The shared-memory transport.

Follows `ShmTransport::Send`, `Recv`, `RecvBulksImpl`, `WriteTransfer` and `ReadTransfer`
of `shm_transport.h`.  Both sides share a ring of bytes and two absolute counters, 64 bit
wide.  A step is one pass of the loop of `WriteTransfer` or of `ReadTransfer`: it looks at
the other side's counter, copies one chunk and moves its own counter on.  A pass that
finds no space, or nothing to read, changes nothing.

The sender's side is the list of buffers it has still to write.  The receiver's side is a
program that reads the stream (`Reading`), with the bytes it has for the current
`ReadTransfer`; it calls `Recv` again when a message is complete.
-/
import IowarpCore.Lib.Along
import IowarpCore.Lib.Reading
import IowarpCore.Lightbeam.Message

namespace IowarpCore
namespace Lightbeam

/-- `ShmTransferInfo` and the copy space. -/
structure Ring where
  totalWritten : UInt64
  totalRead : UInt64
  copySpaceSize : UInt64
  copySpace : Nat → UInt8

namespace Ring

/-- The loop of `WriteTransfer`, one pass: how many bytes of `data` are written. -/
def writeChunk (r : Ring) (data : Bytes) : Nat :=
  let space := r.copySpaceSize - (r.totalWritten - r.totalRead)
  if space = 0 then 0
  else
    let writePos := r.totalWritten % r.copySpaceSize
    let contig := r.copySpaceSize - writePos
    min (min data.length space.toNat) contig.toNat

/-- The ring after that pass. -/
def write (r : Ring) (data : Bytes) : Ring :=
  let chunk := r.writeChunk data
  let writePos := (r.totalWritten % r.copySpaceSize).toNat
  { r with
    copySpace := fun i =>
      if writePos ≤ i ∧ i < writePos + chunk then data.getD (i - writePos) 0 else r.copySpace i
    totalWritten := r.totalWritten + UInt64.ofNat chunk }

/-- The loop of `ReadTransfer`, one pass: how many of `size` bytes are read. -/
def readChunk (r : Ring) (size : Nat) : Nat :=
  let avail := r.totalWritten - r.totalRead
  if avail = 0 then 0
  else
    let readPos := r.totalRead % r.copySpaceSize
    let contig := r.copySpaceSize - readPos
    min (min size avail.toNat) contig.toNat

/-- The bytes of that pass. -/
def readBytes (r : Ring) (size : Nat) : Bytes :=
  (List.range (r.readChunk size)).map fun i =>
    r.copySpace ((r.totalRead % r.copySpaceSize).toNat + i)

def advanceRead (r : Ring) (size : Nat) : Ring :=
  { r with totalRead := r.totalRead + UInt64.ofNat (r.readChunk size) }

/-- The number of bytes that were written and not read. -/
def unread (r : Ring) : Nat :=
  (r.totalWritten - r.totalRead).toNat

end Ring

/-! ### Send -/

section

variable {P : Type} (C : Codec P)

/-- The buffers that `Send` writes for a bulk. -/
def shmBulk (b : Bulk) : List Bytes :=
  if b.desc.expose then [b.shm.bytes]
  else if b.desc.xfer then
    if b.shm.isNull then [b.shm.bytes, b.data] else [b.shm.bytes]
  else []

/-- The buffers that `Send` writes for a message. -/
def shmBuffers (m : Message P) : List Bytes :=
  writeU32 (UInt32.ofNat (C.metaStr m).length) :: C.metaStr m :: m.send.flatMap shmBulk

end

/-! ### Recv -/

/-- The pointer in bytes that were received for it. -/
def ShmPtr.ofBytes (bs : Bytes) : ShmPtr :=
  ⟨UInt32.ofNat (leNat (bs.take 4)), UInt32.ofNat (leNat ((bs.drop 4).take 4)),
    UInt64.ofNat (leNat (bs.drop 8))⟩

/-- What the receiver has of a bulk: nothing, a pointer, or its bytes. -/
inductive RecvBulk where
  | none
  | pointer (shm : ShmPtr)
  | bytes (data : Bytes)
deriving DecidableEq, Repr

/-- `RecvBulksImpl` for one bulk. -/
def recvBulkImpl (d : Desc) : Reading RecvBulk :=
  if d.expose then .read 16 fun shm => .done (.pointer (.ofBytes shm))
  else if d.xfer then
    .read 16 fun shm =>
      if (ShmPtr.ofBytes shm).isNull then .read d.size fun data => .done (.bytes data)
      else .done (.pointer (.ofBytes shm))
  else .done .none

/-- `RecvBulksImpl`. -/
def recvBulksImpl : List Desc → Reading (List RecvBulk)
  | [] => .done []
  | d :: ds => (recvBulkImpl d).bind fun b => (recvBulksImpl ds).bind fun bs => .done (b :: bs)

/-- What the receiver has of a message. -/
structure ShmReceived (P : Type) where
  payload : P
  descs : List Desc
  bulks : List RecvBulk
deriving DecidableEq, Repr

section

variable {P : Type} (C : Codec P)

/-- `Recv`.  `none` if the metadata cannot be deserialized. -/
def shmRecv : Reading (Option (ShmReceived P)) :=
  .read 4 fun metaLen => .read (leNat metaLen) fun metaBuf =>
    match C.de metaBuf with
    | some (payload, descs) =>
      (recvBulksImpl descs).bind fun bulks => .done (some ⟨payload, descs, bulks⟩)
    | none => .done none

/-! ### Both sides -/

structure Shm (P : Type) where
  ring : Ring
  pending : List Bytes
  reading : Reading (Option (ShmReceived P))
  got : Bytes
  results : List (Option (ShmReceived P))

/-- Buffers with nothing in them are passed over: the loop of `WriteTransfer` ends. -/
def skipEmpty (bufs : List Bytes) : List Bytes :=
  bufs.dropWhile List.isEmpty

/-- The sender has messages to send, the receiver has called `Recv`, and both counters are
at `position`. -/
def Shm.start (copySpaceSize position : UInt64) (space : Nat → UInt8) (msgs : List (Message P)) :
    Shm P :=
  ⟨⟨position, position, copySpaceSize, space⟩, skipEmpty (msgs.flatMap (shmBuffers C)),
    shmRecv C, [], []⟩

inductive Side where
  | sender
  | receiver
deriving DecidableEq, Repr

/-- A pass of the sender's loop. -/
def Shm.sendStep (s : Shm P) : Shm P :=
  match s.pending with
  | [] => s
  | data :: rest =>
    { s with
      ring := s.ring.write data
      pending := skipEmpty (data.drop (s.ring.writeChunk data) :: rest) }

/-- The receiver goes on with the bytes it has: it waits for more, or `Recv` returns and is
called again. -/
def Shm.resume (s : Shm P) (r : Reading (Option (ShmReceived P))) (got : Bytes) : Shm P :=
  match r.settle got with
  | (.done a, _) => { s with reading := shmRecv C, got := [], results := s.results ++ [a] }
  | (r, got) => { s with reading := r, got := got }

/-- A pass of the receiver's loop. -/
def Shm.recvStep (s : Shm P) : Shm P :=
  match s.reading with
  | .done _ => s
  | .read n k =>
    let size := n - s.got.length
    Shm.resume C { s with ring := s.ring.advanceRead size } (.read n k)
      (s.got ++ s.ring.readBytes size)

def Shm.step : Side → Shm P → Shm P
  | .sender, s => s.sendStep
  | .receiver, s => s.recvStep C

/-- Any interleaving of the passes. -/
def Shm.run (s : Shm P) : List Side → Shm P
  | [] => s
  | side :: sides => Shm.run (s.step C side) sides

end

end Lightbeam
end IowarpCore
