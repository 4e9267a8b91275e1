/-
Messages of the lightbeam transports.

Follows `Bulk` and `LbmMeta` of `lightbeam.h`.  A message is metadata and a list of bulks.
What the metadata says beside the descriptors of the bulks is up to the caller (`MetaT`),
and so is its serialization: `Codec` has the two directions, and `Codec.Reads` says that
one message is read back as it was written.

A message is handed to `Send` with an empty `recv`, as `LbmMeta()` leaves it: that vector
is for the receiving side.
-/
import IowarpCore.Lib.Bytes

namespace IowarpCore
namespace Lightbeam

/-- `BULK_EXPOSE`. -/
def bulkExpose : UInt32 := 1

/-- `BULK_XFER`. -/
def bulkXfer : UInt32 := 2

/-- `hipc::ShmPtr<char>`: the allocator's major and minor id and the offset. -/
structure ShmPtr where
  major : UInt32
  minor : UInt32
  off : UInt64
deriving DecidableEq, Repr

/-- `alloc_id_.IsNull()`. -/
def ShmPtr.isNull (p : ShmPtr) : Bool :=
  p.major == 0xffffffff && p.minor == 0xffffffff

/-- The bytes of the pointer in memory. -/
def ShmPtr.bytes (p : ShmPtr) : Bytes :=
  writeU32 p.major ++ writeU32 p.minor ++ writeU64 p.off

/-- What `Bulk::serialize` writes of a bulk. -/
structure Desc where
  size : Nat
  flags : UInt32
deriving DecidableEq, Repr

/-- `flags.Any(BULK_XFER)`. -/
def Desc.xfer (d : Desc) : Bool :=
  d.flags &&& bulkXfer != 0

/-- `flags.Any(BULK_EXPOSE)`. -/
def Desc.expose (d : Desc) : Bool :=
  d.flags &&& bulkExpose != 0

/-- `Bulk`, with the bytes that `data.ptr_` points to. -/
structure Bulk where
  data : Bytes
  shm : ShmPtr
  flags : UInt32
deriving DecidableEq, Repr

def Bulk.desc (b : Bulk) : Desc :=
  ⟨b.data.length, b.flags⟩

variable {P : Type}

/-- The metadata, of which `payload` is the caller's part, and the bulks of `send`. -/
structure Message (P : Type) where
  payload : P
  send : List Bulk
deriving DecidableEq, Repr

/-- The caller's serialization of the metadata. -/
structure Codec (P : Type) where
  ser : P → List Desc → Bytes
  de : Bytes → Option (P × List Desc)

namespace Codec

variable (C : Codec P)

/-- The serialized metadata of a message. -/
def metaStr (m : Message P) : Bytes :=
  C.ser m.payload (m.send.map Bulk.desc)

/-- The metadata of the message is read back as it was written. -/
def Reads (m : Message P) : Prop :=
  C.de (C.metaStr m) = some (m.payload, m.send.map Bulk.desc)

/-- The metadata of a message is read back, and its length fits the prefix. -/
structure Sound (m : Message P) : Prop where
  reads : C.Reads m
  short : (C.metaStr m).length < 2 ^ 32

end Codec

end Lightbeam
end IowarpCore
