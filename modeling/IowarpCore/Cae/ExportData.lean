/-
`ExportData` of the context assimilation engine: the blobs of a tag in one file.

How the inner operations end is given from outside (`Outcomes`); the export itself goes on
after each of them.  HDF5 support is not compiled in, and the binary format is the other
branch.  A size query that fails leaves the task's `size_` at 0.
-/
import IowarpCore.Lib.AMap
import IowarpCore.Types

namespace IowarpCore

namespace ExportData

/-- What a blob holds; sizes are 64-bit words. -/
abbrev Content := { data : Bytes // data.length < 2 ^ 64 }

/-- The tags of the blob store, by name, with their blobs. -/
abbrev Store := AMap Bytes (AMap Bytes Content)

/-- How the inner operations of one export end. -/
structure Outcomes where
  getOrCreateTag : Bool
  isOpen : Bool
  getBlobSize : Bytes → Bool
  allocateBuffer : Bytes → Bool
  getBlob : Bytes → UInt32
  /-- how many bytes the file takes, if it does not take all -/
  room : Option Nat

/-- The output file while it is written.  A write that fails leaves the stream bad, so that the
later ones write nothing. -/
structure OFStream where
  file : Bytes
  room : Option Nat

def OFStream.write (ofs : OFStream) (data : Bytes) : OFStream :=
  match ofs.room with
  | none => { ofs with file := ofs.file ++ data }
  | some n => { ofs with file := (ofs.file ++ data).take n }

/-- The task's results, and the store and the output file behind it. -/
structure Exported where
  resultCode : UInt32
  errorMessage : String
  bytesExported : UInt64
  store : Store
  file : Option Bytes

/-- One blob of the binary format: the stream and the bytes exported so far. -/
def exportBlob (o : Outcomes) (s : OFStream × UInt64) (blob : Bytes × Content) :
    OFStream × UInt64 :=
  let (blobName, content) := blob
  let blobSize := if o.getBlobSize blobName then UInt64.ofNat content.1.length else 0
  if blobSize = 0 then s
  else if ¬ o.allocateBuffer blobName then s
  else if o.getBlob blobName = 0 then
    let nameLen := UInt32.ofNat blobName.length
    let ofs := s.1.write (writeU32 nameLen)
    let ofs := ofs.write (blobName.take nameLen.toNat)
    let ofs := ofs.write (writeU64 blobSize)
    let ofs := ofs.write content.1
    (ofs, s.2 + blobSize)
  else s

/-- `ExportData`, with what the output path held before. -/
def exportData (o : Outcomes) (store : Store) (existing : Option Bytes) (tagName : Bytes)
    (format : String) : Exported :=
  if ¬ o.getOrCreateTag then ⟨-1, "Tag not found", 0, store, existing⟩
  else
    let blobs := (store.find? tagName).getD AMap.empty
    let store := if store.contains tagName then store else store.insertOrAssign tagName AMap.empty
    if blobs.entries = [] then ⟨0, "", 0, store, existing⟩
    else if format = "hdf5" then ⟨-3, "HDF5 support not compiled in", 0, store, existing⟩
    else if ¬ o.isOpen then ⟨-2, "Failed to open output file", 0, store, existing⟩
    else
      let (ofs, bytesExported) := blobs.entries.foldl (exportBlob o) (⟨[], o.room⟩, 0)
      ⟨0, "", bytesExported, store, some ofs.file⟩

/-! ### The file read back -/

/-- Name length, name, data length, data. -/
def readRecord : Reader (Bytes × Bytes) := do
  let name ← readString
  let dataLen ← readU64
  let data ← readBytes dataLen.toNat
  return (name, data)

/-- Records up to the end of the file. -/
def parseFuel : Nat → Bytes → Option (List (Bytes × Bytes))
  | _, [] => some []
  | 0, _ => none
  | fuel + 1, file => do
    let (record, rest) ← readRecord.run file
    return record :: (← parseFuel fuel rest)

/-- A record is not empty, so the length of the file is fuel enough. -/
def parse (file : Bytes) : Option (List (Bytes × Bytes)) := parseFuel file.length file

end ExportData

end IowarpCore
