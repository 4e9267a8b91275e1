/-
Files of the filesystem adapter and of FUSE, in blobs of pages.

Follows `Filesystem::Write`, `BaseRead`, `AWrite`, `ARead`, `Wait` and `GetSize` of
`filesystem.h`, and `cte_fuse_read`, `cte_fuse_write` and the size in `cte_fuse_getattr` of
`fuse_cte.cc`.  Page `i` of a file is the blob named `std::to_string(i)` of its tag; the
asynchronous calls use a blob named as the file.  A path is absolute, so that name is none of
a page.

The blob store is a finite map.  A put replaces the bytes of its range and extends the blob
with bytes nobody specified, which come with the call.  A get that reaches past the end of
the blob fails, and so do gets and puts of nothing.  The size of a tag is the sum over its
blobs.

All calls on a file use one page size, through either front end; two processes configured with
different ones are not modelled.

File offsets are `off_t` and sizes are at most `SSIZE_MAX`, so their sums do not wrap.  The
bypass mode, in which the calls go to the backend, is left out, and so is what MPI is told of
an operation.
-/
import IowarpCore.Lib.AMap
import IowarpCore.Lib.ByteFile

namespace IowarpCore
namespace Adapter

/-- A page size: not zero. -/
structure PageSize where
  bytes : Nat
  pos : 0 < bytes
deriving DecidableEq, Repr

/-- The largest `size_t`. -/
def sizeMax : Nat := 2 ^ 64 - 1

/-- `INT_MAX`. -/
def intMax : Nat := 2 ^ 31 - 1

/-! ### Blobs of a tag -/

inductive BlobName where
  | page (index : Nat)
  /-- `stat.path_`. -/
  | path
deriving DecidableEq, Repr

abbrev Blobs := AMap BlobName Bytes

/-- The bytes that a call leaves unspecified, by page and position. -/
abbrev Junk := BlobName → Nat → UInt8

namespace Blobs

def putBlob (b : Blobs) (junk : Junk) (name : BlobName) (data : Bytes) (off : Nat) : Blobs :=
  if data = [] then b
  else b.insertOrAssign name (patch (junk name) off data ((b.find? name).getD []))

def getBlob (b : Blobs) (name : BlobName) (size off : Nat) : Option Bytes :=
  (b.find? name).bind fun blob =>
    if 0 < size ∧ off + size ≤ blob.length then some ((blob.drop off).take size) else none

/-- `GetTagSize`. -/
def tagSize (b : Blobs) : Nat :=
  (b.entries.map fun e => e.2.length).sum

/-- The loop of `Write` and of `cte_fuse_write`, for the data that is left. -/
def writeLoop (ps : PageSize) (junk : Junk) : Nat → Blobs → Nat → Bytes → Blobs
  | 0, b, _, _ => b
  | fuel + 1, b, off, data =>
    if data = [] then b
    else
      let page := off / ps.bytes
      let pageOffset := off % ps.bytes
      let n := min (ps.bytes - pageOffset) data.length
      writeLoop ps junk fuel (b.putBlob junk (.page page) (data.take n) pageOffset) (off + n)
        (data.drop n)

/-- The loop of `BaseRead` and of `cte_fuse_read`: the bytes read, and whether it came to its
end. -/
def readLoop (ps : PageSize) (b : Blobs) : Nat → Nat → Nat → Bytes × Bool
  | 0, _, _ => ([], true)
  | fuel + 1, off, size =>
    if size = 0 then ([], true)
    else
      let page := off / ps.bytes
      let pageOffset := off % ps.bytes
      let n := min (ps.bytes - pageOffset) size
      match b.getBlob (.page page) n pageOffset with
      | none => ([], false)
      | some data =>
        let rest := readLoop ps b fuel (off + n) (size - n)
        (data ++ rest.1, rest.2)

end Blobs

/-! ### The adapter -/

/-- `AdapterStat`. -/
structure AdapterStat where
  pageSize : PageSize
  stPtr : Nat
  fileSize : Nat
  /-- `WRP_CTE_FS_READ` is set. -/
  readable : Bool
deriving DecidableEq, Repr

/-- An open file and the blobs of its tag. -/
structure File where
  stat : AdapterStat
  blobs : Blobs

/-- What a read returns, and the bytes that are in the buffer then. -/
structure ReadResult where
  count : Nat
  data : Bytes
deriving DecidableEq, Repr

namespace File

/-- A new file, opened for reading and writing. -/
def opened (ps : PageSize) : File := ⟨⟨ps, 0, 0, true⟩, AMap.empty⟩

/-- `if (opts.DoSeek()) stat.st_ptr_ = ptr`. -/
def seekTo (s : File) (doSeek : Bool) (ptr : Nat) : File :=
  if doSeek then { s with stat := { s.stat with stPtr := ptr } } else s

/-- `Write`. -/
def write (s : File) (junk : Junk) (data : Bytes) (off : Nat) (doSeek : Bool) : File × Nat :=
  let isAppend := s.stat.stPtr = sizeMax
  let off := if isAppend then s.stat.fileSize else off
  let blobs := s.blobs.writeLoop s.stat.pageSize junk data.length off data
  (({ s with blobs := blobs } : File).seekTo doSeek (off + data.length), data.length)

/-- `Read`. -/
def read (s : File) (off size : Nat) (doSeek : Bool) : File × ReadResult :=
  if off = sizeMax then (s, ⟨0, []⟩)
  else if s.stat.readable = false then (s, ⟨sizeMax, []⟩)
  else if size = 0 then (s, ⟨0, []⟩)
  else
    let r := s.blobs.readLoop s.stat.pageSize size off size
    (if r.2 then s.seekTo doSeek (off + r.1.length) else s, ⟨r.1.length, r.1⟩)

/-- `GetSize`. -/
def getSize (s : File) : File × Nat :=
  ({ s with stat := { s.stat with fileSize := s.blobs.tagSize } }, s.blobs.tagSize)

end File

/-! ### FUSE -/

/-- `st_size` of `cte_fuse_getattr`. -/
def fuseSize (b : Blobs) : Nat := b.tagSize

/-- `cte_fuse_read`. -/
def fuseRead (ps : PageSize) (b : Blobs) (size off : Nat) : ReadResult :=
  let size := if size > intMax then intMax else size
  let fileSize := b.tagSize
  if off ≥ fileSize then ⟨0, []⟩
  else
    let size := if off + size > fileSize then fileSize - off else size
    let r := b.readLoop ps size off size
    ⟨r.1.length, r.1⟩

/-- `cte_fuse_write`. -/
def fuseWrite (ps : PageSize) (b : Blobs) (junk : Junk) (data : Bytes) (off : Nat) : Blobs × Nat :=
  let data := if data.length > intMax then data.take intMax else data
  (b.writeLoop ps junk data.length off data, data.length)

/-! ### Calls -/

inductive FrontEnd where
  | adapter
  | fuse
deriving DecidableEq, Repr

structure WriteCall where
  via : FrontEnd
  off : Nat
  data : Bytes
  doSeek : Bool
  junk : Junk
  off_lt : off < 2 ^ 63
  size_lt : data.length < 2 ^ 63

structure ReadCall where
  via : FrontEnd
  off : Nat
  size : Nat
  doSeek : Bool
  off_lt : off < 2 ^ 63
  size_lt : size < 2 ^ 63

inductive Call where
  | write (w : WriteCall)
  | read (r : ReadCall)

namespace File

/-- A write through either front end, and how many bytes it reports. -/
def writeVia (s : File) (w : WriteCall) : File × Nat :=
  match w.via with
  | .adapter => s.write w.junk w.data w.off w.doSeek
  | .fuse =>
    let r := fuseWrite s.stat.pageSize s.blobs w.junk w.data w.off
    ({ s with blobs := r.1 }, r.2)

/-- A read of a range through either front end. -/
def readVia (s : File) (via : FrontEnd) (off size : Nat) (doSeek : Bool) : File × ReadResult :=
  match via with
  | .adapter => s.read off size doSeek
  | .fuse => (s, fuseRead s.stat.pageSize s.blobs size off)

def call (s : File) : Call → File
  | .write w => (s.writeVia w).1
  | .read r => (s.readVia r.via r.off r.size r.doSeek).1

end File

/-! ### Asynchronous calls -/

/-- `FsAsyncTask`: what the blob store was asked for. -/
inductive FsAsyncTask where
  | put (junk : Junk) (data : Bytes) (off : Nat)
  | get (size off : Nat)

namespace File

/-- `AWrite`.  There always is a client: `WRP_CTE_CLIENT` makes one if there is none. -/
def aWrite (s : File) (junk : Junk) (data : Bytes) (off : Nat) (_doSeek : Bool) :
    File × FsAsyncTask :=
  (s, .put junk data off)

/-- `ARead`. -/
def aRead (s : File) (off size : Nat) (_doSeek : Bool) : File × FsAsyncTask :=
  (s, .get size off)

/-- `Wait`: the operation is carried out by then.  Of a read that failed, nothing is counted
and nothing copied. -/
def wait (s : File) : FsAsyncTask → File × ReadResult
  | .put junk data off => ({ s with blobs := s.blobs.putBlob junk .path data off }, ⟨0, []⟩)
  | .get size off =>
    match s.blobs.getBlob .path size off with
    | some data => (s, ⟨size, data⟩)
    | none => (s, ⟨0, []⟩)

end File

end Adapter
end IowarpCore
