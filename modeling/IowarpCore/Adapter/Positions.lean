/-
Open files of the adapter and their positions: the stateful calls of `filesystem.h`.

`st_ptr_` is the position.  Its largest value stands for append mode: `Open` sets it for a file
opened with `WRP_CTE_FS_APPEND`, and so does a `Seek` to the very end.  The end of the file is
taken from `file_size_`, which `Open` and `GetSize` set.  The log line of `Write` has a
`GetSize` in it, which a build with `kDebug` messages carries out and any other one does not.

Here a put may be refused, with which `Write` returns.  A refused put leaves its blob as it was:
that a `PutBlob` which fails can change the blob first is left to the core's model.  The bypass
mode is left out.
-/
import IowarpCore.Adapter.Filesystem

namespace IowarpCore
namespace Adapter

namespace Blobs

/-- The loop of `Write` from its round `k` on: the blobs, the bytes written, and whether it came
to its end.  `puts k` is whether the put of round `k` is accepted. -/
def putLoop (ps : PageSize) (junk : Junk) (puts : Nat → Bool) :
    Nat → Nat → Blobs → Nat → Bytes → Blobs × Nat × Bool
  | 0, _, b, _, _ => (b, 0, true)
  | fuel + 1, k, b, off, data =>
    if data = [] then (b, 0, true)
    else
      let page := off / ps.bytes
      let pageOffset := off % ps.bytes
      let n := min (ps.bytes - pageOffset) data.length
      if puts k then
        let rest := putLoop ps junk puts fuel (k + 1)
          (b.putBlob junk (.page page) (data.take n) pageOffset) (off + n) (data.drop n)
        (rest.1, n + rest.2.1, rest.2.2)
      else (b, 0, false)

end Blobs

/-- An open file. -/
structure Handle where
  file : File
  /-- `WRP_CTE_FS_APPEND` is set. -/
  append : Bool

/-- `hflags_`. -/
structure OpenFlags where
  append : Bool
  trunc : Bool
  readable : Bool

/-- `Open` of a file whose tag has these blobs. -/
def openFile (ps : PageSize) (blobs : Blobs) (flags : OpenFlags) (backendSize : Nat) : Handle where
  file :=
    { stat :=
        { pageSize := ps
          stPtr := if flags.append then sizeMax else 0
          fileSize := if flags.trunc then 0 else backendSize
          readable := flags.readable }
      blobs := blobs }
  append := flags.append

inductive SeekMode where
  | set
  | current
  | «end»
deriving DecidableEq, Repr

/-- `(size_t)x`. -/
def toSizeT (x : Int) : Nat := (x % 2 ^ 64).toNat

inductive HandleCall where
  | write (junk : Junk) (puts : Nat → Bool) (data : Bytes)
  | read (size : Nat)
  | seek (whence : SeekMode) (offset : Int)
  | tell

namespace Handle

variable (h : Handle)

/-- `Tell`. -/
def tell : Nat :=
  if h.file.stat.stPtr ≠ sizeMax then h.file.stat.stPtr else h.file.stat.fileSize

def setPtr (ptr : Nat) : Handle :=
  { h with file := { h.file with stat := { h.file.stat with stPtr := ptr } } }

/-- Where `Write` puts its data, when it is called with the position for an offset. -/
def writeStart : Nat :=
  let isAppend := h.file.stat.stPtr = sizeMax
  let off := h.file.stat.stPtr
  if isAppend then h.file.stat.fileSize else off

/-- `Write`, and how many bytes it reports.  `debug` is whether the build has debug messages. -/
def write (debug : Bool) (junk : Junk) (puts : Nat → Bool) (data : Bytes) : Handle × Nat :=
  let off := h.writeStart
  let r := h.file.blobs.putLoop h.file.stat.pageSize junk puts data.length 0 off data
  let written : Handle := { h with file := { h.file with blobs := r.1 } }
  if r.2.2 then
    let moved := written.setPtr (off + data.length)
    (if debug then { moved with file := moved.file.getSize.1 } else moved, data.length)
  else (written, r.2.1)

/-- `Read`. -/
def read (size : Nat) : Handle × ReadResult :=
  let r := h.file.read h.file.stat.stPtr size true
  ({ h with file := r.1 }, r.2)

/-- `Seek`, and the offset it returns. -/
def seek (whence : SeekMode) (offset : Int) : Handle × Nat :=
  match whence with
  | .set => (h.setPtr (toSizeT offset), toSizeT offset)
  | .current =>
    let ptr := if h.file.stat.stPtr ≠ sizeMax then toSizeT (h.file.stat.stPtr + offset)
      else toSizeT (h.file.stat.fileSize + offset)
    (h.setPtr ptr, ptr)
  | .end =>
    if offset = 0 then (h.setPtr sizeMax, h.file.stat.fileSize)
    else
      let ptr := toSizeT (h.file.stat.fileSize + offset)
      (h.setPtr ptr, ptr)

/-- One call. -/
def call (debug : Bool) : HandleCall → Handle
  | .write junk puts data => (h.write debug junk puts data).1
  | .read size => (h.read size).1
  | .seek whence offset => (h.seek whence offset).1
  | .tell => h

end Handle

end Adapter
end IowarpCore
