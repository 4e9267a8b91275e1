/-
Demand paging of GPU memory: gpu_vmm.cu, `GpuVirtualMemoryManager`.

What a page holds is a value of a type `γ`.  The driver, the copies and the blob store are
outside: a `Driver` says what each call answers for each page, and the functions here say what
becomes of the table, of the stores and of the pages themselves.

A transfer on `transfer_stream_` reads its source when it runs, and it runs when the stream is
synchronized.  The stream is made by `cudaStreamCreate`, so that the default stream waits for
it: a `cudaMemcpy` and the fill kernel of `touchPage` run what is queued before them.

Allocation handles and the logs are not modelled: no answer depends on them.  The page size is
that of the table after `init`, and without `WRP_CTE_AVAILABLE` `use_cte_` is false.
-/
import Mathlib.Logic.Function.Basic

namespace IowarpCore
namespace Uvm

abbrev CUresult := UInt32

/-- `CUDA_SUCCESS`. -/
abbrev success : CUresult := 0
/-- `CUDA_ERROR_INVALID_VALUE`. -/
abbrev invalidValue : CUresult := 1
/-- `CUDA_ERROR_OUT_OF_MEMORY`. -/
abbrev outOfMemory : CUresult := 2

/-! ### Data -/

structure PageEntry where
  mapped : Bool := false
  evictedToHost : Bool := false
deriving DecidableEq, Repr

/-- What is fixed by `init`. -/
structure Config (γ : Type) where
  pageSize : UInt64
  totalPages : Nat
  /-- What a page filled with `fill_value_` holds. -/
  fillValue : γ
  prefetchWindow : Nat
  useCte : Bool

/-- A transfer queued on `transfer_stream_`, by where it reads. -/
inductive Transfer where
  /-- The host buffer of the page. -/
  | fromHost (page : Nat)
  /-- A buffer in shared memory that was freed after the transfer was queued. -/
  | fromFreed (page : Nat)
  /-- The fill kernel, which reads nothing. -/
  | fill (page : Nat)
deriving DecidableEq, Repr

def Transfer.page : Transfer → Nat
  | .fromHost page => page
  | .fromFreed page => page
  | .fill page => page

/-- What the calls made during one operation answer, by page. -/
structure Driver (γ : Type) where
  /-- `cuMemCreate`, `cuMemMap`, `cuMemSetAccess`, `cuMemUnmap` and `cuMemRelease`. -/
  create : Nat → CUresult
  map : Nat → CUresult
  setAccess : Nat → CUresult
  unmap : Nat → CUresult
  release : Nat → CUresult
  /-- `cudaMallocHost`. -/
  mallocHost : Nat → Bool
  /-- The copy or the fill kernel on the default stream. -/
  copy : Nat → Bool
  /-- The copy or the fill kernel on `transfer_stream_`. -/
  transfer : Nat → Bool
  /-- `AsyncPutBlob` and `AsyncGetBlob`, after `Wait`. -/
  put : Nat → Bool
  get : Nat → Bool
  /-- What memory holds that nothing was written to. -/
  junk : Nat → γ

structure Vmm (γ : Type) where
  pageTable : Nat → PageEntry
  hostBackingStore : Nat → Option γ
  transferStream : List Transfer
  /-- The blobs of `cte_tag_`. -/
  blobs : Nat → Option γ
  /-- The pages mapped in the driver, with what they hold. -/
  device : Nat → Option γ

variable {γ : Type}

/-- The manager after `init`; the tag may have blobs from before. -/
def Vmm.init (blobs : Nat → Option γ) : Vmm γ :=
  { pageTable := fun _ => {}
    hostBackingStore := fun _ => none
    transferStream := []
    blobs := blobs
    device := fun _ => none }

namespace Vmm

def setEntry (v : Vmm γ) (page : Nat) (entry : PageEntry) : Vmm γ :=
  { v with pageTable := Function.update v.pageTable page entry }

/-- `entry.evicted_to_host = false`. -/
def clearEvicted (v : Vmm γ) (page : Nat) : Vmm γ :=
  v.setEntry page { v.pageTable page with evictedToHost := false }

/-- Contents written to a page; a page that is not mapped takes none. -/
def load (v : Vmm γ) (page : Nat) (contents : γ) : Vmm γ :=
  { v with device := Function.update v.device page ((v.device page).map fun _ => contents) }

def enqueue (v : Vmm γ) (t : Transfer) : Vmm γ :=
  { v with transferStream := v.transferStream ++ [t] }

end Vmm

/-! ### Calls of the driver -/

section

variable (c : Config γ) (d : Driver γ) (v : Vmm γ)

/-- A page is not mapped twice. -/
def cuMemMap (page : Nat) : CUresult × Vmm γ :=
  if d.map page ≠ success then (d.map page, v)
  else if (v.device page).isSome then (invalidValue, v)
  else (success, { v with device := Function.update v.device page (some (d.junk page)) })

/-- A page is not unmapped twice. -/
def cuMemUnmap (page : Nat) : CUresult × Vmm γ :=
  if d.unmap page ≠ success then (d.unmap page, v)
  else if (v.device page).isNone then (invalidValue, v)
  else (success, { v with device := Function.update v.device page none })

/-- What a queued transfer writes when it runs. -/
def transferred : Transfer → γ
  | .fromHost page => (v.hostBackingStore page).getD (d.junk page)
  | .fromFreed page => d.junk page
  | .fill _ => c.fillValue

def runTransfer (t : Transfer) : Vmm γ :=
  if d.transfer t.page then v.load t.page (transferred c d v t) else v

/-- `syncTransfer`, and every other call that waits for the stream. -/
def syncTransfer : Vmm γ :=
  v.transferStream.foldl (runTransfer c d) { v with transferStream := [] }

/-- A copy to a page, or the fill kernel and the synchronization after it, on the default
stream. -/
def copyToDevice (page : Nat) (contents : γ) : Vmm γ :=
  let v := syncTransfer c d v
  if d.copy page then v.load page contents else v

/-! ### Touching -/

/-- `mapAndBackPage_`. -/
def mapAndBackPage (page : Nat) : CUresult × Vmm γ :=
  if d.create page ≠ success then (d.create page, v)
  else
    let (res, mapped) := cuMemMap d v page
    if res ≠ success then (res, mapped)
    else if d.setAccess page ≠ success then
      -- what `cuMemUnmap` answers here is not looked at
      (d.setAccess page, (cuMemUnmap d mapped page).2)
    else (success, mapped.setEntry page { mapped.pageTable page with mapped := true })

/-- `touchPageAsync`. -/
def touchPageAsync (page : Nat) : CUresult × Vmm γ :=
  if c.totalPages ≤ page then (invalidValue, v)
  else if (v.pageTable page).mapped then (success, v)
  else
    let (res, v) := mapAndBackPage d v page
    if res ≠ success then (res, v)
    else if c.useCte && (v.pageTable page).evictedToHost then
      -- the shared-memory buffer is freed when the copy has only been queued
      (success, (v.enqueue (.fromFreed page)).clearEvicted page)
    else if (v.pageTable page).evictedToHost && (v.hostBackingStore page).isSome then
      (success, (v.enqueue (.fromHost page)).clearEvicted page)
    else (success, (v.enqueue (.fill page)).clearEvicted page)

/-- The loop of `prefetchAhead`, with what is left of the window. -/
def prefetchFrom : Nat → Nat → Vmm γ → Vmm γ
  | 0, _, v => v
  | n + 1, target, v =>
    if c.totalPages ≤ target then v
    else if (v.pageTable target).mapped then prefetchFrom n (target + 1) v
    else prefetchFrom n (target + 1) (touchPageAsync c d v target).2

/-- `prefetchAhead`. -/
def prefetchAhead (page : Nat) : Vmm γ := prefetchFrom c d c.prefetchWindow (page + 1) v

/-- What `touchPage` does with a page it has mapped. -/
def restorePage (page : Nat) : Vmm γ :=
  if c.useCte && (v.pageTable page).evictedToHost then
    -- the return code of the get is not looked at
    let shm := if d.get page then (v.blobs page).getD (d.junk page) else d.junk page
    (copyToDevice c d v page shm).clearEvicted page
  else if (v.pageTable page).evictedToHost && (v.hostBackingStore page).isSome then
    let v := copyToDevice c d v page ((v.hostBackingStore page).getD (d.junk page))
    { v with hostBackingStore := Function.update v.hostBackingStore page none }.clearEvicted page
  else (copyToDevice c d v page c.fillValue).clearEvicted page

/-- `touchPage`. -/
def touchPage (page : Nat) : CUresult × Vmm γ :=
  if c.totalPages ≤ page then (invalidValue, v)
  else if (v.pageTable page).mapped then (success, v)
  else
    let (res, v) := mapAndBackPage d v page
    if res ≠ success then (res, v)
    else (success, prefetchAhead c d (restorePage c d v page) page)

end

/-- The loop of `touchRange`, with the number of pages that are left. -/
def touchPages (c : Config γ) (d : Nat → Driver γ) : Nat → Nat → Vmm γ → CUresult × Vmm γ
  | 0, _, v => (success, v)
  | n + 1, i, v =>
    let (res, v) := touchPage c (d i) v i
    if res ≠ success then (res, v) else touchPages c d n (i + 1) v

/-- The first page of a range. -/
def firstPage (c : Config γ) (offset : UInt64) : Nat := (offset / c.pageSize).toNat

/-- The last page of a range. -/
def lastPage (c : Config γ) (offset size : UInt64) : Nat :=
  ((offset + size - 1) / c.pageSize).toNat

/-- `touchRange`; each page has the answers to its own touch. -/
def touchRange (c : Config γ) (d : Nat → Driver γ) (v : Vmm γ) (offset size : UInt64) :
    CUresult × Vmm γ :=
  if size = 0 then (success, v)
  else
    touchPages c d (lastPage c offset size + 1 - firstPage c offset) (firstPage c offset) v

/-! ### Evicting -/

section

variable (c : Config γ) (d : Driver γ) (v : Vmm γ)

/-- The host buffer of a page, given to the store that is used.  With the CTE no host buffer
is ever kept. -/
def storePage (page : Nat) (hostBuf : γ) : Vmm γ :=
  if c.useCte then
    -- the return code of the put is not looked at
    if d.put page then { v with blobs := Function.update v.blobs page (some hostBuf) } else v
  else { v with hostBackingStore := Function.update v.hostBackingStore page (some hostBuf) }

/-- The body of both evictions, which differ in the stream of the copy to the host; `moved`
says whether that copy succeeded. -/
def evictWith (moved : Bool) (page : Nat) : CUresult × Vmm γ :=
  if c.totalPages ≤ page then (invalidValue, v)
  else if !(v.pageTable page).mapped then (success, v)
  else if (v.hostBackingStore page).isNone && !d.mallocHost page then (outOfMemory, v)
  else
    let v := syncTransfer c d v
    -- a copy that fails leaves the buffer as it was, and is not noticed
    let hostBuf := if moved then (v.device page).getD (d.junk page)
      else (v.hostBackingStore page).getD (d.junk page)
    let (res, v) := cuMemUnmap d (storePage c d v page hostBuf) page
    if res ≠ success then (res, v)
    else if d.release page ≠ success then (d.release page, v)
    else (success, v.setEntry page ⟨false, true⟩)

/-- `evictPage`. -/
def evictPage (page : Nat) : CUresult × Vmm γ := evictWith c d v (d.copy page) page

/-- `evictPageAsync`; the stream is synchronized after the copy is queued. -/
def evictPageAsync (page : Nat) : CUresult × Vmm γ := evictWith c d v (d.transfer page) page

end

/-! ### Runs -/

/-- A call, with the answers it gets, or a change the user makes to a page. -/
inductive Op (γ : Type) where
  | touchPage (d : Driver γ) (page : Nat)
  | touchRange (d : Nat → Driver γ) (offset size : UInt64)
  | touchPageAsync (d : Driver γ) (page : Nat)
  | evictPage (d : Driver γ) (page : Nat)
  | evictPageAsync (d : Driver γ) (page : Nat)
  | syncTransfer (d : Driver γ)
  | write (page : Nat) (change : γ → γ)

/-- The manager, and what each page should hold: the fill value, with the changes made to the
page since. -/
structure Run (γ : Type) where
  vmm : Vmm γ
  last : Nat → γ

def Run.init (c : Config γ) (blobs : Nat → Option γ) : Run γ := ⟨.init blobs, fun _ => c.fillValue⟩

/-- A change to a page; only mapped pages can be changed. -/
def Run.write (r : Run γ) (page : Nat) (change : γ → γ) : Run γ :=
  if (r.vmm.pageTable page).mapped then
    { vmm := { r.vmm with
        device := Function.update r.vmm.device page ((r.vmm.device page).map change) }
      last := Function.update r.last page (change (r.last page)) }
  else r

/-- A call on the manager leaves what the pages should hold. -/
def Run.after (r : Run γ) (out : CUresult × Vmm γ) : CUresult × Run γ :=
  (out.1, { r with vmm := out.2 })

def step (c : Config γ) (r : Run γ) : Op γ → CUresult × Run γ
  | .touchPage d page => r.after (touchPage c d r.vmm page)
  | .touchRange d offset size => r.after (touchRange c d r.vmm offset size)
  | .touchPageAsync d page => r.after (touchPageAsync c d r.vmm page)
  | .evictPage d page => r.after (evictPage c d r.vmm page)
  | .evictPageAsync d page => r.after (evictPageAsync c d r.vmm page)
  | .syncTransfer d => r.after (success, syncTransfer c d r.vmm)
  | .write page change => (success, r.write page change)

end Uvm
end IowarpCore
