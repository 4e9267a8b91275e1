/-
The buddy allocator, `hshm::ipc::_BuddyAllocator`, with the bump heap and the intrusive
free lists it uses.

Offsets and sizes are `size_t`: `wrap` is the remainder modulo `2 ^ 64`, written where a
request can make a sum or a difference leave the range.  The memory is read and written
through page headers only, so it is a header for each offset; the first word of a header
links the free lists.  The logarithms the source takes in floating point are exact on the
sizes for which a result within the range of the lists is used.

A walk along a free list that does not end is `none`.
-/
import Mathlib.Data.Nat.Log
import IowarpCore.Shm.RbTree

namespace IowarpCore
namespace Shm

def wrap (n : Nat) : Nat := n % 2 ^ 64

/-- `BuddyPage`: the header in front of every page. -/
structure BuddyPage where
  next : OffsetPtr
  size : Nat
  deriving DecidableEq, Repr

namespace BuddyPage

/-- `sizeof(BuddyPage)`. -/
def kHeader : Nat := 16

def kFreeMask : Nat := 2 ^ 63

def getSize (p : BuddyPage) : Nat := p.size % kFreeMask

def markFree (p : BuddyPage) : BuddyPage := { p with size := p.size % kFreeMask + kFreeMask }

def markAllocated (p : BuddyPage) : BuddyPage := { p with size := p.size % kFreeMask }

end BuddyPage

open BuddyPage (kHeader)

/-! ### The bump heap -/

structure Heap where
  heap : Nat
  maxOffset : Nat
  deriving DecidableEq, Repr

/-- `Heap::Allocate`: the offset, or 0. -/
def Heap.allocate (size : Nat) (h : Heap) : Nat × Heap :=
  if wrap (h.heap + size) > h.maxOffset then (0, h)
  else
    let off := h.heap
    let endOff := wrap (off + size)
    if endOff > h.maxOffset then (0, ⟨endOff, endOff⟩)
    else (off, { h with heap := endOff })

/-! ### The allocator -/

def kMinSize : Nat := 32

def kSmallThreshold : Nat := 16384

def kMinLog2 : Nat := 5

def kSmallLog2 : Nat := 14

def kMaxLog2 : Nat := 20

def kMaxSmallPages : Nat := 10

def kMaxLargePages : Nat := 6

def kSmallArenaSize : Nat := 65536

def kSmallArenaPages : Nat := 128

/-- `pre::slist`: the counter and the head. -/
structure Slist where
  size : Nat
  head : OffsetPtr
  deriving DecidableEq, Repr

/-- `small_pages_[i]` and `large_pages_[i]`. -/
inductive ListId where
  | small (i : Nat)
  | large (i : Nat)
  deriving DecidableEq, Repr

structure Buddy where
  bigHeap : Heap
  smallArena : Heap
  lists : ListId → Slist
  regions : Slist
  mem : Offset → BuddyPage

namespace Buddy

/-- Before the first `Expand`. -/
def init (mem : Offset → BuddyPage) : Buddy :=
  ⟨⟨0, 0⟩, ⟨0, 0⟩, fun _ => ⟨0, none⟩, ⟨0, none⟩, mem⟩

/-- A write through a header. -/
def writePage (off : Offset) (f : BuddyPage → BuddyPage) (s : Buddy) : Buddy :=
  { s with mem := fun o => if o = off then f (s.mem o) else s.mem o }

def setList (id : ListId) (l : Slist) (s : Buddy) : Buddy :=
  { s with lists := fun i => if i = id then l else s.lists i }

/-! ### Free lists -/

/-- `slist::emplace`. -/
def emplace (id : ListId) (off : Offset) (s : Buddy) : Buddy :=
  (s.writePage off fun p => { p with next := (s.lists id).head }).setList id
    ⟨(s.lists id).size + 1, some off⟩

/-- `slist::pop`. -/
def pop (id : ListId) (s : Buddy) : OffsetPtr × Buddy :=
  if (s.lists id).size = 0 then (none, s)
  else
    match (s.lists id).head with
    | none => (none, s.setList id { s.lists id with size := 0 })
    | some head => (some head, s.setList id ⟨(s.lists id).size - 1, (s.mem head).next⟩)

/-- `slist::PopAt`, for an iterator at `curr` that came from `prev`. -/
def popAt (id : ListId) (prev : OffsetPtr) (curr : Offset) (s : Buddy) : Buddy :=
  if (s.lists id).size = 0 then s
  else
    match prev with
    | none => s.setList id ⟨(s.lists id).size - 1, (s.mem curr).next⟩
    | some prev =>
      (s.writePage prev fun p => { p with next := (s.mem curr).next }).setList id
        { s.lists id with size := (s.lists id).size - 1 }

/-- The loop of `FindFirstFit`. -/
def fitLoop (id : ListId) (requiredSize : Nat) (s : Buddy) :
    Nat → OffsetPtr → OffsetPtr → Option (Nat × Buddy)
  | 0, _, _ => none
  | _ + 1, _, none => some (0, s)
  | fuel + 1, prev, some curr =>
    let pageTotalSize := (s.mem curr).getSize + kHeader
    if pageTotalSize ≥ requiredSize then some (curr, s.popAt id prev curr)
    else s.fitLoop id requiredSize fuel (some curr) (s.mem curr).next

/-- `FindFirstFit`: the page it took off the list, or 0. -/
def findFirstFit (listIdx requiredSize : Nat) (s : Buddy) : Option (Nat × Buddy) :=
  if (s.lists (.large listIdx)).size = 0 then some (0, s)
  else s.fitLoop (.large listIdx) requiredSize ((s.lists (.large listIdx)).size + 1) none
    (s.lists (.large listIdx)).head

/-! ### Size classes -/

/-- `GetSmallPageListIndexForAlloc`: the list and the rounded-up size. -/
def getSmallPageListIndexForAlloc (allocSize : Nat) : Nat × Nat :=
  if allocSize ≤ kMinSize then (0, kMinSize)
  else
    let log2 := Nat.clog 2 allocSize
    if log2 < kMinLog2 then (0, kMinSize)
    else if log2 > kSmallLog2 then (kMaxSmallPages - 1, kSmallThreshold)
    else (log2 - kMinLog2, 2 ^ log2)

/-- `GetSmallPageListIndexForFree`. -/
def getSmallPageListIndexForFree (size : Nat) : Nat :=
  if size ≤ kMinSize then 0
  else
    let log2 := Nat.log 2 size
    if log2 < kMinLog2 then 0
    else if log2 > kSmallLog2 then kMaxSmallPages - 1
    else log2 - kMinLog2

/-- `GetLargePageListIndexForAlloc`. -/
def getLargePageListIndexForAlloc (size : Nat) : Nat :=
  if size ≤ kSmallThreshold then 0
  else
    let log2 := Nat.log 2 size
    if log2 ≤ kSmallLog2 then 0
    else if log2 > kMaxLog2 then kMaxLargePages - 1
    else log2 - kSmallLog2 - 1

/-- `GetLargePageListIndexForFree`. -/
def getLargePageListIndexForFree (size : Nat) : Nat := getLargePageListIndexForAlloc size

/-- The list for a free page with so many bytes of data. -/
def listForFree (dataSize : Nat) : ListId :=
  if dataSize ≤ kSmallThreshold then .small (getSmallPageListIndexForFree dataSize)
  else .large (getLargePageListIndexForFree dataSize)

/-! ### Pages -/

/-- Make a free page and put it on a list. -/
def addFreePage (id : ListId) (off dataSize : Nat) (s : Buddy) : Buddy :=
  (s.writePage off fun _ => BuddyPage.markFree ⟨none, dataSize⟩).emplace id off

/-- `AddRemainderToFreeList`. -/
def addRemainderToFreeList (pageOffset totalSize : Nat) (s : Buddy) : Buddy :=
  let dataSize := wrap (totalSize + (2 ^ 64 - kHeader))
  s.addFreePage (listForFree dataSize) pageOffset dataSize

/-- `FinalizeAllocation`: the offset behind the header. -/
def finalizeAllocation (pageOffset userSize : Nat) (s : Buddy) : Nat × Buddy :=
  (pageOffset + kHeader,
    s.writePage pageOffset fun p => BuddyPage.markAllocated { p with size := userSize })

/-- The pages of one size class that `DivideArenaIntoPages` makes. -/
def divideClass (i : Nat) : Nat → Nat → Buddy → Buddy
  | 0, _, s => s
  | n + 1, off, s =>
    divideClass i n (off + (2 ^ (i + kMinLog2) + kHeader))
      (s.addFreePage (.small i) off (2 ^ (i + kMinLog2)))

/-- The loop of `DivideArenaIntoPages` over the classes below `i`.  Its inner loop makes as
many pages as fit. -/
def divideLoop : Nat → Nat → Nat → Buddy → Buddy
  | 0, _, _, s => s
  | i + 1, off, remaining, s =>
    let total := 2 ^ (i + kMinLog2) + kHeader
    let n := remaining / total
    divideLoop i (off + n * total) (remaining - n * total) (s.divideClass i n off)

/-- `DivideArenaIntoPages`: what becomes of the heap it divides, and the allocator. -/
def divideArenaIntoPages (h : Heap) (s : Buddy) : Heap × Buddy :=
  let remaining := wrap (h.maxOffset + (2 ^ 64 - h.heap))
  if remaining = 0 then (h, s)
  else (⟨h.maxOffset, h.maxOffset⟩, s.divideLoop kMaxSmallPages h.heap remaining)

/-! ### Allocation -/

/-- The search of `RepopulateSmallArena` through the large lists that are left. -/
def arenaFromLists (arenaSize : Nat) : Nat → Buddy → Option (Bool × Buddy)
  | 0, s => some (false, s)
  | n + 1, s => do
      let (offset, s) ← s.findFirstFit (kMaxLargePages - (n + 1)) arenaSize
      if offset ≠ 0 then some (true, { s with smallArena := ⟨offset, offset + arenaSize⟩ })
      else arenaFromLists arenaSize n s

/-- `RepopulateSmallArena`, for an arena of any size. -/
def repopulateArena (arenaSize : Nat) (s : Buddy) : Option (Bool × Buddy) :=
  let (arena, s) := s.divideArenaIntoPages s.smallArena
  let s := { s with smallArena := arena }
  let (heapOffset, big) := s.bigHeap.allocate arenaSize
  let s := { s with bigHeap := big }
  if heapOffset ≠ 0 then
    some (true, { s with smallArena := ⟨heapOffset, heapOffset + arenaSize⟩ })
  else s.arenaFromLists arenaSize kMaxLargePages

/-- `RepopulateSmallArena`. -/
def repopulateSmallArena (s : Buddy) : Option (Bool × Buddy) :=
  s.repopulateArena (kSmallArenaSize + kSmallArenaPages * kHeader)

/-- The last resort of both kinds of allocation. -/
def allocateFromHeap (size totalSize : Nat) (s : Buddy) : OffsetPtr × Buddy :=
  let (heapOffset, big) := s.bigHeap.allocate totalSize
  let s := { s with bigHeap := big }
  if heapOffset ≠ 0 then
    let (ptr, s) := s.finalizeAllocation heapOffset size
    (some ptr, s)
  else (none, s)

/-- `AllocateSmall` from the list of a class, if it has a page. -/
def allocateFromList (listIdx size : Nat) (s : Buddy) : OffsetPtr × Buddy :=
  if (s.lists (.small listIdx)).size = 0 then (none, s)
  else
    match s.pop (.small listIdx) with
    | (none, s) => (none, s)
    | (some page, s) =>
      let (ptr, s) := s.finalizeAllocation page size
      (some ptr, s)

/-- `AllocateSmall`. -/
def allocateSmall (size : Nat) (s : Buddy) : Option (OffsetPtr × Buddy) :=
  let (listIdx, size) := getSmallPageListIndexForAlloc size
  match s.allocateFromList listIdx size with
  | (some ptr, s) => some (some ptr, s)
  | (none, s) =>
    let totalSize := size + kHeader
    let (arenaOffset, arena) := s.smallArena.allocate totalSize
    let s := { s with smallArena := arena }
    if arenaOffset ≠ 0 then
      let (ptr, s) := s.finalizeAllocation arenaOffset size
      some (some ptr, s)
    else do
      let (repopulated, s) ← s.repopulateSmallArena
      if repopulated then
        match s.allocateFromList listIdx size with
        | (some ptr, s) => some (some ptr, s)
        | (none, s) => some (s.allocateFromHeap size totalSize)
      else some (s.allocateFromHeap size totalSize)

/-- The loop of `AllocateLarge`, which searches the same list in every pass. -/
def allocateLargeLoop (listIdx size totalSize : Nat) : Nat → Buddy → Option (OffsetPtr × Buddy)
  | 0, s => some (s.allocateFromHeap size totalSize)
  | n + 1, s => do
      let (foundOffset, s) ← s.findFirstFit listIdx totalSize
      if foundOffset ≠ 0 then
        let pageTotalSize := (s.mem foundOffset).getSize + kHeader
        let s :=
          if pageTotalSize > totalSize then
            s.addRemainderToFreeList (foundOffset + totalSize) (pageTotalSize - totalSize)
          else s
        let (ptr, s) := s.finalizeAllocation foundOffset size
        some (some ptr, s)
      else allocateLargeLoop listIdx size totalSize n s

/-- `AllocateLarge`. -/
def allocateLarge (size : Nat) (s : Buddy) : Option (OffsetPtr × Buddy) :=
  let listIdx := getLargePageListIndexForAlloc size
  allocateLargeLoop listIdx size (wrap (size + kHeader)) (kMaxLargePages - listIdx) s

/-- The size `AllocateOffset` rounds a request up to. -/
def roundUp (requestedSize : Nat) : Nat := wrap (max requestedSize kMinSize + 7) / 8 * 8

/-- `AllocateOffset`. -/
def allocateOffset (requestedSize : Nat) (s : Buddy) : Option (OffsetPtr × Buddy) :=
  let size := roundUp requestedSize
  if size ≤ kSmallThreshold then s.allocateSmall size else s.allocateLarge size

/-- `FreeOffsetNoNullCheck`. -/
def freeOffset (offset : Offset) (s : Buddy) : Buddy :=
  let page := offset - kHeader
  let dataSize := (s.mem page).getSize
  let s := s.writePage page fun p => { p.markFree with next := none }
  s.emplace (listForFree dataSize) page

/-- `ReallocateOffset`, of a pointer that is not null.  `memcpy` fills the new page. -/
def reallocateOffset (offset : Offset) (newSize : Nat) (s : Buddy) :
    Option (OffsetPtr × Buddy) :=
  let oldSize := (s.mem (offset - kHeader)).getSize
  if newSize ≤ oldSize then some (some offset, s)
  else do
    let (newOffset, s) ← s.allocateOffset newSize
    match newOffset with
    | none => some (none, s)
    | some newOffset => some (some newOffset, s.freeOffset offset)

/-- `Expand`. -/
def expand (region regionSize : Nat) (s : Buddy) : Buddy :=
  if regionSize = 0 then s
  else
    let s := { s with
      mem := fun o => if o = region then ⟨s.regions.head, regionSize⟩ else s.mem o
      regions := ⟨s.regions.size + 1, some region⟩ }
    let region := wrap (region + kHeader)
    let regionSize := wrap (regionSize + (2 ^ 64 - kHeader))
    let (_, s) := s.divideArenaIntoPages s.bigHeap
    { s with bigHeap := ⟨region, wrap (region + regionSize)⟩ }

end Buddy

/-! ### Use -/

/-- What is asked of an allocator. -/
inductive BuddyOp where
  | allocate (size : Nat)
  | reallocate (ptr : OffsetPtr) (newSize : Nat)
  | free (ptr : OffsetPtr)
  | expand (region regionSize : Nat)
  deriving DecidableEq, Repr

/-- An allocator in use: the pointers it has returned and not got back, with the sizes that
were asked for, and the regions it was given. -/
structure BuddyUse where
  alloc : Buddy
  live : List (Offset × Nat)
  regions : List (Nat × Nat)

namespace BuddyUse

def init (mem : Offset → BuddyPage) : BuddyUse := ⟨Buddy.init mem, [], []⟩

/-- `shm_init`, for a managed region of so many bytes. -/
def shmInit (dataOff dataSize : Nat) (mem : Offset → BuddyPage) : BuddyUse :=
  ⟨{ (Buddy.init mem).expand dataOff dataSize with smallArena := ⟨0, 0⟩ }, [],
    [(dataOff, dataSize)]⟩

/-- A pointer that is not in use any more. -/
def release (ptr : Offset) (live : List (Offset × Nat)) : List (Offset × Nat) :=
  live.eraseP fun entry => entry.1 = ptr

/-- A pointer was returned, or null. -/
def received (ptr : OffsetPtr) (size : Nat) (live : List (Offset × Nat)) : List (Offset × Nat) :=
  match ptr with
  | none => live
  | some ptr => (ptr, size) :: live

def step : BuddyOp → BuddyUse → Option BuddyUse
  | .allocate size, u | .reallocate none size, u => do
      let (ptr, s) ← u.alloc.allocateOffset size
      some { u with alloc := s, live := received ptr size u.live }
  | .reallocate (some old) newSize, u => do
      let (ptr, s) ← u.alloc.reallocateOffset old newSize
      match ptr with
      | none => some { u with alloc := s }
      | some ptr => some { u with alloc := s, live := (ptr, newSize) :: release old u.live }
  | .free none, u => some u
  | .free (some ptr), u =>
    some { u with alloc := u.alloc.freeOffset ptr, live := release ptr u.live }
  | .expand region regionSize, u =>
    some { u with
      alloc := u.alloc.expand region regionSize
      regions := (region, regionSize) :: u.regions }

def run : List BuddyOp → BuddyUse → Option BuddyUse
  | [], u => some u
  | op :: ops, u => (step op u).bind (run ops)

end BuddyUse

end Shm
end IowarpCore
