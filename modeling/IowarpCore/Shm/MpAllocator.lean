/-
The slow path of the multi-process allocator: `_MultiProcessAllocator` of mp_allocator.h.

Three buddy allocators stand one in the other.  The regions of a process are pages of the
global allocator, and those of a thread are pages of its process.  A level that runs out gets
a region of the level above and tries again.

A header is read by the level that wrote it and by no other, so each level has a memory of
its own here.  The thread has its `ThreadBlock`: `AllocateOffset` makes it before anything
else.  Locks are left out, since nothing here runs at the same time.
-/
import IowarpCore.Shm.BuddyAllocator

namespace IowarpCore
namespace Shm

open BuddyPage (kHeader)

namespace BuddyUse

/-- `AllocateOffset`: the pointer, which is in use then. -/
def take (size : Nat) (u : BuddyUse) : Option (OffsetPtr × BuddyUse) :=
  (u.alloc.allocateOffset size).map fun r =>
    (r.1, { u with alloc := r.2, live := received r.1 size u.live })

/-- `Expand`. -/
def grow (region regionSize : Nat) (u : BuddyUse) : BuddyUse :=
  { u with
    alloc := u.alloc.expand region regionSize
    regions := (region, regionSize) :: u.regions }

end BuddyUse

/-- The global allocator, and those of one process and of one of its threads. -/
structure MpAllocator where
  global : BuddyUse
  process : BuddyUse
  thread : BuddyUse

namespace MpAllocator

/-- `process_unit_`. -/
def processUnit : Nat := 16 * 1024 * 1024

/-- `thread_unit_`. -/
def threadUnit : Nat := 2 * 1024 * 1024

/-- `expand_size` of `AllocateOffsetFromPblock`. -/
def threadExpansion (size : Nat) : Nat :=
  let requiredSize := wrap (size + size / 4 + kHeader)
  if requiredSize > threadUnit then requiredSize else threadUnit

/-- `expand_size` of `AllocateOffsetFromGlobal`. -/
def processExpansion (size : Nat) : Nat :=
  let requiredSize := wrap (size + size / 4 + 3 * kHeader)
  if requiredSize > processUnit then requiredSize else processUnit

/-- `AllocateOffsetFromTblock`. -/
def allocateOffsetFromTblock (size : Nat) (m : MpAllocator) : Option (OffsetPtr × MpAllocator) :=
  match m.thread.take size with
  | none => none
  | some (ptr, thread) => some (ptr, { m with thread := thread })

/-- `AllocateOffsetFromPblock`. -/
def allocateOffsetFromPblock (size : Nat) (m : MpAllocator) : Option (OffsetPtr × MpAllocator) :=
  let expandSize := threadExpansion size
  match m.process.take expandSize with
  | none => none
  | some (none, process) => some (none, { m with process := process })
  | some (some expandOffset, process) =>
    allocateOffsetFromTblock size
      { m with process := process, thread := m.thread.grow expandOffset expandSize }

/-- `AllocateOffsetFromGlobal`. -/
def allocateOffsetFromGlobal (size : Nat) (m : MpAllocator) : Option (OffsetPtr × MpAllocator) :=
  let expandSize := processExpansion size
  match m.global.take expandSize with
  | none => none
  | some (none, global) => some (none, { m with global := global })
  | some (some expandPtr, global) =>
    allocateOffsetFromPblock size
      { m with global := global, process := m.process.grow expandPtr expandSize }

/-! ### Use -/

/-- A level got a page of the level above, or null; all but the first `skip` bytes of the page
become a region. -/
def passDown (size skip : Nat) (outer inner : BuddyUse) : Option (BuddyUse × BuddyUse) :=
  match outer.take size with
  | none => none
  | some (none, outer) => some (outer, inner)
  | some (some off, outer) => some (outer, inner.grow (off + skip) (size - skip))

end MpAllocator

/-- What any process or thread does to the three allocators, one step after another.  A region
begins behind a `ProcessBlock` or `ThreadBlock` where the page has one. -/
inductive MpOp where
  | expandGlobal (region regionSize : Nat)
  | takeGlobal (size : Nat)
  | growProcess (size skip : Nat)
  | takeProcess (size : Nat)
  | growThread (size skip : Nat)
  | takeThread (size : Nat)
  | freeThread (ptr : Offset)
  deriving DecidableEq, Repr

namespace MpAllocator

def init (mem : Offset → BuddyPage) : MpAllocator :=
  ⟨BuddyUse.init mem, BuddyUse.init mem, BuddyUse.init mem⟩

def step : MpOp → MpAllocator → Option MpAllocator
  | .expandGlobal region regionSize, m =>
    some { m with global := m.global.grow region regionSize }
  | .takeGlobal size, m => (m.global.take size).map fun r => { m with global := r.2 }
  | .growProcess size skip, m =>
    (passDown size skip m.global m.process).map fun r =>
      { m with global := r.1, process := r.2 }
  | .takeProcess size, m => (m.process.take size).map fun r => { m with process := r.2 }
  | .growThread size skip, m =>
    (passDown size skip m.process m.thread).map fun r =>
      { m with process := r.1, thread := r.2 }
  | .takeThread size, m => (m.thread.take size).map fun r => { m with thread := r.2 }
  | .freeThread ptr, m =>
    (BuddyUse.step (.free (some ptr)) m.thread).map fun u => { m with thread := u }

end MpAllocator

end Shm
end IowarpCore
