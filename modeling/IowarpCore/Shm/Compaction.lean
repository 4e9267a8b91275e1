/-
Compaction of a buddy allocator: `Compact` and the `ForwardingTable` it returns.

Compaction moves pages with what is in them, so the memory is a byte for each offset here,
and a header is the bytes that stand where it is looked for.  An allocator has written the
headers in front of its pages; the rest is the users'.

An offset is below `2 ^ 63`, and so is what a header says, so the sums are not wrapped.  The
scan is bounded by what it passes over, and `none` is a scan that did not end.
-/
import IowarpCore.Lib.Bytes
import IowarpCore.Shm.BuddyAllocator

namespace IowarpCore
namespace Shm

open BuddyPage (kHeader kFreeMask)

/-! ### Bytes -/

abbrev Memory := Nat → UInt8

namespace Memory

/-- The 8 bytes from `off` on, as a number. -/
def word (off : Nat) (m : Memory) : Nat := leNat ((List.range 8).map fun k => m (off + k))

def storeWord (off n : Nat) (m : Memory) : Memory := fun o =>
  if off ≤ o ∧ o < off + 8 then (leBytes 8 n).getD (o - off) 0 else m o

/-- `memmove`: the source is read before anything is written. -/
def memmove (dst src n : Nat) (m : Memory) : Memory := fun o =>
  if dst ≤ o ∧ o < dst + n then m (src + (o - dst)) else m o

/-- `size_` of the `BuddyPage` at `off`, behind the link. -/
def sizeField (off : Nat) (m : Memory) : Nat := m.word (off + 8)

/-- `GetSize`. -/
def getSize (off : Nat) (m : Memory) : Nat := m.sizeField off % kFreeMask

/-- `IsFree`. -/
def isFree (off : Nat) (m : Memory) : Bool := kFreeMask ≤ m.sizeField off

/-- `MarkAllocated`. -/
def markAllocated (off : Nat) (m : Memory) : Memory :=
  m.storeWord (off + 8) (m.sizeField off % kFreeMask)

end Memory

/-! ### The forwarding table -/

/-- `ForwardingTable`: old and new offsets. -/
structure ForwardingTable where
  entries : List (Nat × Nat)
  deriving DecidableEq, Repr

namespace ForwardingTable

/-- `Record`. -/
def record (oldOff newOff : Nat) (t : ForwardingTable) : ForwardingTable :=
  ⟨t.entries ++ [(oldOff, newOff)]⟩

/-- The loop of `Resolve`. -/
def resolveLoop (oldOff : Nat) (t : ForwardingTable) : Nat → Nat → Nat → Nat
  | 0, _, _ => oldOff
  | fuel + 1, lo, hi =>
    if lo < hi then
      let mid := (lo + hi) / 2
      let entry := t.entries.getD mid (0, 0)
      if entry.1 = oldOff then entry.2
      else if entry.1 < oldOff then t.resolveLoop oldOff fuel (mid + 1) hi
      else t.resolveLoop oldOff fuel lo mid
    else oldOff

/-- `Resolve`: the offset itself if it is not in the table. -/
def resolve (oldOff : Nat) (t : ForwardingTable) : Nat :=
  t.resolveLoop oldOff (t.entries.length + 1) 0 t.entries.length

end ForwardingTable

/-! ### Compaction -/

/-- What compaction leaves. -/
structure Compacted where
  memory : Memory
  table : ForwardingTable
  bigHeap : Heap
  smallArena : Heap
  lists : ListId → Slist

namespace Buddy

/-- The scan of `Compact`, from `cursor` on: the memory, the table and `write_pos`. -/
def compactLoop (scanEnd : Nat) (arena : Heap) :
    Nat → Nat → Nat → Memory → ForwardingTable → Option (Memory × ForwardingTable × Nat)
  | 0, _, _, _, _ => none
  | fuel + 1, cursor, writePos, m, table =>
    if cursor < scanEnd then
      if cursor = arena.heap ∧ arena.heap < arena.maxOffset then
        compactLoop scanEnd arena fuel arena.maxOffset writePos m table
      else
        let blkSize := kHeader + m.getSize cursor
        if m.isFree cursor then
          compactLoop scanEnd arena fuel (cursor + blkSize) writePos m table
        else
          let moved := if writePos ≠ cursor then m.memmove writePos cursor blkSize else m
          compactLoop scanEnd arena fuel (cursor + blkSize) (writePos + blkSize)
            (moved.markAllocated writePos)
            (table.record (cursor + kHeader) (writePos + kHeader))
    else some (m, table, writePos)

/-- `Compact`, for an allocator whose data begins at `dataOff`. -/
def compact (dataOff : Nat) (s : Buddy) (m : Memory) : Option Compacted := do
  let scanStart := dataOff + kHeader
  let scanEnd := s.bigHeap.heap
  let (m, table, writePos) ←
    compactLoop scanEnd s.smallArena (scanEnd - scanStart + 1) scanStart scanStart m ⟨[]⟩
  some ⟨m, table, ⟨writePos, s.bigHeap.maxOffset⟩, ⟨0, 0⟩, fun _ => ⟨0, none⟩⟩

end Buddy

end Shm
end IowarpCore
