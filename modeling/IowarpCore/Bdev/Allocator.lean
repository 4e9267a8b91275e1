/-
The space allocator of a block device: `WorkerBlockMap`, `GlobalBlockMap`, `Heap` and
the two requests that drive them, `AllocateBlocks` and `FreeBlocks`.

Space comes from two places.  Every worker keeps lists of freed blocks, one list for
each size category, and a block goes into the list its own `blockType` names.  What no
list can give comes from the heap, a counter that only grows: `heap_` is advanced
before the bound is tested and is not taken back when the test fails.  All of it is
64-bit arithmetic that wraps.

A request is cut into divisions of at most one megabyte and each division is served
on its own, so the blocks of one reply need not lie next to each other.
-/
import Mathlib.Data.List.Basic

namespace IowarpCore
namespace Bdev

/-- `bdev::Block`. -/
structure Block where
  offset : UInt64
  size : UInt64
  blockType : UInt32
  deriving DecidableEq, Repr, Inhabited

def kBlockSizes : List UInt64 := [4096, 16384, 32768, 65536, 131072, 1048576]

/-- `BlockSizeCategory::kMaxCategories`. -/
def kMaxCategories : Nat := 6

def kMaxBlock : UInt64 := 1048576

/-- `FindBlockTypeForSize`: the first category that holds `ioSize`, with its size. -/
def findBlockTypeForSize (ioSize : UInt64) : Option Nat × UInt64 :=
  match kBlockSizes.findIdx? (fun size => ioSize ≤ size) with
  | some i => (some i, kBlockSizes.getD i 0)
  | none => (none, ioSize)

/-! ### Free lists -/

/-- The freed blocks of one worker, a list for each category, and every block in the
list of its own category. -/
structure WorkerBlockMap where
  blocks : List (List Block)
  length_blocks : blocks.length = kMaxCategories
  typed : ∀ (k : Nat) (bs : List Block), blocks[k]? = some bs → ∀ b ∈ bs, b.blockType.toNat = k

namespace WorkerBlockMap

def empty : WorkerBlockMap where
  blocks := List.replicate kMaxCategories []
  length_blocks := List.length_replicate
  typed := by
    intro k bs h b hb
    obtain ⟨_, hbs⟩ := List.getElem?_eq_some_iff.mp h
    rw [List.getElem_replicate] at hbs
    rw [← hbs] at hb
    simp at hb

instance : Inhabited WorkerBlockMap := ⟨empty⟩

/-- The list of category `blockType` replaced by blocks of that category. -/
def setList (m : WorkerBlockMap) (blockType : Nat) (bs : List Block)
    (h : ∀ b ∈ bs, b.blockType.toNat = blockType) : WorkerBlockMap where
  blocks := m.blocks.set blockType bs
  length_blocks := by rw [List.length_set, m.length_blocks]
  typed := by
    intro k cs hget b hb
    by_cases hk : blockType = k
    · subst hk
      by_cases hlt : blockType < m.blocks.length
      · rw [List.getElem?_set_self hlt, Option.some.injEq] at hget
        exact h b (hget ▸ hb)
      · rw [List.set_eq_of_length_le (by omega)] at hget
        exact m.typed _ _ hget b hb
    · rw [List.getElem?_set_ne hk] at hget
      exact m.typed _ _ hget b hb

/-- `WorkerBlockMap::AllocateBlock`: the oldest block of the category. -/
def allocateBlock (m : WorkerBlockMap) (blockType : Nat) : Option (Block × WorkerBlockMap) :=
  match h : m.blocks[blockType]? with
  | some (b :: rest) =>
    some (b, m.setList blockType rest fun b' hb' =>
      m.typed _ _ h b' (List.mem_cons_of_mem _ hb'))
  | _ => none

/-- `WorkerBlockMap::FreeBlock`: a block whose type is no category is dropped. -/
def freeBlock (m : WorkerBlockMap) (b : Block) : WorkerBlockMap :=
  match h : m.blocks[b.blockType.toNat]? with
  | some bs =>
    m.setList b.blockType.toNat (bs ++ [b]) fun b' hb' => by
      rcases List.mem_append.mp hb' with hb' | hb'
      · exact m.typed _ _ h b' hb'
      · rw [List.mem_singleton.mp hb']
  | none => m

/-- Every block the worker holds. -/
def all (m : WorkerBlockMap) : List Block := m.blocks.flatten

end WorkerBlockMap

/-- `GlobalBlockMap`: one map for each worker. -/
abbrev GlobalBlockMap := List WorkerBlockMap

namespace GlobalBlockMap

/-- The first of the given workers that has a block of the category gives it. -/
def allocateFrom (maps : GlobalBlockMap) (blockType : Nat) :
    List Nat → Option (Block × GlobalBlockMap)
  | [] => none
  | w :: ws =>
    match maps[w]? with
    | none => allocateFrom maps blockType ws
    | some m =>
      match m.allocateBlock blockType with
      | some (b, m') => some (b, maps.set w m')
      | none => allocateFrom maps blockType ws

/-- The worker itself and then up to four others behind it. -/
def askOrder (maps : GlobalBlockMap) (worker : Nat) : List Nat :=
  (List.range (min 5 maps.length)).map fun i => (worker + i) % maps.length

/-- `GlobalBlockMap::AllocateBlock`. -/
def allocateBlock (maps : GlobalBlockMap) (worker : Nat) (ioSize : UInt64) :
    Option (Block × GlobalBlockMap) :=
  if worker < maps.length then
    match (findBlockTypeForSize ioSize).1 with
    | none => none
    | some blockType => allocateFrom maps blockType (askOrder maps worker)
  else none

/-- `GlobalBlockMap::FreeBlock`. -/
def freeBlock (maps : GlobalBlockMap) (worker : Nat) (b : Block) : GlobalBlockMap :=
  match maps[worker]? with
  | some m => maps.set worker (m.freeBlock b)
  | none => maps

/-- Every block on some free list. -/
def all (maps : GlobalBlockMap) : List Block := maps.flatMap WorkerBlockMap.all

end GlobalBlockMap

/-! ### The heap -/

/-- `Heap`. -/
structure Heap where
  heap : UInt64
  totalSize : UInt64
  alignment : UInt32
  deriving DecidableEq, Repr, Inhabited

namespace Heap

/-- `Heap::Init`. -/
def init (totalSize : UInt64) (alignment : UInt32) : Heap :=
  ⟨0, totalSize, if alignment == 0 then 4096 else alignment⟩

/-- The size rounded up to the alignment. -/
def align (h : Heap) (blockSize : UInt64) : UInt64 :=
  let alignment := (if h.alignment == 0 then 4096 else h.alignment).toUInt64
  (blockSize + alignment - 1) / alignment * alignment

/-- `Heap::Allocate`.  The counter moves whether or not the block fits. -/
def allocate (h : Heap) (blockSize : UInt64) (blockType : Nat) : Option Block × Heap :=
  let alignedSize := h.align blockSize
  let oldHeap := h.heap
  let h' := { h with heap := oldHeap + alignedSize }
  if oldHeap + alignedSize > h.totalSize then (none, h')
  else (some ⟨oldHeap, alignedSize, blockType.toUInt32⟩, h')

end Heap

/-! ### Requests -/

/-- What `AllocateBlocks` and `FreeBlocks` work on. -/
structure Allocator where
  maps : GlobalBlockMap
  heap : Heap

namespace Allocator

/-- `InitializeAllocator`. -/
def init (numWorkers : Nat) (fileSize : UInt64) (alignment : UInt32) : Allocator :=
  ⟨List.replicate numWorkers WorkerBlockMap.empty, Heap.init fileSize alignment⟩

/-- `io_divisions`: units of the largest category and what is left over. -/
def ioDivisions (totalSize : UInt64) : List UInt64 :=
  if totalSize ≥ kMaxBlock then
    List.replicate (totalSize / kMaxBlock).toNat kMaxBlock ++
      (if totalSize % kMaxBlock > 0 then [totalSize % kMaxBlock] else [])
  else [totalSize]

/-- One division: a cached block, else one from the heap. -/
def allocateOne (a : Allocator) (worker : Nat) (ioSize : UInt64) : Option Block × Allocator :=
  match a.maps.allocateBlock worker ioSize with
  | some (b, maps) => (some b, { a with maps := maps })
  | none =>
    let (blockType?, allocSize) := findBlockTypeForSize ioSize
    let (b?, heap) := a.heap.allocate allocSize (blockType?.getD (kMaxCategories - 1))
    (b?, { a with heap := heap })

/-- Put the blocks back on the worker's lists. -/
def freeAll (a : Allocator) (worker : Nat) (bs : List Block) : Allocator :=
  { a with maps := bs.foldl (fun maps b => maps.freeBlock worker b) a.maps }

def maxBlocksPerOperation : Nat := 64

/-- The loop over the divisions.  `got` is `local_blocks`. -/
def allocateLoop (worker : Nat) : List UInt64 → List Block → Allocator →
    (UInt32 × List Block) × Allocator
  | [], got, a => ((0, got), a)
  | ioSize :: rest, got, a =>
    match a.allocateOne worker ioSize with
    | (none, a₁) => ((1, []), a₁.freeAll worker got)
    | (some b, a₁) =>
      if got.length ≥ maxBlocksPerOperation then ((2, []), a₁.freeAll worker got)
      else allocateLoop worker rest (got ++ [b]) a₁

/-- `AllocateBlocks`: the return code and the blocks of the reply. -/
def allocateBlocks (a : Allocator) (worker : Nat) (size : UInt64) :
    (UInt32 × List Block) × Allocator :=
  if size == 0 then ((0, []), a) else allocateLoop worker (ioDivisions size) [] a

/-- `FreeBlocks`. -/
def freeBlocks (a : Allocator) (worker : Nat) (bs : List Block) : Allocator := a.freeAll worker bs

end Allocator

end Bdev
end IowarpCore
