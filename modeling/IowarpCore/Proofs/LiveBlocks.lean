/-
The blocks of a client that gives back what it was given.

A block comes from the heap as large as its category, rounded up to the alignment, and a
client that frees it as it got it lets a later request of that category have it again.  So
every block there is, on a free list or in use, is one the heap once made (`Genuine`), and
`Sound` says that they lie apart below what was asked of the heap so far.  `Ledger` keeps
the account: which blocks are in use, and how many bytes the heap was asked for, those it
refused included.
-/
import IowarpCore.Lib.Along
import IowarpCore.Proofs.Allocator

namespace IowarpCore
namespace Bdev

open Extent

/-- The space of a block as its own fields have it. -/
def blockExtent (b : Block) : Extent := (b.offset.toNat, b.size.toNat)

/-- The block is one the heap can have made. -/
structure Genuine (h : Heap) (b : Block) : Prop where
  category : b.blockType.toNat < kMaxCategories
  size : b.size = h.align (kBlockSizes.getD b.blockType.toNat 0)
  aligned : h.unit ∣ b.offset.toNat
  inside : b.offset.toNat + b.size.toNat ≤ h.totalSize.toNat

/-- The counter of the heap has no part in it. -/
theorem Genuine.move {h : Heap} {b : Block} (hb : Genuine h b) (n : UInt64) :
    Genuine { h with heap := n } b :=
  ⟨hb.category, hb.size, hb.aligned, hb.inside⟩

/-- The block holds every size of its category. -/
theorem Genuine.holds {h : Heap} {b : Block} (hb : Genuine h b) {ioSize : UInt64}
    (hsize : ioSize ≤ kMaxBlock)
    (htype : (findBlockTypeForSize ioSize).1 = some b.blockType.toNat) :
    ioSize.toNat ≤ b.size.toNat := by
  obtain ⟨k, hk, hlt, hle⟩ := findBlockTypeForSize_spec hsize
  rw [hk, Option.some.injEq] at htype
  obtain ⟨_, hmax⟩ := categorySize_bounds hlt
  have halign := (h.align_toNat (kBlockSizes.getD k 0) hmax).1
  rw [hb.size, ← htype]
  exact Nat.le_trans hle halign

namespace Allocator

/-- The bytes one division asks of the heap, if any. -/
def heapRequest (a : Allocator) (worker : Nat) (ioSize : UInt64) : Nat :=
  if (a.maps.allocateBlock worker ioSize).isNone then a.heapShare ioSize else 0

/-- The bytes the loop over the divisions asks of the heap. -/
def heapRequests (worker : Nat) : List UInt64 → List Block → Allocator → Nat
  | [], _, _ => 0
  | ioSize :: rest, got, a =>
    match a.allocateOne worker ioSize with
    | (none, _) => a.heapRequest worker ioSize
    | (some b, a₁) =>
      if got.length ≥ maxBlocksPerOperation then a.heapRequest worker ioSize
      else a.heapRequest worker ioSize + heapRequests worker rest (got ++ [b]) a₁

/-- The bytes a request asks of the heap. -/
def heapRequested (a : Allocator) (worker : Nat) (size : UInt64) : Nat :=
  if size == 0 then 0 else heapRequests worker (ioDivisions size) [] a

/-- A division that no list has a block for. -/
theorem allocateOne_of_none {a : Allocator} {worker : Nat} {ioSize : UInt64}
    (h : a.maps.allocateBlock worker ioSize = none) {k : Nat}
    (hk : findBlockTypeForSize ioSize = (some k, kBlockSizes.getD k 0)) :
    a.allocateOne worker ioSize =
      (if a.heap.heap + a.heap.align (kBlockSizes.getD k 0) > a.heap.totalSize then none
        else some ⟨a.heap.heap, a.heap.align (kBlockSizes.getD k 0), k.toUInt32⟩,
        { a with heap := { a.heap with heap := a.heap.heap + a.heap.align (kBlockSizes.getD k 0) } }) := by
  unfold allocateOne
  rw [h, hk]
  simp only [Heap.allocate, Option.getD_some]
  by_cases hfull : a.heap.heap + a.heap.align (kBlockSizes.getD k 0) > a.heap.totalSize
  · rw [if_pos hfull, if_pos hfull]
  · rw [if_neg hfull, if_neg hfull]

theorem allocateOne_of_some {a : Allocator} {worker : Nat} {ioSize : UInt64} {b : Block}
    {maps : GlobalBlockMap} (h : a.maps.allocateBlock worker ioSize = some (b, maps)) :
    a.allocateOne worker ioSize = (some b, { a with maps := maps }) := by
  unfold allocateOne
  rw [h]

/-- Free blocks and blocks in use lie apart below what was asked of the heap, and all of
them are genuine. -/
structure Sound (a : Allocator) (live : List Block) (requested : Nat) : Prop where
  counter : a.heap.heap.toNat = requested
  multiple : a.heap.unit ∣ requested
  packed : Packed ((a.maps.all ++ live).map blockExtent) requested
  genuine : ∀ b ∈ a.maps.all ++ live, Genuine a.heap b

namespace Sound

variable {a a' : Allocator} {live live' : List Block} {n worker : Nat} {ioSize : UInt64}

/-- Other lists with the same blocks, or fewer. -/
theorem subperm {maps : GlobalBlockMap} (h : Sound a live n)
    (hsub : (maps.all ++ live').Subperm (a.maps.all ++ live)) :
    Sound { a with maps := maps } live' n := by
  obtain ⟨l, hperm, hsublist⟩ := hsub
  refine ⟨h.counter, h.multiple, ?_, ?_⟩
  · exact (h.packed.sublist (hsublist.map blockExtent)).perm (hperm.map blockExtent)
  · intro b hb
    exact h.genuine b (hsublist.subset (hperm.mem_iff.mpr hb))

/-- What a block from the heap adds. -/
theorem push {k : Nat} (h : Sound a live n) (hk : k < kMaxCategories)
    (hwrap : n + (a.heap.align (kBlockSizes.getD k 0)).toNat < 2 ^ 64) {b? : Option Block}
    (hb? : b? = if a.heap.heap + a.heap.align (kBlockSizes.getD k 0) > a.heap.totalSize then none
      else some ⟨a.heap.heap, a.heap.align (kBlockSizes.getD k 0), k.toUInt32⟩) :
    Sound { a with heap := { a.heap with heap := a.heap.heap + a.heap.align (kBlockSizes.getD k 0) } }
      (b?.toList ++ live) (n + (a.heap.align (kBlockSizes.getD k 0)).toNat) := by
  obtain ⟨_, hmax⟩ := categorySize_bounds hk
  have hcounter := h.counter
  have hsum : (a.heap.heap + a.heap.align (kBlockSizes.getD k 0)).toNat =
      n + (a.heap.align (kBlockSizes.getD k 0)).toNat := by
    rw [UInt64.toNat_add, hcounter, Nat.mod_eq_of_lt hwrap]
  have hdvd : a.heap.unit ∣ n + (a.heap.align (kBlockSizes.getD k 0)).toNat := by
    rw [a.heap.align_eq _ hmax]
    exact Nat.dvd_add h.multiple (Nat.dvd_mul_left _ _)
  have hmoved : ∀ b ∈ a.maps.all ++ live, Genuine
      { a.heap with heap := a.heap.heap + a.heap.align (kBlockSizes.getD k 0) } b :=
    fun b hb => (h.genuine b hb).move _
  by_cases hfull : a.heap.heap + a.heap.align (kBlockSizes.getD k 0) > a.heap.totalSize
  · rw [if_pos hfull] at hb?
    subst hb?
    exact ⟨hsum, hdvd, h.packed.mono (by omega), hmoved⟩
  · rw [if_neg hfull] at hb?
    subst hb?
    have htype : (k.toUInt32).toNat = k := by
      unfold kMaxCategories at hk
      show k % 2 ^ 32 = k
      omega
    have hinside : a.heap.heap.toNat + (a.heap.align (kBlockSizes.getD k 0)).toNat ≤
        a.heap.totalSize.toNat := by
      rw [gt_iff_lt, UInt64.not_lt, UInt64.le_iff_toNat_le] at hfull
      omega
    refine ⟨hsum, hdvd, ?_, ?_⟩
    · have hpush := @Packed.push _ (blockExtent ⟨a.heap.heap, a.heap.align (kBlockSizes.getD k 0),
        k.toUInt32⟩) _ (n + (a.heap.align (kBlockSizes.getD k 0)).toNat) h.packed
        (Nat.le_of_eq hcounter.symm) (Nat.le_of_eq (by rw [← hcounter]; rfl)) (by omega)
      exact hpush.perm (List.perm_middle.symm.map blockExtent)
    · intro b hb
      rcases List.mem_append.mp hb with hb | hb
      · exact hmoved b (List.mem_append_left _ hb)
      · rcases List.mem_cons.mp hb with hb | hb
        · rw [hb]
          refine ⟨?_, ?_, ?_, hinside⟩
          · rw [htype]
            exact hk
          · rw [htype]
            rfl
          · show a.heap.unit ∣ a.heap.heap.toNat
            rw [hcounter]
            exact h.multiple
        · exact hmoved b (List.mem_append_right _ hb)

/-- One division. -/
theorem allocateOne (h : Sound a live n) (hsize : ioSize ≤ kMaxBlock) {b? : Option Block}
    (hwrap : n + a.heapRequest worker ioSize < 2 ^ 64)
    (hone : a.allocateOne worker ioSize = (b?, a')) :
    Sound a' (b?.toList ++ live) (n + a.heapRequest worker ioSize) ∧
      ∀ b, b? = some b → ioSize.toNat ≤ b.size.toNat := by
  cases hcached : a.maps.allocateBlock worker ioSize with
  | some r =>
    obtain ⟨b, maps⟩ := r
    rw [allocateOne_of_some hcached, Prod.mk.injEq] at hone
    obtain ⟨hb, ha'⟩ := hone
    subst hb
    subst ha'
    have hzero : a.heapRequest worker ioSize = 0 := by
      rw [heapRequest, hcached]
      rfl
    obtain ⟨hperm, htype⟩ := GlobalBlockMap.all_allocateBlock hcached
    rw [hzero]
    refine ⟨h.subperm ?_, ?_⟩
    · have hsame : (maps.all ++ b :: live).Perm (a.maps.all ++ live) :=
        List.perm_middle.trans (hperm.symm.append_right live)
      exact hsame.subperm
    · intro b' hb'
      rw [Option.some.injEq] at hb'
      subst hb'
      have hmem : b ∈ a.maps.all ++ live :=
        List.mem_append_left _ (hperm.mem_iff.mpr (by simp))
      exact (h.genuine b hmem).holds hsize htype
  | none =>
    obtain ⟨k, hk, hlt, hle⟩ := findBlockTypeForSize_spec hsize
    have hshare : a.heapRequest worker ioSize = (a.heap.align (kBlockSizes.getD k 0)).toNat := by
      rw [heapRequest, hcached, Option.isNone_none, if_pos rfl, heapShare, hk]
    rw [allocateOne_of_none hcached hk, Prod.mk.injEq] at hone
    obtain ⟨hb, ha'⟩ := hone
    rw [hshare] at hwrap
    rw [hshare, ← ha']
    refine ⟨h.push hlt hwrap hb.symm, ?_⟩
    intro b hsome
    rw [hsome] at hb
    by_cases hfull : a.heap.heap + a.heap.align (kBlockSizes.getD k 0) > a.heap.totalSize
    · rw [if_pos hfull] at hb
      simp at hb
    · rw [if_neg hfull, Option.some.injEq] at hb
      rw [← hb]
      obtain ⟨_, hmax⟩ := categorySize_bounds hlt
      exact Nat.le_trans hle (a.heap.align_toNat (kBlockSizes.getD k 0) hmax).1

/-- Blocks put back on a list are free, or lost. -/
theorem freeAll (worker : Nat) (bs : List Block) : ∀ {a : Allocator} {live : List Block},
    Sound a (bs ++ live) n → Sound (a.freeAll worker bs) live n := by
  induction bs with
  | nil =>
    intro a live h
    exact h
  | cons b bs ih =>
    intro a live h
    show Sound (Allocator.freeAll ⟨a.maps.freeBlock worker b, a.heap⟩ worker bs) live n
    apply ih
    refine h.subperm ?_
    have hmiddle : (a.maps.all ++ b :: (bs ++ live)).Perm (b :: (a.maps.all ++ (bs ++ live))) :=
      List.perm_middle
    rcases a.maps.all_freeBlock worker b with hperm | hperm
    · exact ((hperm.append_right _).trans hmiddle.symm).subperm
    · refine (hperm.append_right (bs ++ live)).subperm.trans ?_
      exact (List.sublist_cons_self b _).subperm.trans hmiddle.symm.subperm

/-- The blocks of a reply: at most 64, and large enough for the divisions. -/
structure Enough (got bs : List Block) (divisions : List UInt64) : Prop where
  few : bs.length ≤ maxBlocksPerOperation
  large : (got.map fun b => b.size.toNat).sum + (divisions.map UInt64.toNat).sum ≤
    (bs.map fun b => b.size.toNat).sum

/-- The loop over the divisions. -/
theorem allocateLoop (worker : Nat) (divisions : List UInt64) :
    ∀ {got : List Block} {a a' : Allocator} {n : Nat} {rc : UInt32} {bs : List Block},
      Sound a (got ++ live) n → (∀ io ∈ divisions, io ≤ kMaxBlock) →
      got.length ≤ maxBlocksPerOperation → n + heapRequests worker divisions got a < 2 ^ 64 →
      Allocator.allocateLoop worker divisions got a = ((rc, bs), a') →
      Sound a' (bs ++ live) (n + heapRequests worker divisions got a) ∧
        (rc = 0 → Enough got bs divisions) := by
  induction divisions with
  | nil =>
    intro got a a' n rc bs h _ hroom _ hloop
    simp only [Allocator.allocateLoop, Prod.mk.injEq] at hloop
    obtain ⟨⟨_, hbs⟩, ha'⟩ := hloop
    rw [← hbs, ← ha']
    exact ⟨h, fun _ => ⟨hroom, by simp⟩⟩
  | cons io rest ih =>
    intro got a a' n rc bs h hsizes hroom hwrap hloop
    unfold Allocator.allocateLoop at hloop
    unfold heapRequests at hwrap ⊢
    obtain ⟨b?, a₁, hone⟩ : ∃ b? a₁, a.allocateOne worker io = (b?, a₁) := ⟨_, _, rfl⟩
    rw [hone] at hloop hwrap
    rw [hone]
    have hio := hsizes io (by simp)
    cases b? with
    | none =>
      simp only [Prod.mk.injEq] at hloop
      obtain ⟨⟨hrc, hbs⟩, ha'⟩ := hloop
      obtain ⟨h₁, _⟩ := h.allocateOne hio hwrap hone
      rw [← hbs, ← ha']
      refine ⟨freeAll worker got h₁, ?_⟩
      intro hzero
      rw [← hrc] at hzero
      simp at hzero
    | some b =>
      dsimp only at hloop hwrap ⊢
      by_cases hfull : got.length ≥ maxBlocksPerOperation
      · rw [if_pos hfull] at hloop hwrap
        rw [if_pos hfull]
        simp only [Prod.mk.injEq] at hloop
        obtain ⟨⟨hrc, hbs⟩, ha'⟩ := hloop
        obtain ⟨h₁, _⟩ := h.allocateOne hio hwrap hone
        rw [← hbs, ← ha']
        refine ⟨freeAll worker got ?_, ?_⟩
        · -- The block that was one too many is neither returned nor put back.
          refine h₁.subperm ?_
          exact (List.Sublist.append_left (List.sublist_cons_self b _) _).subperm
        · intro hzero
          rw [← hrc] at hzero
          simp at hzero
      · rw [if_neg hfull] at hloop hwrap
        rw [if_neg hfull]
        obtain ⟨h₁, hlarge⟩ := h.allocateOne hio (by omega) hone
        have hnext : Sound a₁ ((got ++ [b]) ++ live) (n + a.heapRequest worker io) := by
          refine h₁.subperm ?_
          rw [List.append_assoc]
          exact (List.perm_middle.append_left a₁.maps.all).subperm
        have hroom₁ : (got ++ [b]).length ≤ maxBlocksPerOperation := by
          rw [List.length_append, List.length_singleton]
          omega
        obtain ⟨h', henough⟩ := ih hnext
          (fun io' hmem => hsizes io' (List.mem_cons_of_mem _ hmem)) hroom₁ (by omega) hloop
        rw [← Nat.add_assoc]
        refine ⟨h', ?_⟩
        intro hzero
        obtain ⟨hfew, hsum⟩ := henough hzero
        refine ⟨hfew, ?_⟩
        have hb := hlarge b rfl
        simp only [List.map_append, List.map_cons, List.map_nil, List.sum_append,
          List.sum_cons, List.sum_nil] at hsum ⊢
        omega

/-- A request. -/
theorem allocateBlocks (h : Sound a live n) {size : UInt64} {rc : UInt32} {bs : List Block}
    (hwrap : n + a.heapRequested worker size < 2 ^ 64)
    (halloc : a.allocateBlocks worker size = ((rc, bs), a')) :
    Sound a' (bs ++ live) (n + a.heapRequested worker size) ∧
      (rc = 0 → Enough [] bs (ioDivisions size)) := by
  unfold Allocator.allocateBlocks at halloc
  unfold heapRequested at hwrap ⊢
  by_cases hzero : (size == 0) = true
  · rw [if_pos hzero] at halloc hwrap ⊢
    simp only [Prod.mk.injEq] at halloc
    obtain ⟨⟨_, hbs⟩, ha'⟩ := halloc
    rw [← hbs, ← ha']
    refine ⟨h, fun _ => ⟨by decide, ?_⟩⟩
    rw [ioDivisions_sum, beq_iff_eq.mp hzero]
    simp
  · rw [if_neg hzero] at halloc hwrap ⊢
    exact allocateLoop worker (ioDivisions size) h (fun io hio => ioDivisions_le hio) (by decide)
      hwrap halloc

end Sound

/-! ### What stays -/

/-- The size of the device and the alignment. -/
def shape (a : Allocator) : UInt64 × UInt32 := (a.heap.totalSize, a.heap.alignment)

theorem allocateOne_shape (a : Allocator) (worker : Nat) (ioSize : UInt64) :
    (a.allocateOne worker ioSize).2.shape = a.shape := by
  unfold allocateOne
  cases a.maps.allocateBlock worker ioSize with
  | some r => rfl
  | none =>
    unfold Heap.allocate
    dsimp only
    split
    · rfl
    · rfl

theorem allocateLoop_shape (worker : Nat) (divisions : List UInt64) :
    ∀ (got : List Block) (a : Allocator),
      (allocateLoop worker divisions got a).2.shape = a.shape := by
  induction divisions with
  | nil =>
    intro got a
    rfl
  | cons io rest ih =>
    intro got a
    have hone := a.allocateOne_shape worker io
    unfold allocateLoop
    obtain ⟨b?, a₁, heq⟩ : ∃ b? a₁, a.allocateOne worker io = (b?, a₁) := ⟨_, _, rfl⟩
    rw [heq] at hone ⊢
    cases b? with
    | none => exact hone
    | some b =>
      dsimp only
      split
      · exact hone
      · exact (ih _ _).trans hone

theorem allocateBlocks_shape (a : Allocator) (worker : Nat) (size : UInt64) :
    (a.allocateBlocks worker size).2.shape = a.shape := by
  unfold allocateBlocks
  split
  · rfl
  · exact allocateLoop_shape _ _ _ _

/-- A new allocator. -/
theorem sound_init (numWorkers : Nat) (fileSize : UInt64) (alignment : UInt32) :
    Sound (init numWorkers fileSize alignment) [] 0 := by
  have hnil : (init numWorkers fileSize alignment).maps.all = [] := init_all numWorkers
  refine ⟨rfl, Nat.dvd_zero _, ?_, ?_⟩
  · rw [hnil]
    exact Packed.nil _
  · rw [hnil]
    simp

end Allocator

/-! ### Clients -/

/-- The allocator, the blocks its clients have, and the bytes the heap was asked for. -/
structure Ledger where
  alloc : Allocator
  live : List Block
  requested : Nat

/-- A call and the worker it runs on. -/
inductive Call where
  | allocateBlocks (worker : Nat) (size : UInt64)
  | freeBlocks (worker : Nat) (blocks : List Block)

namespace Ledger

def new (numWorkers : Nat) (fileSize : UInt64) (alignment : UInt32) : Ledger :=
  ⟨Allocator.init numWorkers fileSize alignment, [], 0⟩

/-- One call.  Only blocks in use are freed, each once, and as they were returned. -/
def Takes : Call → Ledger → Ledger → Prop
  | .allocateBlocks worker size, s, s' =>
    s' = ⟨(s.alloc.allocateBlocks worker size).2,
      (s.alloc.allocateBlocks worker size).1.2 ++ s.live,
      s.requested + s.alloc.heapRequested worker size⟩
  | .freeBlocks worker blocks, s, s' =>
    ∃ rest, s.live.Perm (blocks ++ rest) ∧
      s' = ⟨s.alloc.freeBlocks worker blocks, rest, s.requested⟩

/-- The account is right as long as the heap was not asked for too much. -/
structure Right (fileSize : UInt64) (alignment : UInt32) (s : Ledger) : Prop where
  shape : s.alloc.shape = (Allocator.init 0 fileSize alignment).shape
  sound : s.requested < 2 ^ 64 → s.alloc.Sound s.live s.requested

variable {fileSize : UInt64} {alignment : UInt32} {s s' : Ledger}

theorem Right.takes {call : Call} (h : Right fileSize alignment s) (hcall : Takes call s s') :
    Right fileSize alignment s' := by
  cases call with
  | allocateBlocks worker size =>
    unfold Takes at hcall
    subst hcall
    refine ⟨(s.alloc.allocateBlocks_shape worker size).trans h.shape, ?_⟩
    intro hlt
    dsimp only at hlt
    exact ((h.sound (by omega)).allocateBlocks hlt rfl).1
  | freeBlocks worker blocks =>
    obtain ⟨rest, hperm, hs'⟩ := hcall
    subst hs'
    refine ⟨h.shape, ?_⟩
    intro hlt
    have hsound := h.sound hlt
    exact Allocator.Sound.freeAll worker blocks
      (hsound.subperm (hperm.symm.append_left _).subperm)

end Ledger

/-- Blocks in use: apart, inside the device, and aligned. -/
structure WellPlaced (fileSize : UInt64) (alignment : UInt32) (live : List Block) : Prop where
  disjoint : live.Pairwise fun b b' => Apart (blockExtent b) (blockExtent b')
  inside : ∀ b ∈ live, b.offset.toNat + b.size.toNat ≤ fileSize.toNat
  aligned : ∀ b ∈ live, (if alignment == 0 then 4096 else alignment).toNat ∣ b.offset.toNat

/--
**Blocks in use never overlap.**  After any calls on any workers that free blocks as they
were returned, and ask less than 2^64 bytes of the heap in all, the blocks in use lie apart,
inside the device and at multiples of the alignment; and a request that succeeds then gets
at most 64 blocks, which are together as large as it asked for.
-/
theorem live_blocks_apart {numWorkers : Nat} {fileSize : UInt64} {alignment : UInt32}
    {calls : List Call} {s : Ledger}
    (h : Along Ledger.Takes calls (Ledger.new numWorkers fileSize alignment) s)
    (hsum : s.requested < 2 ^ 64) :
    WellPlaced fileSize alignment s.live ∧
    ∀ worker size blocks a', s.requested + s.alloc.heapRequested worker size < 2 ^ 64 →
      s.alloc.allocateBlocks worker size = ((0, blocks), a') →
      blocks.length ≤ 64 ∧ size.toNat ≤ (blocks.map fun b => b.size.toNat).sum := by
  have hright : Ledger.Right fileSize alignment s := by
    refine h.invariant (I := Ledger.Right fileSize alignment) ?_ ?_
    · intro call _ v v' hv hcall
      exact hv.takes hcall
    · exact ⟨rfl, fun _ => Allocator.sound_init numWorkers fileSize alignment⟩
  have hsound := hright.sound hsum
  have hshape := hright.shape
  rw [Allocator.shape, Allocator.shape, Prod.mk.injEq] at hshape
  obtain ⟨htotal, halign⟩ := hshape
  have hgenuine : ∀ b ∈ s.live, Genuine s.alloc.heap b :=
    fun b hb => hsound.genuine b (List.mem_append_right _ hb)
  refine ⟨⟨?_, ?_, ?_⟩, ?_⟩
  · have hpacked := hsound.packed.apart
    rw [List.map_append] at hpacked
    exact List.pairwise_map.mp (List.pairwise_append.mp hpacked).2.1
  · intro b hb
    have hinside := (hgenuine b hb).inside
    rw [htotal] at hinside
    exact hinside
  · intro b hb
    have haligned := (hgenuine b hb).aligned
    rw [Heap.unit, halign] at haligned
    -- `Heap::Init` has replaced an alignment of 0 already.
    by_cases hzero : (alignment == 0) = true
    · simpa [Allocator.init, Heap.init, hzero] using haligned
    · simpa [Allocator.init, Heap.init, hzero] using haligned
  · intro worker size blocks a' hlt halloc
    obtain ⟨hfew, hlarge⟩ := (hsound.allocateBlocks hlt halloc).2 rfl
    rw [Allocator.ioDivisions_sum] at hlarge
    exact ⟨hfew, by simpa using hlarge⟩

/-- Three allocations, the second freed on another worker, and its space used again. -/
theorem live_blocks_apart_reused :
    ∃ s, Along Ledger.Takes [.allocateBlocks 0 5000, .allocateBlocks 0 3000,
        .freeBlocks 1 [⟨16384, 4096, 0⟩], .allocateBlocks 0 100]
        (Ledger.new 2 10485760 4096) s ∧
      s.live = [⟨16384, 4096, 0⟩, ⟨0, 16384, 1⟩] ∧ WellPlaced 10485760 4096 s.live := by
  have hrun : Along Ledger.Takes [.allocateBlocks 0 5000, .allocateBlocks 0 3000,
      .freeBlocks 1 [⟨16384, 4096, 0⟩], .allocateBlocks 0 100] (Ledger.new 2 10485760 4096) _ :=
    ⟨_, rfl, _, rfl, _, ⟨[⟨0, 16384, 1⟩], by decide +kernel, rfl⟩, _, rfl, rfl⟩
  exact ⟨_, hrun, by decide +kernel, (live_blocks_apart hrun (by decide +kernel)).1⟩

end Bdev
end IowarpCore
