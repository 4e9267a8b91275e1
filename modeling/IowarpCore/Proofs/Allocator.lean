/-
What the allocator of a block device guarantees, and what it does not.

A block on a free list stands for as much space as its category says, whatever its
`size` field holds, and `AllocInv` says that this space, the space of every free block
and everything handed out lie apart below the heap counter.  Single blocks keep it:
a cached block gives up its own space, a heap block takes space no one had, and a freed
block takes its space back (`allocateOne_inv`, `freeBlock_inv`).

A reply of several blocks is another matter.  Its blocks are apart from everything else
and from each other, but the space behind the first of them is the space of the second
only if both came from the heap.  `WellServed` is the condition under which a client may
take the first block for all of the space it asked for (`allocateBlocks_spec`): the
request was small enough for one block, or no free list had a block for it.
-/
import IowarpCore.Lib.Extents
import IowarpCore.Bdev.Device

namespace IowarpCore
namespace Bdev

/-! ### Categories -/

/-- The size of a category in bytes. -/
def categorySize (k : Nat) : Nat := (kBlockSizes.getD k 0).toNat

theorem categorySize_bounds {k : Nat} (h : k < kMaxCategories) :
    4096 ≤ categorySize k ∧ categorySize k ≤ 1048576 := by
  unfold kMaxCategories at h
  match k, h with
  | 0, _ => decide
  | 1, _ => decide
  | 2, _ => decide
  | 3, _ => decide
  | 4, _ => decide
  | 5, _ => decide

/-- A size that a block can hold has a category that holds it. -/
theorem findBlockTypeForSize_spec {ioSize : UInt64} (h : ioSize ≤ kMaxBlock) :
    ∃ k, findBlockTypeForSize ioSize = (some k, kBlockSizes.getD k 0) ∧ k < kMaxCategories ∧
      ioSize.toNat ≤ categorySize k := by
  have hsome : (kBlockSizes.findIdx? (fun size => ioSize ≤ size)).isSome = true := by
    rw [List.findIdx?_isSome, List.any_eq_true]
    exact ⟨kMaxBlock, by decide, by simpa using h⟩
  obtain ⟨k, hk⟩ := Option.isSome_iff_exists.mp hsome
  obtain ⟨hlt, hle, _⟩ := List.findIdx?_eq_some_iff_getElem.mp hk
  refine ⟨k, by rw [findBlockTypeForSize, hk], hlt, ?_⟩
  have hget : kBlockSizes.getD k 0 = kBlockSizes[k] := by
    rw [List.getD_eq_getElem?_getD, List.getElem?_eq_getElem hlt, Option.getD_some]
  rw [categorySize, hget]
  exact UInt64.le_iff_toNat_le.mp (by simpa using hle)

/-- The space a free block stands for. -/
def freeExtent (b : Block) : Extent := (b.offset.toNat, categorySize b.blockType.toNat)

theorem inSpace_of_size {b : Block} {x : Nat} (hle : b.offset.toNat ≤ x)
    (hlt : x < b.offset.toNat + b.size.toNat) : inSpace b x = true := by
  have hmax : b.size.toNat ≤ capacity b := Nat.le_max_left _ _
  simp only [inSpace, Bool.and_eq_true, decide_eq_true_eq]
  omega

theorem inSpace_of_category {b : Block} {x : Nat} (hle : b.offset.toNat ≤ x)
    (hlt : x < b.offset.toNat + categorySize b.blockType.toNat) : inSpace b x = true := by
  have hmax : categorySize b.blockType.toNat ≤ capacity b := Nat.le_max_right _ _
  simp only [inSpace, Bool.and_eq_true, decide_eq_true_eq]
  omega

/-! ### Free lists as one collection -/

namespace WorkerBlockMap

theorem all_allocateBlock {m m' : WorkerBlockMap} {k : Nat} {b : Block}
    (h : m.allocateBlock k = some (b, m')) : m.all.Perm (b :: m'.all) ∧ b.blockType.toNat = k := by
  unfold allocateBlock at h
  split at h
  · rename_i b₀ rest hget
    rw [Option.some.injEq, Prod.mk.injEq] at h
    obtain ⟨hb, hm'⟩ := h
    subst hb
    subst hm'
    refine ⟨?_, m.typed _ _ hget _ (by simp)⟩
    have h₁ := flatten_perm_cons_eraseIdx hget
    have h₂ := flatten_set_perm hget rest
    exact h₁.trans (h₂.symm.cons _)
  · simp at h

theorem all_freeBlock (m : WorkerBlockMap) (b : Block) :
    (m.freeBlock b).all.Perm (b :: m.all) ∨ (m.freeBlock b).all = m.all := by
  unfold freeBlock
  split
  · rename_i bs hget
    left
    have h₁ := flatten_perm_cons_eraseIdx hget
    have h₂ := flatten_set_perm hget (bs ++ [b])
    have h₃ : (bs ++ [b] ++ (m.blocks.eraseIdx b.blockType.toNat).flatten).Perm
        (b :: (bs ++ (m.blocks.eraseIdx b.blockType.toNat).flatten)) := by
      rw [List.append_assoc]
      exact List.perm_middle
    exact (h₂.trans h₃).trans (h₁.symm.cons _)
  · exact Or.inr rfl

end WorkerBlockMap

namespace GlobalBlockMap

theorem all_eq (maps : GlobalBlockMap) : maps.all = (maps.map WorkerBlockMap.all).flatten := by
  rw [all, List.flatMap_def]

variable {maps : GlobalBlockMap}

theorem all_set {i : Nat} {m : WorkerBlockMap} (h : maps[i]? = some m) (m' : WorkerBlockMap) :
    ∃ rest, maps.all.Perm (m.all ++ rest) ∧ (all (maps.set i m')).Perm (m'.all ++ rest) := by
  have hget : (maps.map WorkerBlockMap.all)[i]? = some m.all := by
    rw [List.getElem?_map, h]
    rfl
  refine ⟨((maps.map WorkerBlockMap.all).eraseIdx i).flatten, ?_, ?_⟩
  · rw [all_eq]
    exact flatten_perm_cons_eraseIdx hget
  · rw [all_eq, List.map_set]
    exact flatten_set_perm hget m'.all

theorem all_allocateFrom {maps' : GlobalBlockMap} {k : Nat} {b : Block} (ws : List Nat)
    (h : maps.allocateFrom k ws = some (b, maps')) :
    maps.all.Perm (b :: maps'.all) ∧ b.blockType.toNat = k := by
  induction ws with
  | nil => simp [allocateFrom] at h
  | cons i ws ih =>
    unfold allocateFrom at h
    cases hget : maps[i]? with
    | none =>
      rw [hget] at h
      exact ih h
    | some m =>
      rw [hget] at h
      dsimp only at h
      cases halloc : m.allocateBlock k with
      | none =>
        rw [halloc] at h
        exact ih h
      | some r =>
        obtain ⟨b₀, m'⟩ := r
        rw [halloc, Option.some.injEq, Prod.mk.injEq] at h
        obtain ⟨hb, hmaps⟩ := h
        subst hb
        subst hmaps
        obtain ⟨hperm, htype⟩ := WorkerBlockMap.all_allocateBlock halloc
        obtain ⟨rest, h₁, h₂⟩ := all_set hget m'
        refine ⟨?_, htype⟩
        have h₃ : (m.all ++ rest).Perm (b₀ :: (m'.all ++ rest)) := hperm.append_right rest
        exact (h₁.trans h₃).trans (h₂.symm.cons _)

/-- A cached block comes from the category of the size asked for. -/
theorem all_allocateBlock {maps' : GlobalBlockMap} {worker : Nat} {ioSize : UInt64}
    {b : Block} (h : maps.allocateBlock worker ioSize = some (b, maps')) :
    maps.all.Perm (b :: maps'.all) ∧
      (findBlockTypeForSize ioSize).1 = some b.blockType.toNat := by
  unfold allocateBlock at h
  by_cases hw : worker < maps.length
  · rw [if_pos hw] at h
    cases hk : (findBlockTypeForSize ioSize).1 with
    | none =>
      rw [hk] at h
      simp at h
    | some k =>
      rw [hk] at h
      obtain ⟨hperm, htype⟩ := all_allocateFrom _ h
      exact ⟨hperm, by rw [htype]⟩
  · rw [if_neg hw] at h
    simp at h

theorem all_freeBlock (maps : GlobalBlockMap) (worker : Nat) (b : Block) :
    (maps.freeBlock worker b).all.Perm (b :: maps.all) ∨
      (maps.freeBlock worker b).all.Perm maps.all := by
  unfold freeBlock
  cases hget : maps[worker]? with
  | none => exact Or.inr (List.Perm.refl _)
  | some m =>
    obtain ⟨rest, h₁, h₂⟩ := all_set hget (m.freeBlock b)
    rcases m.all_freeBlock b with hperm | heq
    · have h₃ : ((m.freeBlock b).all ++ rest).Perm (b :: (m.all ++ rest)) :=
        hperm.append_right rest
      exact Or.inl ((h₂.trans h₃).trans (h₁.symm.cons _))
    · rw [heq] at h₂
      exact Or.inr (h₂.trans h₁.symm)

end GlobalBlockMap

/-! ### The heap -/

/-- The alignment, which is never 0. -/
def Heap.unit (h : Heap) : Nat := (if h.alignment == 0 then 4096 else h.alignment).toNat

theorem Heap.unit_bounds (h : Heap) : 0 < h.unit ∧ h.unit < 2 ^ 32 := by
  unfold Heap.unit
  refine ⟨?_, UInt32.toNat_lt _⟩
  by_cases hz : h.alignment == 0
  · rw [if_pos hz]
    decide
  · rw [if_neg hz]
    have hne : h.alignment.toNat ≠ 0 := by
      intro hc
      apply hz
      rw [beq_iff_eq, ← UInt32.toNat_inj]
      exact hc
    omega

/-- For sizes up to the largest category the rounding does not wrap. -/
theorem Heap.align_eq (h : Heap) (size : UInt64) (hsize : size.toNat ≤ 1048576) :
    (h.align size).toNat = (size.toNat + h.unit - 1) / h.unit * h.unit := by
  have hal := h.unit_bounds
  unfold Heap.align
  simp only [UInt64.toNat_mul, UInt64.toNat_div, UInt64.toNat_sub, UInt64.toNat_add,
    UInt32.toNat_toUInt64, UInt64.reduceToNat]
  show (_ + (size.toNat + h.unit) % 2 ^ 64) % 2 ^ 64 / h.unit * h.unit % 2 ^ 64 = _
  have hmod : (2 ^ 64 - 1 + (size.toNat + h.unit) % 2 ^ 64) % 2 ^ 64 =
      size.toNat + h.unit - 1 := by omega
  rw [hmod, Nat.mod_eq_of_lt]
  have hle := Nat.div_mul_le_self (size.toNat + h.unit - 1) h.unit
  omega

theorem Heap.align_toNat (h : Heap) (size : UInt64) (hsize : size.toNat ≤ 1048576) :
    size.toNat ≤ (h.align size).toNat ∧ (h.align size).toNat < 2 ^ 33 := by
  have hal := h.unit_bounds
  have hle := Nat.div_mul_le_self (size.toNat + h.unit - 1) h.unit
  have hlt := Nat.lt_div_mul_add (a := size.toNat + h.unit - 1) hal.1
  rw [h.align_eq size hsize]
  omega

/-! ### The invariant -/

/-- The space of the free blocks and the extents in use lie apart below the heap counter. -/
def AllocInv (a : Allocator) (live : List Extent) : Prop :=
  Packed (a.maps.all.map freeExtent ++ live) a.heap.heap.toNat

namespace Allocator

/-- What a division takes from the heap when no list has a block for it. -/
def heapShare (a : Allocator) (ioSize : UInt64) : Nat :=
  (a.heap.align (findBlockTypeForSize ioSize).2).toNat

variable {ioSize size : UInt64} {a a' : Allocator} {b? : Option Block} {worker : Nat}
  {live : List Extent} {bs : List Block}

theorem heapShare_ge (a : Allocator) (h : ioSize ≤ kMaxBlock) :
    ioSize.toNat ≤ a.heapShare ioSize ∧ 4096 ≤ a.heapShare ioSize := by
  obtain ⟨k, hk, hlt, hle⟩ := findBlockTypeForSize_spec h
  obtain ⟨hmin, hmax⟩ := categorySize_bounds hlt
  have hal := a.heap.align_toNat (kBlockSizes.getD k 0) hmax
  unfold categorySize at hle hmin
  unfold heapShare
  rw [hk]
  dsimp only
  omega

/-- The ways one division can be served. -/
theorem allocateOne_cases
    (hsize : ioSize ≤ kMaxBlock) (hwrap : a.heap.heap.toNat + a.heapShare ioSize < 2 ^ 64)
    (h : a.allocateOne worker ioSize = (b?, a')) :
    (∃ b, b? = some b ∧ a.maps.allocateBlock worker ioSize = some (b, a'.maps) ∧
      a'.heap = a.heap) ∨
    (a.maps.allocateBlock worker ioSize = none ∧ a'.maps = a.maps ∧
      a'.heap.heap.toNat = a.heap.heap.toNat + a.heapShare ioSize ∧
      a'.heap.align = a.heap.align ∧
      ∀ b, b? = some b → b.offset = a.heap.heap ∧ b.size.toNat = a.heapShare ioSize ∧
        (findBlockTypeForSize ioSize).1 = some b.blockType.toNat) := by
  obtain ⟨k, hk, hlt, _⟩ := findBlockTypeForSize_spec hsize
  unfold allocateOne at h
  cases hcached : a.maps.allocateBlock worker ioSize with
  | some r =>
    obtain ⟨b, maps⟩ := r
    rw [hcached, Prod.mk.injEq] at h
    obtain ⟨hb, ha'⟩ := h
    subst ha'
    exact Or.inl ⟨b, hb.symm, rfl, rfl⟩
  | none =>
    rw [hcached, hk] at h
    simp only [Heap.allocate, Option.getD_some] at h
    have hshare : a.heapShare ioSize = (a.heap.align (kBlockSizes.getD k 0)).toNat := by
      rw [heapShare, hk]
    have hsum : (a.heap.heap + a.heap.align (kBlockSizes.getD k 0)).toNat =
        a.heap.heap.toNat + a.heapShare ioSize := by
      rw [UInt64.toNat_add, ← hshare, Nat.mod_eq_of_lt hwrap]
    have htype : (k.toUInt32).toNat = k := by
      unfold kMaxCategories at hlt
      show k % 2 ^ 32 = k
      omega
    refine Or.inr ⟨rfl, ?_⟩
    by_cases hfull : a.heap.heap + a.heap.align (kBlockSizes.getD k 0) > a.heap.totalSize
    · rw [if_pos hfull, Prod.mk.injEq] at h
      obtain ⟨hb, ha'⟩ := h
      subst ha'
      subst hb
      refine ⟨rfl, hsum, rfl, ?_⟩
      intro b hb
      simp at hb
    · rw [if_neg hfull, Prod.mk.injEq] at h
      obtain ⟨hb, ha'⟩ := h
      subst ha'
      subst hb
      refine ⟨rfl, hsum, rfl, ?_⟩
      intro b hb
      rw [Option.some.injEq] at hb
      subst hb
      exact ⟨rfl, hshare.symm, by rw [hk, htype]⟩

/-- A division that is served takes its space from the free lists or from above the heap. -/
theorem allocateOne_inv (hsize : ioSize ≤ kMaxBlock)
    (hwrap : a.heap.heap.toNat + a.heapShare ioSize < 2 ^ 64) (hinv : AllocInv a live)
    (h : a.allocateOne worker ioSize = (b?, a')) :
    AllocInv a' (b?.toList.map freeExtent ++ live) := by
  rcases allocateOne_cases hsize hwrap h with ⟨b, hb, hcached, hheap⟩ | ⟨_, hmaps, hheap, _, hb⟩
  · obtain ⟨hperm, _⟩ := GlobalBlockMap.all_allocateBlock hcached
    have hexts : (a.maps.all.map freeExtent ++ live).Perm
        (freeExtent b :: (a'.maps.all.map freeExtent ++ live)) :=
      (hperm.map freeExtent).append_right live
    unfold AllocInv
    rw [hheap, hb]
    exact (hinv.perm hexts).perm List.perm_middle.symm
  · unfold AllocInv
    rw [hmaps, hheap]
    cases b? with
    | none => exact hinv.mono (by omega)
    | some b =>
      obtain ⟨hoffset, hbsize, htype⟩ := hb b rfl
      obtain ⟨k, hk, hlt, _⟩ := findBlockTypeForSize_spec hsize
      have hkb : k = b.blockType.toNat := by
        rw [hk, Option.some.injEq] at htype
        exact htype
      have hshare : categorySize k ≤ a.heapShare ioSize := by
        obtain ⟨_, hmax⟩ := categorySize_bounds hlt
        rw [heapShare, hk]
        exact (a.heap.align_toNat (kBlockSizes.getD k 0) hmax).1
      have hpush : Packed (freeExtent b :: (a.maps.all.map freeExtent ++ live))
          (a.heap.heap.toNat + a.heapShare ioSize) := by
        refine hinv.push ?_ ?_ (by omega)
        · rw [freeExtent, hoffset]
        · rw [freeExtent, hoffset, ← hkb]
          show a.heap.heap.toNat + categorySize k ≤ _
          omega
      exact hpush.perm List.perm_middle.symm

/-- Blocks put back on a list give their space back, or lose it for good. -/
theorem freeAll_inv (worker : Nat) (bs : List Block) :
    ∀ {a : Allocator} {live : List Extent}, AllocInv a (bs.map freeExtent ++ live) →
      AllocInv (a.freeAll worker bs) live := by
  induction bs with
  | nil =>
    intro a live h
    exact h
  | cons b bs ih =>
    intro a live h
    show AllocInv (freeAll ⟨a.maps.freeBlock worker b, a.heap⟩ worker bs) live
    apply ih
    have hmiddle : Packed (freeExtent b :: (a.maps.all.map freeExtent ++
        (bs.map freeExtent ++ live))) a.heap.heap.toNat := Packed.perm h List.perm_middle
    rcases a.maps.all_freeBlock worker b with hperm | hperm
    · exact hmiddle.perm ((hperm.map freeExtent).append_right _).symm
    · exact (hmiddle.sublist (List.sublist_cons_self _ _)).perm
        ((hperm.map freeExtent).append_right _).symm

/-! ### The loop over the divisions -/

/-- What the loop takes from the heap at most, when it still has room for `n` blocks: it
serves one division more before it notices. -/
def demand (a : Allocator) (n : Nat) (divisions : List UInt64) : Nat :=
  ((divisions.take (n + 1)).map a.heapShare).sum

theorem demand_cons (a : Allocator) (n : Nat) (io : UInt64) (rest : List UInt64) :
    a.demand (n + 1) (io :: rest) = a.heapShare io + a.demand n rest := by
  simp [demand]

theorem heapShare_le_demand (a : Allocator) (n : Nat) (io : UInt64) (rest : List UInt64) :
    a.heapShare io ≤ a.demand n (io :: rest) := by
  simp [demand]

theorem demand_congr (h : a'.heap.align = a.heap.align) (n : Nat)
    (divisions : List UInt64) : a'.demand n divisions = a.demand n divisions := by
  have hshare : a'.heapShare = a.heapShare := by
    funext io
    rw [heapShare, heapShare, h]
  rw [demand, demand, hshare]

/-- One division leaves enough of the heap for the others. -/
theorem allocateOne_demand {n : Nat} {io : UInt64} {rest : List UInt64} (hsize : io ≤ kMaxBlock)
    (hwrap : a.heap.heap.toNat + a.demand (n + 1) (io :: rest) < 2 ^ 64)
    (h : a.allocateOne worker io = (b?, a')) :
    a'.heap.heap.toNat + a'.demand n rest < 2 ^ 64 := by
  rw [demand_cons] at hwrap
  rcases allocateOne_cases hsize (by omega) h with ⟨b, _, _, hheap⟩ | ⟨_, _, hheap, halign, _⟩
  · have hsame : a'.demand n rest = a.demand n rest := demand_congr (by rw [hheap]) n rest
    rw [hsame, hheap]
    omega
  · rw [demand_congr halign, hheap]
    omega

/-- One round of the loop: it gives up, or goes on with one more block. -/
theorem allocateLoop_cons {io : UInt64} {rest : List UInt64} {got bs : List Block} {rc : UInt32}
    (h : allocateLoop worker (io :: rest) got a = ((rc, bs), a')) :
    ∃ b? a₁, a.allocateOne worker io = (b?, a₁) ∧
      ((rc ≠ 0 ∧ bs = [] ∧ a' = a₁.freeAll worker got ∧
          (b?.isSome = true → maxBlocksPerOperation ≤ got.length)) ∨
        ∃ b, b? = some b ∧ (got ++ [b]).length ≤ maxBlocksPerOperation ∧
          maxBlocksPerOperation - got.length = maxBlocksPerOperation - (got ++ [b]).length + 1 ∧
          allocateLoop worker rest (got ++ [b]) a₁ = ((rc, bs), a')) := by
  unfold allocateLoop at h
  obtain ⟨b?, a₁, hone⟩ : ∃ b? a₁, a.allocateOne worker io = (b?, a₁) := ⟨_, _, rfl⟩
  refine ⟨b?, a₁, hone, ?_⟩
  rw [hone] at h
  cases b? with
  | none =>
    simp only [Prod.mk.injEq] at h
    obtain ⟨⟨rfl, rfl⟩, rfl⟩ := h
    exact .inl ⟨by decide, rfl, rfl, fun hsome => absurd hsome Bool.false_ne_true⟩
  | some b =>
    dsimp only at h
    by_cases hfull : got.length ≥ maxBlocksPerOperation
    · rw [if_pos hfull] at h
      simp only [Prod.mk.injEq] at h
      obtain ⟨⟨rfl, rfl⟩, rfl⟩ := h
      exact .inl ⟨by decide, rfl, rfl, fun _ => hfull⟩
    · rw [if_neg hfull] at h
      have hlen : (got ++ [b]).length = got.length + 1 := by simp
      exact .inr ⟨b, rfl, by omega, by omega, h⟩

/-- Whatever the loop replies is apart from everything else, and what it gives up it gives
back. -/
theorem allocateLoop_inv (worker : Nat) (divisions : List UInt64) :
    ∀ {got : List Block} {a a' : Allocator} {live : List Extent} {rc : UInt32} {bs : List Block},
      (∀ io ∈ divisions, io ≤ kMaxBlock) → got.length ≤ maxBlocksPerOperation →
      a.heap.heap.toNat + a.demand (maxBlocksPerOperation - got.length) divisions < 2 ^ 64 →
      AllocInv a (got.map freeExtent ++ live) →
      allocateLoop worker divisions got a = ((rc, bs), a') →
      AllocInv a' (bs.map freeExtent ++ live) := by
  induction divisions with
  | nil =>
    intro got a a' live rc bs _ _ _ hinv h
    simp only [allocateLoop, Prod.mk.injEq] at h
    obtain ⟨⟨_, hbs⟩, ha'⟩ := h
    rw [← hbs, ← ha']
    exact hinv
  | cons io rest ih =>
    intro got a a' live rc bs hsizes hroom hwrap hinv h
    obtain ⟨b?, a₁, hone, hround⟩ := allocateLoop_cons h
    have hio := hsizes io (by simp)
    have hshare := a.heapShare_le_demand (maxBlocksPerOperation - got.length) io rest
    have hinv₁ := allocateOne_inv hio (by omega) hinv hone
    rcases hround with ⟨-, rfl, rfl, -⟩ | ⟨b, rfl, hroom₁, hlen, h⟩
    · cases b? with
      | none => exact freeAll_inv worker got hinv₁
      | some b =>
        -- The block that was one too many is neither returned nor put back.
        refine freeAll_inv worker got (Packed.sublist hinv₁ ?_)
        exact List.Sublist.append_left (List.sublist_cons_self _ _) _
    · have hgot : AllocInv a₁ ((got ++ [b]).map freeExtent ++ live) := by
        rw [List.map_append, List.append_assoc]
        have hswap : (freeExtent b :: (got.map freeExtent ++ live)).Perm
            (got.map freeExtent ++ (freeExtent b :: live)) := List.perm_middle.symm
        exact Packed.perm hinv₁ (hswap.append_left _)
      rw [hlen] at hwrap
      exact ih (fun io' hmem => hsizes io' (List.mem_cons_of_mem _ hmem)) hroom₁
        (allocateOne_demand hio hwrap hone) hgot h

/-- The blocks stand one behind the other from `start` to `stop`. -/
def Tiles (start : Nat) : List Block → Nat → Prop
  | [], stop => stop = start
  | b :: bs, stop => b.offset.toNat = start ∧ Tiles (start + b.size.toNat) bs stop

theorem Tiles.covers : ∀ {start stop : Nat}, Tiles start bs stop →
    ∀ x, start ≤ x → x < stop → bs.any (inSpace · x) = true := by
  induction bs with
  | nil =>
    intro start stop h x hle hlt
    unfold Tiles at h
    omega
  | cons b bs ih =>
    rintro start stop ⟨hoffset, hrest⟩ x hle hlt
    rw [List.any_cons, Bool.or_eq_true]
    by_cases hx : x < start + b.size.toNat
    · left
      exact inSpace_of_size (by omega) (by omega)
    · right
      exact ih hrest x (by omega) hlt

/-- A reply that came from the heap alone is one stretch of it. -/
theorem allocateLoop_tiles (worker : Nat) (divisions : List UInt64) :
    ∀ {got : List Block} {a a' : Allocator} {rc : UInt32} {bs : List Block},
      (∀ io ∈ divisions, io ≤ kMaxBlock ∧ a.maps.allocateBlock worker io = none) →
      got.length ≤ maxBlocksPerOperation →
      a.heap.heap.toNat + a.demand (maxBlocksPerOperation - got.length) divisions < 2 ^ 64 →
      allocateLoop worker divisions got a = ((rc, bs), a') → bs ≠ [] →
      ∃ new, bs = got ++ new ∧ a'.maps = a.maps ∧
        Tiles a.heap.heap.toNat new a'.heap.heap.toNat ∧
        a'.heap.heap.toNat = a.heap.heap.toNat + (divisions.map a.heapShare).sum := by
  induction divisions with
  | nil =>
    intro got a a' rc bs _ _ _ h _
    simp only [allocateLoop, Prod.mk.injEq] at h
    obtain ⟨⟨_, hbs⟩, ha'⟩ := h
    subst hbs
    subst ha'
    exact ⟨[], by simp, rfl, rfl, by simp⟩
  | cons io rest ih =>
    intro got a a' rc bs hdivs hroom hwrap h hne
    obtain ⟨b?, a₁, hone, ⟨-, hnil, -⟩ | ⟨b, rfl, hroom₁, hlen, h⟩⟩ := allocateLoop_cons h
    · exact absurd hnil hne
    obtain ⟨hio, hnone⟩ := hdivs io (by simp)
    have hshare := a.heapShare_le_demand (maxBlocksPerOperation - got.length) io rest
    have hwrap₁ : a₁.heap.heap.toNat +
        a₁.demand (maxBlocksPerOperation - (got ++ [b]).length) rest < 2 ^ 64 := by
      rw [hlen] at hwrap
      exact allocateOne_demand hio hwrap hone
    rcases allocateOne_cases hio (by omega) hone with ⟨b', _, hcached, _⟩ |
      ⟨_, hmaps, hheap, halign, hb⟩
    · rw [hnone] at hcached
      simp at hcached
    obtain ⟨hoffset, hsize, _⟩ := hb b rfl
    have hdivs₁ : ∀ io' ∈ rest, io' ≤ kMaxBlock ∧
        a₁.maps.allocateBlock worker io' = none := by
      rw [hmaps]
      intro io' hmem
      exact hdivs io' (List.mem_cons_of_mem _ hmem)
    obtain ⟨new, hbs, hmaps', htiles, hsum⟩ := ih hdivs₁ hroom₁ hwrap₁ h hne
    refine ⟨b :: new, by rw [hbs, List.append_assoc]; rfl, hmaps'.trans hmaps, ⟨?_, ?_⟩, ?_⟩
    · rw [hoffset]
    · rw [hsize, ← hheap]
      exact htiles
    · have hsame : a₁.heapShare = a.heapShare := by
        funext io'
        rw [heapShare, heapShare, halign]
      rw [hsame] at hsum
      rw [List.map_cons, List.sum_cons]
      omega

/-- What the divisions take from the heap is enough for them. -/
theorem sum_le_sum_heapShare (a : Allocator) {divisions : List UInt64}
    (h : ∀ io ∈ divisions, io ≤ kMaxBlock) :
    (divisions.map UInt64.toNat).sum ≤ (divisions.map a.heapShare).sum ∧
      (divisions ≠ [] → 4096 ≤ (divisions.map a.heapShare).sum) := by
  induction divisions with
  | nil => simp
  | cons io rest ih =>
    have hio := a.heapShare_ge (h io (by simp))
    have hrest := (ih fun io' hmem => h io' (List.mem_cons_of_mem _ hmem)).1
    simp only [List.map_cons, List.sum_cons, ne_eq, reduceCtorEq, not_false_eq_true,
      forall_const]
    omega

/-! ### Divisions -/

theorem ioDivisions_le {io : UInt64} (h : io ∈ ioDivisions size) : io ≤ kMaxBlock := by
  unfold ioDivisions at h
  by_cases hbig : size ≥ kMaxBlock
  · rw [if_pos hbig] at h
    rcases List.mem_append.mp h with h | h
    · rw [(List.mem_replicate.mp h).2]
      exact UInt64.le_refl _
    · by_cases hmod : size % kMaxBlock > 0
      · rw [if_pos hmod, List.mem_singleton] at h
        rw [h]
        exact UInt64.le_of_lt (UInt64.mod_lt _ (by decide))
      · rw [if_neg hmod] at h
        simp at h
  · rw [if_neg hbig, List.mem_singleton] at h
    rw [h]
    exact UInt64.le_of_lt (UInt64.not_le.mp hbig)

theorem ioDivisions_sum (size : UInt64) : ((ioDivisions size).map UInt64.toNat).sum = size.toNat := by
  unfold ioDivisions
  by_cases hbig : size ≥ kMaxBlock
  · rw [if_pos hbig, List.map_append, List.sum_append, List.map_replicate, List.sum_replicate_nat]
    have hrest : ((if size % kMaxBlock > 0 then [size % kMaxBlock] else []).map UInt64.toNat).sum =
        size.toNat % kMaxBlock.toNat := by
      by_cases hmod : size % kMaxBlock > 0
      · rw [if_pos hmod]
        simp
      · rw [if_neg hmod]
        have hzero : size % kMaxBlock = 0 := by
          rw [gt_iff_lt, UInt64.not_lt] at hmod
          exact UInt64.le_zero_iff.mp hmod
        have := congrArg UInt64.toNat hzero
        rw [UInt64.toNat_mod] at this
        simpa using this.symm
    rw [hrest, UInt64.toNat_div]
    exact Nat.div_add_mod' size.toNat kMaxBlock.toNat
  · rw [if_neg hbig]
    simp

/-- One division, for a size that one block can hold. -/
theorem ioDivisions_small (h : size ≤ kMaxBlock) : ioDivisions size = [size] := by
  unfold ioDivisions
  by_cases hbig : size ≥ kMaxBlock
  · have heq : size = kMaxBlock := UInt64.le_antisymm h hbig
    rw [if_pos hbig, heq]
    decide
  · rw [if_neg hbig]

theorem ioDivisions_many (h : 64 * kMaxBlock < size) :
    maxBlocksPerOperation < (ioDivisions size).length := by
  have hnat : 64 * 1048576 < size.toNat := UInt64.lt_iff_toNat_lt.mp h
  have hbig : size ≥ kMaxBlock := by
    rw [ge_iff_le, UInt64.le_iff_toNat_le]
    show 1048576 ≤ size.toNat
    omega
  unfold ioDivisions
  rw [if_pos hbig, List.length_append, List.length_replicate, UInt64.toNat_div]
  have hquot : 64 ≤ size.toNat / 1048576 := by omega
  by_cases hmod : size % kMaxBlock > 0
  · rw [if_pos hmod]
    show 64 < size.toNat / 1048576 + 1
    omega
  · rw [if_neg hmod]
    have hzero : (size % kMaxBlock).toNat = 0 := by
      rw [gt_iff_lt, UInt64.not_lt] at hmod
      rw [UInt64.le_zero_iff.mp hmod]
      rfl
    rw [UInt64.toNat_mod] at hzero
    have hdvd : size.toNat % 1048576 = 0 := hzero
    show 64 < size.toNat / 1048576 + 0
    omega

/-- A request of too many divisions gets nothing. -/
theorem allocateLoop_long (worker : Nat) (divisions : List UInt64) :
    ∀ {got : List Block} {a a' : Allocator} {rc : UInt32} {bs : List Block},
      maxBlocksPerOperation < got.length + divisions.length →
      got.length ≤ maxBlocksPerOperation →
      allocateLoop worker divisions got a = ((rc, bs), a') → bs = [] := by
  induction divisions with
  | nil =>
    intro got a a' rc bs hlong hroom _
    rw [List.length_nil] at hlong
    omega
  | cons io rest ih =>
    intro got a a' rc bs hlong hroom h
    obtain ⟨_, _, _, ⟨_, hnil, _⟩ | ⟨b, _, hroom₁, _, hnext⟩⟩ := allocateLoop_cons h
    · exact hnil
    · refine ih ?_ hroom₁ hnext
      rw [List.length_append, List.length_singleton]
      rw [List.length_cons] at hlong
      omega

/-! ### A request -/

/-- The condition under which the first block of the reply stands for the whole of it: one
block is enough, or the reply is empty anyway, or no free list has a block to give, so that
all of it comes from the heap; and the heap counter does not wrap. -/
def WellServed (a : Allocator) (worker : Nat) (size : UInt64) : Prop :=
  (size ≤ kMaxBlock ∨ 64 * kMaxBlock < size ∨
    ∀ io ∈ ioDivisions size, a.maps.allocateBlock worker io = none) ∧
  a.heap.heap.toNat + a.demand maxBlocksPerOperation (ioDivisions size) < 2 ^ 64

instance (a : Allocator) (worker : Nat) (size : UInt64) : Decidable (a.WellServed worker size) :=
  inferInstanceAs (Decidable (_ ∧ _))

/-- The extent a client holds that took a block for `size` bytes. -/
def clientExtent (offset size : UInt64) : Extent := (offset.toNat, max size.toNat 4096)

/-- A single block is as large as was asked for. -/
theorem allocateLoop_single {rc : UInt32} {b : Block} (hsize : size ≤ kMaxBlock)
    (hwrap : a.heap.heap.toNat + a.heapShare size < 2 ^ 64)
    (h : allocateLoop worker [size] [] a = ((rc, b :: bs), a')) :
    bs = [] ∧ size.toNat ≤ categorySize b.blockType.toNat ∧
      4096 ≤ categorySize b.blockType.toNat := by
  unfold allocateLoop at h
  obtain ⟨b?, a₁, hone⟩ : ∃ b? a₁, a.allocateOne worker size = (b?, a₁) := ⟨_, _, rfl⟩
  rw [hone] at h
  cases b? with
  | none => simp at h
  | some b' =>
    rw [maxBlocksPerOperation, List.length_nil] at h
    simp only [ge_iff_le, Nat.reduceLeDiff, if_false, List.nil_append, allocateLoop,
      Prod.mk.injEq, List.cons.injEq] at h
    obtain ⟨⟨_, hb, hbs⟩, _⟩ := h
    have htype : (findBlockTypeForSize size).1 = some b.blockType.toNat := by
      rw [← hb]
      rcases allocateOne_cases hsize hwrap hone with ⟨b'', hb'', hcached, _⟩ | ⟨_, _, _, _, hheap⟩
      · rw [Option.some.injEq] at hb''
        subst hb''
        exact (GlobalBlockMap.all_allocateBlock hcached).2
      · exact (hheap b' rfl).2.2
    obtain ⟨k, hk, hlt, hle⟩ := findBlockTypeForSize_spec hsize
    rw [hk, Option.some.injEq] at htype
    rw [← htype]
    exact ⟨hbs.symm, hle, (categorySize_bounds hlt).1⟩

/-- **A well served client owns what it takes the first block for.**  Either it got nothing
and nothing changed hands, or the extent from the start of the first block on, as long as
the request, is apart from everything else, and all of it was handed out. -/
theorem allocateBlocks_spec
    {rc : UInt32} (hserved : a.WellServed worker size) (hinv : AllocInv a live)
    (h : a.allocateBlocks worker size = ((rc, bs), a')) :
    (bs = [] ∧ AllocInv a' live) ∨
    (∃ b rest, bs = b :: rest ∧ AllocInv a' (clientExtent b.offset size :: live) ∧
      ∀ x, b.offset.toNat ≤ x → x < b.offset.toNat + size.toNat →
        bs.any (inSpace · x) = true) := by
  obtain ⟨hshape, hwrap⟩ := hserved
  unfold allocateBlocks at h
  by_cases hzero : (size == 0) = true
  · rw [if_pos hzero] at h
    simp only [Prod.mk.injEq] at h
    obtain ⟨⟨_, hbs⟩, ha'⟩ := h
    rw [← ha']
    exact Or.inl ⟨hbs.symm, hinv⟩
  rw [if_neg hzero] at h
  have hloop : AllocInv a' (bs.map freeExtent ++ live) :=
    allocateLoop_inv worker (ioDivisions size) (fun io hio => ioDivisions_le hio) (by decide) hwrap
      hinv h
  cases hbs : bs with
  | nil =>
    rw [hbs] at hloop
    exact Or.inl ⟨rfl, hloop⟩
  | cons b rest =>
    refine Or.inr ⟨b, rest, rfl, ?_⟩
    rcases hshape with hsmall | hhuge | hheap
    · -- One block, of a category that holds the size.
      rw [ioDivisions_small hsmall] at h hwrap
      rw [hbs] at h hloop
      have hshare : a.heap.heap.toNat + a.heapShare size < 2 ^ 64 := by
        have := a.heapShare_le_demand maxBlocksPerOperation size []
        omega
      obtain ⟨hrest, hle, hmin⟩ := allocateLoop_single hsmall hshare h
      subst hrest
      refine ⟨?_, ?_⟩
      · refine Packed.perm (Packed.shrink (Packed.perm hloop List.perm_middle) ?_ ?_)
          List.perm_middle.symm
        · exact Nat.le_refl _
        · show b.offset.toNat + max size.toNat 4096 ≤
            b.offset.toNat + categorySize b.blockType.toNat
          omega
      · intro x hle' hlt
        rw [List.any_cons, inSpace_of_category hle' (by omega)]
        rfl
    · have hnil := allocateLoop_long worker (ioDivisions size) (by
        have := ioDivisions_many hhuge
        simpa using this) (by decide) h
      rw [hnil] at hbs
      simp at hbs
    · -- All of it from the heap, in one stretch.
      rw [hbs] at h
      have hdivs : ∀ io ∈ ioDivisions size, io ≤ kMaxBlock ∧
          a.maps.allocateBlock worker io = none :=
        fun io hio => ⟨ioDivisions_le hio, hheap io hio⟩
      have hroom : ([] : List Block).length ≤ maxBlocksPerOperation := by decide
      obtain ⟨new, hnew, hmaps, htiles, hsum⟩ :=
        allocateLoop_tiles worker (ioDivisions size) hdivs hroom hwrap h (by simp)
      rw [List.nil_append] at hnew
      rw [← hnew] at htiles
      obtain ⟨hshare, hmin⟩ := a.sum_le_sum_heapShare fun io hio => @ioDivisions_le size io hio
      rw [ioDivisions_sum] at hshare
      have hne : ioDivisions size ≠ [] := by
        intro hnil
        have hsize := ioDivisions_sum size
        rw [hnil] at hsize
        apply hzero
        rw [beq_iff_eq, ← UInt64.toNat_inj]
        exact hsize.symm
      have hpage := hmin hne
      have hoffset : b.offset.toNat = a.heap.heap.toNat := htiles.1
      refine ⟨?_, ?_⟩
      · have hpush : Packed (clientExtent b.offset size :: (a.maps.all.map freeExtent ++ live))
            a'.heap.heap.toNat := by
          refine hinv.push ?_ ?_ (by omega)
          · show _ ≤ b.offset.toNat
            omega
          · show b.offset.toNat + max size.toNat 4096 ≤ _
            omega
        unfold AllocInv
        rw [hmaps]
        exact hpush.perm List.perm_middle.symm
      · intro x hle hlt
        exact htiles.covers x (by omega) (by omega)

/-- What a client took and frees again becomes free space.  A freed block has type 0, so
no more than one page of it is used again. -/
theorem freeBlocks_spec {blocks : List Block} (htype : ∀ b ∈ blocks, b.blockType = 0)
    (hinv : AllocInv a ((blocks.map fun b => clientExtent b.offset b.size) ++ live)) :
    AllocInv (a.freeBlocks worker blocks) live := by
  apply freeAll_inv
  have hshrink : Packed (blocks.map freeExtent ++ (a.maps.all.map freeExtent ++ live))
      a.heap.heap.toNat := by
    refine Packed.shrink_map ?_ (Packed.perm hinv (List.perm_append_comm_assoc _ _ _))
    intro b hb
    refine ⟨Nat.le_refl _, ?_⟩
    show b.offset.toNat + categorySize b.blockType.toNat ≤ b.offset.toNat + max b.size.toNat 4096
    rw [htype b hb]
    have hpage : categorySize (0 : UInt32).toNat = 4096 := by decide
    omega
  exact hshrink.perm (List.perm_append_comm_assoc _ _ _)

/-- A new allocator has no free block. -/
theorem init_all (numWorkers : Nat) :
    GlobalBlockMap.all (List.replicate numWorkers WorkerBlockMap.empty) = [] := by
  rw [GlobalBlockMap.all, List.flatMap_eq_nil_iff]
  intro m hm
  rw [(List.mem_replicate.mp hm).2]
  decide

theorem init_inv (numWorkers : Nat) (fileSize : UInt64) (alignment : UInt32) :
    AllocInv (init numWorkers fileSize alignment) [] := by
  show Packed ((GlobalBlockMap.all (List.replicate numWorkers WorkerBlockMap.empty)).map freeExtent ++
    []) _
  rw [init_all]
  exact Packed.nil _

end Allocator

end Bdev
end IowarpCore
