/-
What the buddy allocator hands out does not overlap, as long as it splits pages well.

`Full` adds the two bump heaps to `Core`: what is left of them is in hand.  Every operation
keeps `Full`, and an allocation moves one page into use that is as large as was asked for.

The exception is the remainder of a large page.  It becomes a page of its own however small it
is: with less than a header its size is a difference below zero, and with less than the
smallest class it goes to a list whose pages are handed out as larger than it is.  `Fine`
leaves out the requests that split a page so, and those whose size wraps around.
-/
import IowarpCore.Lib.Along
import IowarpCore.Proofs.BuddyPages

namespace IowarpCore
namespace Shm

open Extent
open BuddyPage (kHeader kFreeMask)

namespace Buddy

/-! ### Sizes -/

theorem roundUp_spec {size : Nat} (h : size + 7 < 2 ^ 64) :
    size ≤ roundUp size ∧ kMinSize ≤ roundUp size := by
  have hwrap : wrap (max size kMinSize + 7) = max size kMinSize + 7 := by
    refine Nat.mod_eq_of_lt ?_
    simp only [kMinSize]
    omega
  rw [roundUp, hwrap]
  simp only [kMinSize]
  omega

theorem mem_ids_small {i : Nat} : ListId.small i ∈ ids ↔ i < kMaxSmallPages := by
  simp [ids]

theorem mem_ids_large {i : Nat} : ListId.large i ∈ ids ↔ i < kMaxLargePages := by
  simp [ids]

/-- The class of a small request. -/
theorem getSmallPageListIndexForAlloc_spec {size : Nat} (hmax : size ≤ kSmallThreshold) :
    ∃ i, getSmallPageListIndexForAlloc size = (i, 2 ^ (i + kMinLog2)) ∧ i < kMaxSmallPages ∧
      size ≤ 2 ^ (i + kMinLog2) ∧ 2 ^ (i + kMinLog2) ≤ kSmallThreshold := by
  rw [getSmallPageListIndexForAlloc]
  split
  next hle => exact ⟨0, rfl, by decide, hle, by decide⟩
  next hgt =>
    have hclog : size ≤ 2 ^ Nat.clog 2 size := Nat.le_pow_clog (by decide) size
    have hlow : kMinLog2 < Nat.clog 2 size :=
      (Nat.lt_clog_iff_pow_lt (by decide)).mpr (Nat.lt_of_not_le hgt)
    have hhigh : Nat.clog 2 size ≤ kSmallLog2 := (Nat.clog_le_iff_le_pow (by decide)).mpr hmax
    rw [if_neg (by omega), if_neg (by omega)]
    have heq : Nat.clog 2 size - kMinLog2 + kMinLog2 = Nat.clog 2 size := by omega
    refine ⟨Nat.clog 2 size - kMinLog2, by rw [heq], ?_, by rw [heq]; exact hclog, ?_⟩
    · simp only [kSmallLog2, kMinLog2, kMaxSmallPages] at *
      omega
    · rw [heq]
      exact Nat.pow_le_pow_right (by decide) hhigh

/-- A page that is free goes to a list whose pages are no larger. -/
theorem listForFree_spec {dataSize : Nat} (h : kMinSize ≤ dataSize) :
    listForFree dataSize ∈ ids ∧
      ∀ i, listForFree dataSize = .small i → 2 ^ (i + kMinLog2) ≤ dataSize := by
  rw [listForFree]
  split
  next hsmall =>
    rw [mem_ids_small, getSmallPageListIndexForFree]
    split
    · refine ⟨by decide, ?_⟩
      intro i heq
      rw [ListId.small.injEq] at heq
      rw [← heq]
      exact h
    next hgt =>
      have hlow : kMinLog2 ≤ Nat.log 2 dataSize :=
        (Nat.le_log_iff_pow_le (by decide) (by omega)).mpr h
      have hhigh : Nat.log 2 dataSize ≤ kSmallLog2 := by
        rw [← Nat.lt_succ_iff]
        refine (Nat.log_lt_iff_lt_pow (by decide) (by omega)).mpr ?_
        simp only [kSmallThreshold, kSmallLog2] at *
        omega
      rw [if_neg (by omega), if_neg (by omega)]
      refine ⟨?_, ?_⟩
      · simp only [kSmallLog2, kMinLog2, kMaxSmallPages] at *
        omega
      · intro i heq
        rw [ListId.small.injEq] at heq
        have hsum : i + kMinLog2 = Nat.log 2 dataSize := by omega
        rw [hsum]
        exact Nat.pow_log_le_self 2 (by omega)
  next hlarge =>
    rw [mem_ids_large, getLargePageListIndexForFree, getLargePageListIndexForAlloc]
    refine ⟨?_, by simp⟩
    rw [if_neg hlarge]
    dsimp only
    split
    · decide
    · split
      · decide
      · simp only [kSmallLog2, kMaxLog2, kMaxLargePages] at *
        omega

/-! ### The heaps -/

/-- What is left of a heap. -/
def spare (h : Heap) : List Extent :=
  if h.heap < h.maxOffset then [(h.heap, h.maxOffset - h.heap)] else []

structure InBounds (h : Heap) : Prop where
  order : h.heap ≤ h.maxOffset
  bound : h.maxOffset ≤ kFreeMask

section

variable {s : Buddy} {rep : ListId → List Offset} {live : List Offset}
  {bodies hands : List Extent} {h : Heap} {total size : Nat} {p n : Nat}

/-- A request that is not huge does not wrap around. -/
theorem InBounds.no_wrap (hbounds : InBounds h) (hsize : total < kFreeMask) :
    h.heap + total < 2 ^ 64 := by
  obtain ⟨horder, hbound⟩ := hbounds
  simp only [kFreeMask] at *
  omega

theorem spare_of_eq (heq : h.heap = h.maxOffset) : spare h = [] := by
  rw [spare, if_neg (by omega)]

/-- An allocation from a heap fails, or takes its front. -/
theorem allocate_cases (hsize : h.heap + total < 2 ^ 64) :
    h.allocate total = (0, h) ∨
      (h.heap + total ≤ h.maxOffset ∧
        h.allocate total = (h.heap, { h with heap := h.heap + total })) := by
  have hwrap : wrap (h.heap + total) = h.heap + total := Nat.mod_eq_of_lt hsize
  simp only [Heap.allocate, hwrap]
  by_cases hgt : h.heap + total > h.maxOffset
  · exact Or.inl (by rw [if_pos hgt])
  · exact Or.inr ⟨by omega, by rw [if_neg hgt, if_neg hgt]⟩

/-- The front of a heap is in hand. -/
theorem Core.takeFront (hcore : Core s rep live bodies (spare h ++ hands)) (hpos : 0 < total)
    (hle : h.heap + total ≤ h.maxOffset) :
    Core s rep live bodies
      ((h.heap, total) :: (spare { h with heap := h.heap + total } ++ hands)) := by
  have hspare : spare h = [(h.heap, total + (h.maxOffset - (h.heap + total)))] := by
    rw [spare, if_pos (by omega)]
    congr 2
    omega
  rw [hspare, List.singleton_append] at hcore
  have hsplit := hcore.split
  rw [spare]
  split
  · exact hsplit
  · exact hsplit.rehand fun _ hes => hes.sublist (List.Sublist.cons_cons _ (List.sublist_cons_self _ _))

theorem Core.heap_pos (hcore : Core s rep live bodies (spare h ++ hands))
    (hstart : ∀ b ∈ bodies, 0 < b.1) (hlt : h.heap < h.maxOffset) : h.heap ≠ 0 := by
  obtain ⟨b, hb, hle, -⟩ := hcore.carved.inside (h.heap, h.maxOffset - h.heap)
    (by simp [spare, hlt])
  have hpos := hstart b hb
  simp only at hle
  omega

/-! ### Dividing -/

theorem divideClass_spec {i : Nat} (hi : i < kMaxSmallPages) {m : Nat} :
    ∀ {n off : Nat} {s : Buddy} {rep : ListId → List Offset},
      Core s rep live bodies ((off, n * (2 ^ (i + kMinLog2) + kHeader) + m) :: hands) →
      ∃ rep', Core (s.divideClass i n off) rep' live bodies
          ((off + n * (2 ^ (i + kMinLog2) + kHeader), m) :: hands) ∧
        Keeps s (s.divideClass i n off) live ∧ SameHeaps s (s.divideClass i n off) := by
  intro n
  induction n with
  | zero =>
    intro off s rep h
    refine ⟨rep, ?_, fun _ _ => rfl, ⟨rfl, rfl⟩⟩
    simpa [divideClass] using h
  | succ n ih =>
    intro off s rep h
    have hclass : 2 ^ (i + kMinLog2) < kFreeMask := by
      refine Nat.pow_lt_pow_right (by decide) ?_
      simp only [kMaxSmallPages, kMinLog2] at *
      omega
    rw [Nat.succ_mul, Nat.add_comm (n * _), Nat.add_assoc] at h
    obtain ⟨hcore, hkeeps, hsame⟩ := h.split.addFreePage (mem_ids_small.mpr hi)
      (Nat.le_of_eq (Nat.add_comm _ _)) hclass (fun j heq => by
        rw [ListId.small.injEq] at heq
        rw [heq])
    obtain ⟨rep', hcore', hkeeps', hsame'⟩ := ih hcore
    refine ⟨rep', ?_, hkeeps.trans hkeeps', hsame.trans hsame'⟩
    rw [Nat.succ_mul, Nat.add_comm (n * _), ← Nat.add_assoc]
    exact hcore'

theorem divideLoop_spec : ∀ {i off remaining : Nat} {s : Buddy} {rep : ListId → List Offset},
    i ≤ kMaxSmallPages → Core s rep live bodies ((off, remaining) :: hands) →
    ∃ rep', Core (s.divideLoop i off remaining) rep' live bodies hands ∧
      Keeps s (s.divideLoop i off remaining) live ∧ SameHeaps s (s.divideLoop i off remaining) := by
  intro i
  induction i with
  | zero =>
    intro off remaining s rep _ h
    exact ⟨rep, h.drop, fun _ _ => rfl, ⟨rfl, rfl⟩⟩
  | succ i ih =>
    intro off remaining s rep hi h
    rw [← Nat.add_sub_of_le (Nat.div_mul_le_self remaining (2 ^ (i + kMinLog2) + kHeader))] at h
    obtain ⟨rep₁, hcore₁, hkeeps₁, hsame₁⟩ := divideClass_spec (by omega) h
    obtain ⟨rep₂, hcore₂, hkeeps₂, hsame₂⟩ := ih (by omega) hcore₁
    exact ⟨rep₂, hcore₂, hkeeps₁.trans hkeeps₂, hsame₁.trans hsame₂⟩

/-- What was left of a heap is on the small lists. -/
theorem divideArenaIntoPages_spec (hcore : Core s rep live bodies (spare h ++ hands))
    (hbounds : InBounds h) :
    ∃ rep' h' s', s.divideArenaIntoPages h = (h', s') ∧ Core s' rep' live bodies hands ∧
      Keeps s s' live ∧ SameHeaps s s' ∧ InBounds h' ∧ spare h' = [] := by
  have hremaining : wrap (h.maxOffset + (2 ^ 64 - h.heap)) = h.maxOffset - h.heap := by
    obtain ⟨horder, hbound⟩ := hbounds
    simp only [kFreeMask] at hbound
    have hsum : h.maxOffset + (2 ^ 64 - h.heap) = h.maxOffset - h.heap + 2 ^ 64 := by omega
    rw [wrap, hsum, Nat.add_mod_right, Nat.mod_eq_of_lt (by omega)]
  rw [divideArenaIntoPages, hremaining]
  by_cases hzero : h.maxOffset - h.heap = 0
  · have heq : h.heap = h.maxOffset := by
      have horder := hbounds.order
      omega
    rw [spare_of_eq heq] at hcore
    exact ⟨rep, h, s, by simp [hzero], hcore, fun _ _ => rfl, ⟨rfl, rfl⟩, hbounds, spare_of_eq heq⟩
  · rw [spare, if_pos (by omega), List.singleton_append] at hcore
    obtain ⟨rep', hcore', hkeeps, hsame⟩ := divideLoop_spec (Nat.le_refl _) hcore
    exact ⟨rep', ⟨h.maxOffset, h.maxOffset⟩, _, by simp only [hzero, if_false], hcore', hkeeps,
      hsame, ⟨Nat.le_refl _, hbounds.bound⟩, spare_of_eq rfl⟩

/-! ### The invariant -/

/-- The allocator as a whole: what is left of the heaps is in hand, and the pages in use are
large enough for a list. -/
structure Full (s : Buddy) (rep : ListId → List Offset) (live : List Offset)
    (bodies : List Extent) : Prop where
  core : Core s rep live bodies (spare s.smallArena ++ spare s.bigHeap)
  arena : InBounds s.smallArena
  big : InBounds s.bigHeap
  start : ∀ b ∈ bodies, 0 < b.1
  bound : ∀ b ∈ bodies, b.stop ≤ kFreeMask
  usable : ∀ p ∈ live, kMinSize ≤ sizeAt s.mem p

/-- The order of the pages in use does not matter. -/
theorem Full.perm {live' : List Offset} (h : Full s rep live bodies) (hperm : live.Perm live') :
    Full s rep live' bodies := by
  refine ⟨⟨h.core.chains, h.core.counts, h.core.outside, ?_, h.core.classes⟩, h.arena, h.big,
    h.start, h.bound, ?_⟩
  · exact h.core.carved.perm (((hperm.append_right _).map _).append_left _)
  · exact fun p hp => h.usable p (hperm.mem_iff.mpr hp)

/-- An allocation returned null, or a pointer to a page that is in use now. -/
def Gives (s s' : Buddy) (live : List Offset) (bodies : List Extent) (size : Nat)
    (ptr : OffsetPtr) : Prop :=
  Keeps s s' live ∧
    ((ptr = none ∧ ∃ rep, Full s' rep live bodies) ∨
      ∃ page rep, ptr = some (page + kHeader) ∧ size ≤ sizeAt s'.mem page ∧
        Full s' rep (page :: live) bodies)

/-- A stretch in hand is handed out. -/
theorem finalizeAllocation_spec (hcore : Core s rep live bodies ((p, n) :: hands))
    (hsize : kHeader + size ≤ n) (hlt : size < kFreeMask) :
    ∃ s', s.finalizeAllocation p size = (p + kHeader, s') ∧ Core s' rep (p :: live) bodies hands ∧
      sizeAt s'.mem p = size ∧ Keeps s s' live ∧ SameHeaps s s' := by
  have hget : ∀ page : BuddyPage, (BuddyPage.markAllocated { page with size := size }).getSize = size := by
    intro page
    rw [getSize_markAllocated]
    exact getSize_of_lt hlt
  have hpos : 0 < n := by
    simp only [kHeader] at hsize
    omega
  refine ⟨_, rfl, hcore.use _ (by rw [hget]; exact hsize), ?_, keeps_write (hcore.not_mem hpos),
    ⟨rfl, rfl⟩⟩
  rw [sizeAt, writePage_self, hget]

/-- The same, when the rest of the allocator is in order. -/
theorem Full.gives (s₁ : Buddy) {rep₁ : ListId → List Offset} (h : Full s rep live bodies)
    (hkeeps : Keeps s s₁ live)
    (hcore : Core s₁ rep₁ live bodies ((p, n) :: (spare s₁.smallArena ++ spare s₁.bigHeap)))
    (harena : InBounds s₁.smallArena) (hbig : InBounds s₁.bigHeap)
    (hsize : kHeader + size ≤ n) (hlt : size < kFreeMask) (hmin : kMinSize ≤ size) :
    ∃ s', s₁.finalizeAllocation p size = (p + kHeader, s') ∧
      Gives s s' live bodies size (some (p + kHeader)) := by
  obtain ⟨s', hfinal, hcore', hsize', hkeeps', hsame⟩ := finalizeAllocation_spec hcore hsize hlt
  refine ⟨s', hfinal, hkeeps.trans hkeeps', Or.inr ⟨p, rep₁, rfl, Nat.le_of_eq hsize'.symm, ?_⟩⟩
  refine ⟨?_, ?_, ?_, h.start, h.bound, ?_⟩
  · rw [hsame.smallArena, hsame.bigHeap]
    exact hcore'
  · rw [hsame.smallArena]
    exact harena
  · rw [hsame.bigHeap]
    exact hbig
  · intro q hq
    rcases List.mem_cons.mp hq with rfl | hq
    · rw [hsize']
      exact hmin
    · rw [hkeeps' q hq, hkeeps q hq]
      exact h.usable q hq

/-! ### Allocation -/

theorem allocateFromHeap_spec (h : Full s rep live bodies) (hmin : kMinSize ≤ size)
    (hlt : s.bigHeap.heap + (size + kHeader) < 2 ^ 64) :
    ∃ ptr s', s.allocateFromHeap size (size + kHeader) = (ptr, s') ∧
      Gives s s' live bodies size ptr := by
  rcases allocate_cases hlt with hnone | ⟨hle, hsome⟩
  · refine ⟨none, s, ?_, fun _ _ => rfl, Or.inl ⟨rfl, rep, h⟩⟩
    simp [allocateFromHeap, hnone]
  · have hpos : 0 < size + kHeader := by
      simp only [kHeader]
      omega
    have hcore := h.core.perm List.perm_append_comm
    have hheap : s.bigHeap.heap ≠ 0 := hcore.heap_pos h.start (by omega)
    have htaken := (hcore.takeFront hpos hle).perm (List.Perm.cons _ List.perm_append_comm)
    have hsize : size < kFreeMask := by
      have hbound := h.big.bound
      omega
    obtain ⟨s', hfinal, hgives⟩ := h.gives
      { s with bigHeap := { s.bigHeap with heap := s.bigHeap.heap + (size + kHeader) } }
      (fun _ _ => rfl) (htaken.congr rfl rfl) h.arena ⟨hle, h.big.bound⟩
      (Nat.le_of_eq (Nat.add_comm _ _)) hsize hmin
    refine ⟨_, s', ?_, hgives⟩
    simp [allocateFromHeap, hsome, hheap, hfinal]

/-- A page of a list is as large as its class. -/
theorem allocateFromList_spec (h : Full s rep live bodies) {i : Nat} (hi : i < kMaxSmallPages) :
    s.allocateFromList i (2 ^ (i + kMinLog2)) = (none, s) ∨
      ∃ ptr s', s.allocateFromList i (2 ^ (i + kMinLog2)) = (some ptr, s') ∧
        Gives s s' live bodies (2 ^ (i + kMinLog2)) (some ptr) := by
  have hcount := h.core.counts (.small i)
  cases hrep : rep (.small i) with
  | nil =>
    rw [hrep] at hcount
    exact Or.inl (by simp [allocateFromList, hcount])
  | cons page l =>
    rw [hrep] at hcount
    obtain ⟨s₁, hpop, hmem, harena, hbig, hcore⟩ := h.core.pop hrep
    have hclass : 2 ^ (i + kMinLog2) ≤ sizeAt s₁.mem page := by
      rw [hmem]
      exact h.core.classes i page (by simp [hrep])
    have hhand := hcore.release (p := page) (by simp)
    rw [List.erase_cons_head, ← harena, ← hbig] at hhand
    have hlt : 2 ^ (i + kMinLog2) < kFreeMask := by
      refine Nat.pow_lt_pow_right (by decide) ?_
      simp only [kMaxSmallPages, kMinLog2] at *
      omega
    obtain ⟨s', hfinal, hgives⟩ := h.gives _ (fun q _ => by rw [hmem]) hhand
      (by rw [harena]; exact h.arena) (by rw [hbig]; exact h.big)
      (Nat.add_le_add_left hclass kHeader) hlt
      (Nat.pow_le_pow_right (show 0 < 2 by decide) (Nat.le_add_left 5 i))
    refine Or.inr ⟨_, s', ?_, hgives⟩
    simp [allocateFromList, hcount, hpop, hfinal]

/-- A stretch becomes the small arena. -/
theorem Full.newArena (s₁ : Buddy) {rep₁ : ListId → List Offset} (h : Full s rep live bodies)
    (hkeeps : Keeps s s₁ live) (hcore : Core s₁ rep₁ live bodies ((p, n) :: spare s₁.bigHeap))
    (hbig : InBounds s₁.bigHeap) (hpos : 0 < n) :
    Full { s₁ with smallArena := ⟨p, p + n⟩ } rep₁ live bodies := by
  obtain ⟨b, hb, -, hstop⟩ := hcore.carved.inside (p, n) (by simp)
  have hbound := h.bound b hb
  simp only [stop] at hstop
  refine ⟨Core.congr (s := s₁) ?_ rfl rfl, ⟨Nat.le_add_right _ _, Nat.le_trans hstop hbound⟩, hbig,
    h.start, h.bound, ?_⟩
  · have hspare : spare ⟨p, p + n⟩ = [(p, n)] := by
      rw [spare, if_pos (Nat.lt_add_of_pos_right hpos)]
      simp
    rw [hspare]
    exact hcore
  · intro r hr
    simp only
    rw [hkeeps r hr]
    exact h.usable r hr

/-- A large page becomes the small arena. -/
theorem arenaFromLists_spec {arenaSize : Nat} (hpos : 0 < arenaSize) (k : Nat)
    (h : Full s rep live bodies) (hempty : spare s.smallArena = []) :
    ∃ found s' rep', s.arenaFromLists arenaSize k = some (found, s') ∧ Keeps s s' live ∧
      Full s' rep' live bodies := by
  induction k with
  | zero => exact ⟨false, s, rep, rfl, fun _ _ => rfl, h⟩
  | succ k ih =>
    rcases findFirstFit_spec h.core h.start (kMaxLargePages - (k + 1)) arenaSize with
      ⟨hfit, -⟩ | ⟨q, s₁, l, hfit, hq, hfind, hsizes, hsame, hcore, -⟩
    · obtain ⟨found, s', rep', harena, hkeeps, hfull⟩ := ih
      refine ⟨found, s', rep', ?_, hkeeps, hfull⟩
      simp [arenaFromLists, hfit, harena]
    · have hle : arenaSize ≤ kHeader + sizeAt s₁.mem q := by
        have hfits := List.find?_some hfind
        rw [hsizes, Nat.add_comm]
        simpa using hfits
      have hhand := hcore.release (p := q) (by simp)
      rw [List.erase_cons_head, hempty, List.nil_append] at hhand
      have harena := hhand.shrink hle
      rw [← hsame.bigHeap] at harena
      have hfull := h.newArena _ (fun r _ => hsizes r) harena (by rw [hsame.bigHeap]; exact h.big) hpos
      refine ⟨true, _, _, ?_, ?_, hfull⟩
      · simp [arenaFromLists, hfit, hq]
      · exact fun r _ => hsizes r

/-- Dividing the arena leaves none. -/
theorem Full.divided (h : Full s rep live bodies) :
    ∃ rep' arena s₁, s.divideArenaIntoPages s.smallArena = (arena, s₁) ∧
      Full { s₁ with smallArena := arena } rep' live bodies ∧ Keeps s s₁ live ∧ SameHeaps s s₁ ∧
      spare arena = [] := by
  obtain ⟨rep', arena, s₁, hdivide, hcore, hkeeps, hsame, hbounds, hempty⟩ :=
    divideArenaIntoPages_spec h.core h.arena
  refine ⟨rep', arena, s₁, hdivide, ⟨Core.congr (s := s₁) ?_ rfl rfl, hbounds, ?_, h.start,
    h.bound, ?_⟩, hkeeps, hsame, hempty⟩
  · rw [hempty, hsame.bigHeap]
    exact hcore
  · simp only
    rw [hsame.bigHeap]
    exact h.big
  · intro q hq
    simp only
    rw [hkeeps q hq]
    exact h.usable q hq

/-- `RepopulateSmallArena` keeps everything in order, whether it finds space or not. -/
theorem repopulateArena_spec {arenaSize : Nat} (h : Full s rep live bodies) (hpos : 0 < arenaSize)
    (hsize : arenaSize < kFreeMask) :
    ∃ found s' rep', s.repopulateArena arenaSize = some (found, s') ∧ Keeps s s' live ∧
      Full s' rep' live bodies := by
  obtain ⟨rep₁, arena, s₁, hdivide, hfull₁, hkeeps₁, hsame₁, hempty⟩ := h.divided
  have hbig₁ : InBounds s₁.bigHeap := hfull₁.big
  have hcore₁ : Core s₁ rep₁ live bodies (spare s₁.bigHeap) := by
    have hcore := hfull₁.core
    rw [hempty, List.nil_append] at hcore
    exact hcore.congr rfl rfl
  rcases allocate_cases (hbig₁.no_wrap hsize) with hnone | ⟨hle, hsome⟩
  · obtain ⟨found, s', rep', hlists, hkeeps, hfull'⟩ :=
      arenaFromLists_spec hpos kMaxLargePages hfull₁ hempty
    refine ⟨found, s', rep', ?_, fun q hq => (hkeeps q hq).trans (hkeeps₁ q hq), hfull'⟩
    simp only [repopulateArena, hdivide, hnone]
    exact hlists
  · have hcore : Core s₁ rep₁ live bodies (spare s₁.bigHeap ++ []) := by
      rw [List.append_nil]
      exact hcore₁
    have hheap : s₁.bigHeap.heap ≠ 0 :=
      hcore.heap_pos h.start (Nat.lt_of_lt_of_le (Nat.lt_add_of_pos_right hpos) hle)
    have htaken := hcore.takeFront hpos hle
    rw [List.append_nil] at htaken
    have hfull := h.newArena
      { s₁ with bigHeap := { s₁.bigHeap with heap := s₁.bigHeap.heap + arenaSize } }
      hkeeps₁ (htaken.congr rfl rfl) ⟨hle, hbig₁.bound⟩ hpos
    refine ⟨true, _, rep₁, ?_, ?_, hfull⟩
    · simp only [repopulateArena, hdivide, hsome, ne_eq, hheap, not_false_eq_true, if_true]
    · exact hkeeps₁

theorem Gives.weaken {s₁ s' : Buddy} {ptr : OffsetPtr} {size' : Nat} (hkeeps : Keeps s s₁ live)
    (h : Gives s₁ s' live bodies size ptr) (hle : size' ≤ size) :
    Gives s s' live bodies size' ptr := by
  refine ⟨hkeeps.trans h.1, ?_⟩
  rcases h.2 with hnone | ⟨page, rep, hptr, hsize, hfull⟩
  · exact Or.inl hnone
  · exact Or.inr ⟨page, rep, hptr, Nat.le_trans hle hsize, hfull⟩

/-- `AllocateSmall` hands out a page of the class of the request. -/
theorem allocateSmall_spec (h : Full s rep live bodies) (hmax : size ≤ kSmallThreshold) :
    ∃ ptr s', s.allocateSmall size = some (ptr, s') ∧ Gives s s' live bodies size ptr := by
  obtain ⟨i, hindex, hi, hsize, hclass⟩ := getSmallPageListIndexForAlloc_spec hmax
  have hmin : kMinSize ≤ 2 ^ (i + kMinLog2) :=
    Nat.pow_le_pow_right (show 0 < 2 by decide) (Nat.le_add_left 5 i)
  have htotal : 2 ^ (i + kMinLog2) + kHeader < kFreeMask := by
    simp only [kSmallThreshold, kHeader, kFreeMask] at *
    omega
  simp only [allocateSmall, hindex]
  rcases allocateFromList_spec h hi with hnone | ⟨ptr, s', hlist, hgives⟩
  · rw [hnone]
    dsimp only
    rcases allocate_cases (h.arena.no_wrap htotal) with harena | ⟨hle, harena⟩
    · obtain ⟨found, s₁, rep₁, hrepopulate, hkeeps₁, hfull₁⟩ :=
        repopulateArena_spec h (show 0 < kSmallArenaSize + kSmallArenaPages * kHeader by decide)
          (by decide)
      obtain ⟨ptr, s', hheap, hgives⟩ := allocateFromHeap_spec hfull₁ hmin
        (hfull₁.big.no_wrap htotal)
      rw [harena]
      simp only [ne_eq, not_true_eq_false, if_false, repopulateSmallArena, hrepopulate,
        Option.bind_eq_bind, Option.bind_some]
      cases found with
      | false =>
        refine ⟨ptr, s', ?_, hgives.weaken hkeeps₁ hsize⟩
        simp [hheap]
      | true =>
        rcases allocateFromList_spec hfull₁ hi with hnone₁ | ⟨ptr₁, s₂, hlist, hgives₁⟩
        · refine ⟨ptr, s', ?_, hgives.weaken hkeeps₁ hsize⟩
          simp [hnone₁, hheap]
        · refine ⟨some ptr₁, s₂, ?_, hgives₁.weaken hkeeps₁ hsize⟩
          simp [hlist]
    · have hpos : 0 < 2 ^ (i + kMinLog2) + kHeader := by
        simp only [kHeader]
        omega
      have hheap : s.smallArena.heap ≠ 0 := h.core.heap_pos h.start (by omega)
      obtain ⟨s', hfinal, hgives⟩ := h.gives
        { s with smallArena := { s.smallArena with
          heap := s.smallArena.heap + (2 ^ (i + kMinLog2) + kHeader) } }
        (fun _ _ => rfl) ((h.core.takeFront hpos hle).congr rfl rfl) ⟨hle, h.arena.bound⟩ h.big
        (Nat.le_of_eq (Nat.add_comm _ _)) (by omega) hmin
      refine ⟨_, s', ?_, hgives.weaken (fun _ _ => rfl) hsize⟩
      simp [harena, hheap, hfinal]
  · rw [hlist]
    exact ⟨some ptr, s', rfl, hgives.weaken (fun _ _ => rfl) hsize⟩

/-- The pages a large allocation may take: none is left with a remainder that is too small
for a page. -/
def SplitsWell (total : Nat) (mem : Offset → BuddyPage) (l : List Offset) : Prop :=
  ∀ q ∈ l.find? fun q => total ≤ sizeAt mem q + kHeader,
    sizeAt mem q + kHeader = total ∨ total + (kHeader + kMinSize) ≤ sizeAt mem q + kHeader

theorem wrap_remainder (h : n < kFreeMask) : wrap (kHeader + n + (2 ^ 64 - kHeader)) = n := by
  have hshift : kHeader + n + (2 ^ 64 - kHeader) = n + 2 ^ 64 := by
    simp only [kHeader]
    omega
  rw [wrap, hshift, Nat.add_mod_right, Nat.mod_eq_of_lt (Nat.lt_trans h (by decide))]

/-- A page that is larger than needed is cut, and the rest is free. -/
theorem split_spec {s₁ : Buddy} {rep₁ : ListId → List Offset} {q : Offset}
    (h : Full s rep live bodies) (hkeeps : Keeps s s₁ live)
    (hcore : Core s₁ rep₁ (q :: live) bodies (spare s₁.smallArena ++ spare s₁.bigHeap))
    (harena : InBounds s₁.smallArena) (hbig : InBounds s₁.bigHeap) (hmin : kMinSize ≤ size)
    (hsplit : sizeAt s₁.mem q + kHeader = size + kHeader ∨
      size + kHeader + (kHeader + kMinSize) ≤ sizeAt s₁.mem q + kHeader) :
    ∃ s', (if sizeAt s₁.mem q + kHeader > size + kHeader then
          s₁.addRemainderToFreeList (q + (size + kHeader))
            (sizeAt s₁.mem q + kHeader - (size + kHeader))
        else s₁).finalizeAllocation q size = (q + kHeader, s') ∧
      Gives s s' live bodies size (some (q + kHeader)) := by
  have hhand := hcore.release (p := q) (by simp)
  rw [List.erase_cons_head] at hhand
  have hmask : sizeAt s₁.mem q < kFreeMask := Nat.mod_lt _ (by decide)
  have hlt : size < kFreeMask := by omega
  rcases hsplit with heq | hle
  · rw [if_neg (by omega)]
    exact h.gives _ hkeeps hhand harena hbig (by omega) hlt hmin
  · obtain ⟨rest, hrest⟩ := Nat.exists_eq_add_of_le hle
    have hsum : kHeader + sizeAt s₁.mem q = size + kHeader + (kHeader + kMinSize + rest) := by omega
    have hleft : sizeAt s₁.mem q + kHeader - (size + kHeader) = kHeader + kMinSize + rest := by
      omega
    have hdata : wrap (kHeader + kMinSize + rest + (2 ^ 64 - kHeader)) = kMinSize + rest := by
      rw [Nat.add_assoc kHeader]
      exact wrap_remainder (by omega)
    obtain ⟨hid, hclass⟩ := listForFree_spec (Nat.le_add_right kMinSize rest)
    rw [extentAt, hsum] at hhand
    have hcut := hhand.split.perm (List.Perm.swap _ _ _)
    obtain ⟨hcore', hkeeps', hsame⟩ := hcut.addFreePage (k := kMinSize + rest) hid
      (by omega) (by omega) hclass
    rw [if_pos (by simp only [kHeader, kMinSize] at hle ⊢; omega), hleft, addRemainderToFreeList,
      hdata]
    rw [← hsame.smallArena, ← hsame.bigHeap] at hcore'
    refine h.gives _ (hkeeps.trans hkeeps') hcore' ?_ ?_ (Nat.le_of_eq (Nat.add_comm _ _)) hlt hmin
    · rw [hsame.smallArena]
      exact harena
    · rw [hsame.bigHeap]
      exact hbig

theorem allocateLargeLoop_spec (h : Full s rep live bodies) (hmin : kMinSize ≤ size)
    (hlt : s.bigHeap.heap + (size + kHeader) < 2 ^ 64) {listIdx : Nat}
    (hsplit : SplitsWell (size + kHeader) s.mem (rep (.large listIdx))) (k : Nat) :
    ∃ ptr s', allocateLargeLoop listIdx size (size + kHeader) k s = some (ptr, s') ∧
      Gives s s' live bodies size ptr := by
  induction k with
  | zero =>
    obtain ⟨ptr, s', hheap, hgives⟩ := allocateFromHeap_spec h hmin hlt
    exact ⟨ptr, s', by rw [allocateLargeLoop, hheap], hgives⟩
  | succ k ih =>
    rcases findFirstFit_spec h.core h.start listIdx (size + kHeader) with
      ⟨hfit, -⟩ | ⟨q, s₁, l, hfit, hq, hfind, hsizes, hsame, hcore, -⟩
    · obtain ⟨ptr, s', hloop, hgives⟩ := ih
      refine ⟨ptr, s', ?_, hgives⟩
      simp [allocateLargeLoop, hfit, hloop]
    · have hwell := hsplit q hfind
      rw [← hsizes q] at hwell
      rw [← hsame.smallArena, ← hsame.bigHeap] at hcore
      obtain ⟨s', hfinal, hgives⟩ := split_spec h (fun r _ => hsizes r) hcore
        (by rw [hsame.smallArena]; exact h.arena) (by rw [hsame.bigHeap]; exact h.big) hmin hwell
      refine ⟨_, s', ?_, hgives⟩
      simp only [sizeAt] at hfinal
      simp only [allocateLargeLoop, hfit, Option.bind_eq_bind, Option.bind_some, ne_eq, hq,
        not_false_eq_true, if_true]
      exact congrArg (fun r => some (some r.1, r.2)) hfinal

/-- The pages on a list, as the links run. -/
def walk (mem : Offset → BuddyPage) : Nat → OffsetPtr → List Offset
  | 0, _ => []
  | _ + 1, none => []
  | n + 1, some p => p :: walk mem n (mem p).next

def pagesOf (s : Buddy) (id : ListId) : List Offset := walk s.mem (s.lists id).size (s.lists id).head

theorem walk_of_chain {mem : Offset → BuddyPage} {l : List Offset} {head : OffsetPtr}
    (h : Chain mem head l) : walk mem l.length head = l := by
  induction l generalizing head with
  | nil => rfl
  | cons q l ih =>
    rw [h.1, List.length_cons, walk, ih h.2]

theorem Core.pagesOf (h : Core s rep live bodies hands) (id : ListId) : s.pagesOf id = rep id := by
  rw [Buddy.pagesOf, h.counts]
  exact walk_of_chain (h.chains id)

/-- A request that `AllocateOffset` can serve: its size does not wrap around, nor does the heap,
and if a large page is taken for it, the remainder is nothing or a page. -/
def Fine (size : Nat) (s : Buddy) : Prop :=
  size + 7 < 2 ^ 64 ∧
    (kSmallThreshold < roundUp size →
      s.bigHeap.heap + (roundUp size + kHeader) < 2 ^ 64 ∧
        SplitsWell (roundUp size + kHeader) s.mem
          (s.pagesOf (.large (getLargePageListIndexForAlloc (roundUp size)))))

/-- `AllocateOffset` hands out a page that is as large as was asked for. -/
theorem allocateOffset_spec (h : Full s rep live bodies) (hfine : Fine size s) :
    ∃ ptr s', s.allocateOffset size = some (ptr, s') ∧ Gives s s' live bodies size ptr := by
  obtain ⟨hbound, hsplit⟩ := hfine
  obtain ⟨hsize, hmin⟩ := roundUp_spec hbound
  simp only [allocateOffset]
  by_cases hsmall : roundUp size ≤ kSmallThreshold
  · obtain ⟨ptr, s', halloc, hgives⟩ := allocateSmall_spec h hsmall
    exact ⟨ptr, s', by rw [if_pos hsmall, halloc], hgives.weaken (fun _ _ => rfl) hsize⟩
  · obtain ⟨hlt, hwell⟩ := hsplit (Nat.lt_of_not_le hsmall)
    rw [h.core.pagesOf] at hwell
    obtain ⟨ptr, s', halloc, hgives⟩ := allocateLargeLoop_spec h hmin hlt hwell
      (kMaxLargePages - getLargePageListIndexForAlloc (roundUp size))
    have hwrap : wrap (roundUp size + kHeader) = roundUp size + kHeader :=
      Nat.mod_eq_of_lt (by omega)
    refine ⟨ptr, s', ?_, hgives.weaken (fun _ _ => rfl) hsize⟩
    rw [if_neg hsmall, allocateLarge, hwrap]
    exact halloc

/-- `FreeOffset` puts the page on the list of its class. -/
theorem freeOffset_spec {page : Offset} (h : Full s rep live bodies) (hpage : page ∈ live) :
    ∃ rep', Full (s.freeOffset (page + kHeader)) rep' (live.erase page) bodies ∧
      Keeps s (s.freeOffset (page + kHeader)) (live.erase page) := by
  have hoff : page + kHeader - kHeader = page := Nat.add_sub_cancel page kHeader
  have hget : (BuddyPage.markFree (s.mem page)).getSize = sizeAt s.mem page :=
    getSize_markFree (s.mem page)
  obtain ⟨hid, hclass⟩ := listForFree_spec (h.usable page hpage)
  have hhand := h.core.release hpage
  have hnot := hhand.not_mem (by simp only [kHeader]; omega)
  have huse := hhand.use (fun p => { p.markFree with next := none })
    (Nat.le_of_eq (congrArg (kHeader + ·) hget))
  have hsize : sizeAt (s.writePage page fun p => { p.markFree with next := none }).mem page =
      sizeAt s.mem page := by
    rw [sizeAt, writePage_self]
    exact hget
  have hcore := huse.emplace hid (fun i heq => by rw [hsize]; exact hclass i heq)
  have hfree : s.freeOffset (page + kHeader) =
      (s.writePage page fun p => { p.markFree with next := none }).emplace
        (listForFree (sizeAt s.mem page)) page := by
    rw [freeOffset, hoff]
    rfl
  rw [hfree]
  have hkeeps := keeps_write (f := fun p => { p.markFree with next := none }) (s := s) hnot
  refine ⟨_, ⟨hcore, h.arena, h.big, h.start, h.bound, ?_⟩, ?_⟩
  · intro q hq
    rw [sizeAt_emplace, hkeeps q hq]
    exact h.usable q (List.mem_of_mem_erase hq)
  · intro q hq
    rw [sizeAt_emplace]
    exact hkeeps q hq

/-- `ReallocateOffset` returns the old page, null, or a new page for the old one. -/
theorem reallocateOffset_spec {page : Offset} {newSize : Nat} (h : Full s rep live bodies)
    (hpage : page ∈ live) (hfine : sizeAt s.mem page < newSize → Fine newSize s) :
    (newSize ≤ sizeAt s.mem page ∧
      s.reallocateOffset (page + kHeader) newSize = some (some (page + kHeader), s)) ∨
    (∃ s' rep', s.reallocateOffset (page + kHeader) newSize = some (none, s') ∧
      Keeps s s' live ∧ Full s' rep' live bodies) ∨
    ∃ new s' rep', s.reallocateOffset (page + kHeader) newSize = some (some (new + kHeader), s') ∧
      newSize ≤ sizeAt s'.mem new ∧ Keeps s s' (live.erase page) ∧
      Full s' rep' (new :: live.erase page) bodies := by
  have hoff : page + kHeader - kHeader = page := Nat.add_sub_cancel page kHeader
  simp only [reallocateOffset, hoff]
  by_cases hfits : newSize ≤ sizeAt s.mem page
  · refine Or.inl ⟨hfits, ?_⟩
    rw [sizeAt] at hfits
    rw [if_pos hfits]
  · obtain ⟨ptr, s₁, halloc, hkeeps, hgives⟩ :=
      allocateOffset_spec h (hfine (Nat.lt_of_not_le hfits))
    rw [sizeAt] at hfits
    rw [if_neg hfits, halloc]
    rcases hgives with ⟨rfl, rep', hfull⟩ | ⟨new, rep₁, rfl, hsize, hfull⟩
    · exact Or.inr (Or.inl ⟨s₁, rep', rfl, hkeeps, hfull⟩)
    · have hne : new ≠ page := by
        rintro rfl
        exact (List.nodup_cons.mp hfull.core.nodup).1 (List.mem_append_left _ hpage)
      obtain ⟨rep', hfull', hkeeps'⟩ := freeOffset_spec hfull (List.mem_cons_of_mem new hpage)
      rw [List.erase_cons_tail (by simpa using hne)] at hfull' hkeeps'
      refine Or.inr (Or.inr ⟨new, _, rep', rfl, ?_, ?_, hfull'⟩)
      · rw [hkeeps' new (by simp)]
        exact hsize
      · intro q hq
        rw [hkeeps' q (List.mem_cons_of_mem _ hq)]
        exact hkeeps q (List.mem_of_mem_erase hq)

/-! ### Growing -/

/-- What a region has behind its header. -/
def body (region : Extent) : Extent := (region.1 + kHeader, region.2 - kHeader)

/-- No page begins where a new region does. -/
theorem Core.not_mem_region {region : Extent} (hcore : Core s rep live bodies hands)
    (hpos : 0 < region.2) (hnew : ∀ b ∈ bodies, Apart region b) : region.1 ∉ pages rep live := by
  intro hmem
  obtain ⟨b, hb, hstart, hstop⟩ := hcore.carved.inside (extentAt s.mem region.1)
    (List.mem_append_right _ (List.mem_map_of_mem hmem))
  refine (hnew b hb).not_mem ⟨Nat.le_refl _, ?_⟩ ⟨hstart, ?_⟩
  · exact Nat.lt_add_of_pos_right hpos
  · refine Nat.lt_of_lt_of_le ?_ hstop
    exact Nat.lt_add_of_pos_right (by simp only [extentAt, kHeader]; omega)

/-- The bounds of the new heap do not wrap around. -/
theorem expand_bounds {r : Nat} (hheader : kHeader ≤ n) (hbound : r + n ≤ kFreeMask) :
    wrap (r + kHeader) = r + kHeader ∧ wrap (n + (2 ^ 64 - kHeader)) = n - kHeader ∧
      wrap (r + kHeader + (n - kHeader)) = r + n := by
  have hshift : n + (2 ^ 64 - kHeader) = n - kHeader + 2 ^ 64 := by
    simp only [kHeader] at *
    omega
  have hsum : r + kHeader + (n - kHeader) = r + n := by omega
  rw [hshift, hsum]
  simp only [wrap, kFreeMask] at *
  exact ⟨Nat.mod_eq_of_lt (by omega), by rw [Nat.add_mod_right, Nat.mod_eq_of_lt (by omega)],
    Nat.mod_eq_of_lt (by omega)⟩

/-- `Expand` puts what is left of the big heap on the lists and goes on with the new region. -/
theorem expand_spec {region : Extent} (h : Full s rep live bodies) (hheader : kHeader ≤ region.2)
    (hbound : region.stop ≤ kFreeMask) (hnew : ∀ b ∈ bodies, Apart region b) :
    ∃ rep', Full (s.expand region.1 region.2) rep' live (body region :: bodies) ∧
      Keeps s (s.expand region.1 region.2) live := by
  obtain ⟨r, n⟩ := region
  simp only [stop] at hheader hbound
  have hpos : 0 < n := Nat.lt_of_lt_of_le (by decide) hheader
  have hnot : r ∉ pages rep live := h.core.not_mem_region hpos hnew
  have hwritten : Core { s with
      mem := fun o => if o = r then ⟨s.regions.head, n⟩ else s.mem o
      regions := ⟨s.regions.size + 1, some r⟩ } rep live bodies
      (spare s.bigHeap ++ spare s.smallArena) :=
    ((h.core.perm List.perm_append_comm).write hnot fun _ => ⟨s.regions.head, n⟩).congr rfl rfl
  obtain ⟨rep', h', s', hdivide, hcore, hkeeps, hsame, -, -⟩ :=
    divideArenaIntoPages_spec hwritten h.big
  obtain ⟨hstart, hrest, hstop⟩ := expand_bounds hheader hbound
  have hexpand : s.expand r n = { s' with bigHeap := ⟨r + kHeader, r + n⟩ } := by
    rw [expand, if_neg (Nat.ne_of_gt hpos)]
    simp only [hdivide, hstart, hrest, hstop]
  have hkept : Keeps s s' live := by
    intro q hq
    rw [hkeeps q hq]
    exact keeps_write (f := fun _ => ⟨s.regions.head, n⟩) hnot q hq
  have hgrown : Core s' rep' live (body (r, n) :: bodies)
      (body (r, n) :: spare s'.smallArena) := by
    rw [hsame.smallArena]
    refine hcore.grow ?_
    intro b hb
    refine (hnew b hb).shrink (Nat.le_add_right r kHeader) ?_
    simp only [body, stop]
    omega
  rw [hexpand]
  refine ⟨rep', ⟨Core.congr (s := s') ?_ rfl rfl, ?_, ⟨?_, hbound⟩, ?_, ?_, ?_⟩, hkept⟩
  · -- A region with nothing behind its header leaves the heap empty.
    by_cases hlt : r + kHeader < r + n
    · have hspare : spare ⟨r + kHeader, r + n⟩ = [body (r, n)] := by
        simp only [spare, body, hlt, if_true, Nat.add_sub_add_left]
      rw [hspare]
      exact hgrown.perm (@List.perm_append_comm _ [body (r, n)] _)
    · have hspare : spare ⟨r + kHeader, r + n⟩ = [] := by
        rw [spare, if_neg hlt]
      rw [hspare, List.append_nil]
      exact hgrown.drop
  · rw [hsame.smallArena]
    exact h.arena
  · exact Nat.add_le_add_left hheader r
  · intro b hb
    rcases List.mem_cons.mp hb with rfl | hb
    · exact Nat.lt_of_lt_of_le (by decide) (Nat.le_add_left kHeader r)
    · exact h.start b hb
  · intro b hb
    rcases List.mem_cons.mp hb with rfl | hb
    · simp only [body, stop]
      omega
    · exact h.bound b hb
  · intro q hq
    rw [hkept q hq]
    exact h.usable q hq

end

end Buddy

end Shm
end IowarpCore
