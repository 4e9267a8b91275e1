/-
When the slow path of the multi-process allocator serves a request.

A level is in order if its allocator is, and its regions lie inside of pages that the level
above has handed out.  Then a page it gets from there overlaps no region it has, and `Expand`
puts the whole page but a header into its big heap.

On the slow path the process gets a page for the request, a quarter more and three headers,
and asks it for a page for the request, a quarter more and one header.  The second is rounded
up to 8 bytes, and for that there is no room unless it is a multiple of 8 already, or the
first was 16 megabytes.  The thread always has room, in the quarter.
-/
import IowarpCore.Proofs.BuddyComplete
import IowarpCore.Shm.MpAllocator

namespace IowarpCore
namespace Shm

open Extent
open Buddy (pages body spare Full Core Fine roundUp)
open BuddyPage (kHeader kFreeMask)

namespace Buddy

variable {s s' : Buddy} {rep : ListId → List Offset} {live : List Offset} {bodies : List Extent}
  {size total i : Nat} {ptr : Offset}

/-! ### Expanding leaves the large lists -/

theorem addFreePage_mem {id : ListId} {off dataSize q : Nat} (hne : q ≠ off) :
    (s.addFreePage id off dataSize).mem q = s.mem q := by
  rw [addFreePage, emplace, setList, writePage_of_ne _ hne, writePage_of_ne _ hne]

theorem divideClass_large (j n : Nat) :
    ∀ (off : Nat) (s : Buddy), (s.divideClass i n off).lists (.large j) = s.lists (.large j) := by
  induction n with
  | zero =>
    intro off s
    rfl
  | succ n ih =>
    intro off s
    rw [divideClass, ih]
    simp [addFreePage, emplace, setList, writePage]

theorem divideLoop_large (j k : Nat) :
    ∀ (off remaining : Nat) (s : Buddy),
      (s.divideLoop k off remaining).lists (.large j) = s.lists (.large j) := by
  induction k with
  | zero =>
    intro off remaining s
    rfl
  | succ k ih =>
    intro off remaining s
    unfold divideLoop
    dsimp only
    rw [ih]
    exact divideClass_large j _ _ _

/-- Dividing writes to what is divided only. -/
theorem divideClass_frame {q : Nat} (n : Nat) :
    ∀ (off : Nat) (s : Buddy), (q < off ∨ off + n * (2 ^ (i + kMinLog2) + kHeader) ≤ q) →
      (s.divideClass i n off).mem q = s.mem q := by
  induction n with
  | zero =>
    intro off s _
    rfl
  | succ n ih =>
    intro off s hq
    have hpos : 0 < 2 ^ (i + kMinLog2) + kHeader :=
      Nat.lt_of_lt_of_le (by decide) (Nat.le_add_left kHeader _)
    have hrest : q < off + (2 ^ (i + kMinLog2) + kHeader) ∨
        off + (2 ^ (i + kMinLog2) + kHeader) + n * (2 ^ (i + kMinLog2) + kHeader) ≤ q := by
      rw [Nat.succ_mul] at hq
      generalize 2 ^ (i + kMinLog2) + kHeader = total at *
      omega
    have hne : q ≠ off := by
      rw [Nat.succ_mul] at hq
      generalize 2 ^ (i + kMinLog2) + kHeader = total at *
      omega
    rw [divideClass, ih _ _ hrest]
    exact addFreePage_mem hne

theorem divideLoop_frame {q : Nat} (k : Nat) :
    ∀ (off remaining : Nat) (s : Buddy), (q < off ∨ off + remaining ≤ q) →
      (s.divideLoop k off remaining).mem q = s.mem q := by
  induction k with
  | zero =>
    intro off remaining s _
    rfl
  | succ k ih =>
    intro off remaining s hq
    have hle := Nat.div_mul_le_self remaining (2 ^ (k + kMinLog2) + kHeader)
    unfold divideLoop
    dsimp only
    generalize hn : remaining / (2 ^ (k + kMinLog2) + kHeader) = n at *
    have hclass : q < off ∨ off + n * (2 ^ (k + kMinLog2) + kHeader) ≤ q := by omega
    rw [ih _ _ _ (by omega)]
    exact divideClass_frame n off s hclass

/-- A page is not inside of what is left of the big heap. -/
theorem Full.not_in_heap (h : Full s rep live bodies) {q : Nat} (hq : q ∈ pages rep live) :
    q < s.bigHeap.heap ∨ s.bigHeap.heap + s.bigHeap.room ≤ q := by
  have horder := h.big.order
  by_cases hlt : s.bigHeap.heap < s.bigHeap.maxOffset
  · have hspare : (s.bigHeap.heap, s.bigHeap.maxOffset - s.bigHeap.heap) ∈
        spare s.smallArena ++ spare s.bigHeap := by
      refine List.mem_append_right _ ?_
      rw [spare, if_pos hlt]
      exact List.mem_cons_self
    have hapart := (List.pairwise_append.mp h.core.carved.apart).2.2 _ hspare _
      (List.mem_map_of_mem (f := extentAt s.mem) hq)
    rw [Apart] at hapart
    simp only [extentAt, stop, kHeader] at hapart
    unfold Heap.room
    omega
  · unfold Heap.room
    omega

/-- After `Expand` the big heap is the new region, and the large lists are what they were. -/
theorem expand_frame (region : Extent) (h : Full s rep live bodies) (hheader : kHeader ≤ region.2)
    (hbound : region.stop ≤ kFreeMask) (hnew : ∀ b ∈ bodies, Apart region b) :
    (s.expand region.1 region.2).bigHeap = ⟨region.1 + kHeader, region.1 + region.2⟩ ∧
      ∀ i, (s.expand region.1 region.2).pagesOf (.large i) = s.pagesOf (.large i) ∧
        ∀ p ∈ s.pagesOf (.large i),
          sizeAt (s.expand region.1 region.2).mem p = sizeAt s.mem p := by
  obtain ⟨r, n⟩ := region
  simp only [stop] at hheader hbound
  have hpos : 0 < n := Nat.lt_of_lt_of_le (by decide) hheader
  have hnot : r ∉ pages rep live := h.core.not_mem_region hpos hnew
  obtain ⟨hstart, hrest, hstop⟩ := expand_bounds hheader hbound
  -- The header of the region and the pages made of the old heap are written to no page.
  have hmem : ∀ q ∈ pages rep live, (s.expand r n).mem q = s.mem q := by
    intro q hq
    have hqr : q ≠ r := fun heq => hnot (heq ▸ hq)
    have hheap := h.not_in_heap hq
    simp only [expand, Nat.ne_of_gt hpos, if_false, divideArenaIntoPages, h.big.remaining]
    by_cases hzero : s.bigHeap.room = 0
    · simp [hzero, hqr]
    · simp only [hzero, if_false]
      rw [divideLoop_frame kMaxSmallPages _ _ _ hheap]
      simp [hqr]
  have hlists : ∀ j, (s.expand r n).lists (.large j) = s.lists (.large j) := by
    intro j
    simp only [expand, Nat.ne_of_gt hpos, if_false, divideArenaIntoPages, h.big.remaining]
    by_cases hzero : s.bigHeap.room = 0
    · simp [hzero]
    · simp only [hzero, if_false]
      rw [divideLoop_large]
  refine ⟨?_, fun j => ?_⟩
  · simp only [expand, Nat.ne_of_gt hpos, if_false, hstart, hrest, hstop]
  · have hsame : ∀ p ∈ rep (.large j), (s.expand r n).mem p = s.mem p :=
      fun p hp => hmem p (mem_pages_of_rep h.core.outside hp)
    rw [h.core.pagesOf]
    refine ⟨?_, fun p hp => by rw [sizeAt, hsame p hp]; rfl⟩
    rw [Buddy.pagesOf, hlists, h.core.counts]
    refine walk_of_chain (chain_congr (fun p hp => ?_) (h.core.chains (.large j)))
    rw [hsame p hp]

/-! ### Sizes -/

theorem roundUp_eq (h : size + 7 < 2 ^ 64) : roundUp size = (max size kMinSize + 7) / 8 * 8 := by
  rw [roundUp, wrap, Nat.mod_eq_of_lt]
  simp only [kMinSize]
  omega

theorem roundUp_lt (h : size + 7 < kFreeMask - kHeader) : roundUp size + kHeader < kFreeMask := by
  simp only [kFreeMask, kHeader] at *
  rw [roundUp_eq (by omega)]
  simp only [kMinSize]
  omega

theorem need_lt (h : size + 7 < kFreeMask - kHeader) : need size < kFreeMask := by
  unfold need
  by_cases hsmall : roundUp size ≤ kSmallThreshold
  · obtain ⟨i, hclass, -, -, hpow⟩ := getSmallPageListIndexForAlloc_spec hsmall
    rw [if_pos hsmall, hclass]
    simp only [kSmallThreshold, kFreeMask, kHeader] at *
    omega
  · rw [if_neg hsmall]
    exact roundUp_lt h

/-- A large request goes to the last list if it is of 2 megabytes. -/
theorem last_list {n : Nat} (h : 2 ^ 21 ≤ n) :
    getLargePageListIndexForAlloc n = kMaxLargePages - 1 := by
  have hlarge : ¬n ≤ kSmallThreshold := by
    simp only [kSmallThreshold]
    omega
  have hlog : 21 ≤ Nat.log 2 n := Nat.le_log_of_pow_le (by decide) h
  rw [getLargePageListIndexForAlloc, if_neg hlarge]
  dsimp only
  rw [if_neg (by simp only [kSmallLog2]; omega), if_pos (by simp only [kMaxLog2]; omega)]

/-- A quarter more than was asked for, in the big heap, is enough. -/
theorem reaches_of_quarter (hsize : size + 7 < 2 ^ 64) (hunit : 2 ^ 21 ≤ s.bigHeap.room + kHeader)
    (hroom : size + size / 4 ≤ s.bigHeap.room) : s.Reaches size := by
  have hround := roundUp_eq hsize
  unfold Reaches need
  by_cases hsmall : roundUp size ≤ kSmallThreshold
  · obtain ⟨i, hclass, -, -, hpow⟩ := getSmallPageListIndexForAlloc_spec hsmall
    simp only [hsmall, if_true, hclass]
    refine Or.inr (Or.inr ?_)
    simp only [kSmallThreshold, kHeader] at *
    rw [roomBehindArena, if_pos] <;>
      simp only [kArena, kSmallArenaSize, kSmallArenaPages, kHeader] <;> omega
  · simp only [hsmall, if_false]
    refine Or.inr ?_
    simp only [kSmallThreshold, kMinSize, kHeader] at *
    omega

/-! ### What a large request gets -/

/-- A stretch in one of the bodies that overlaps no page in use. -/
structure Unused (s : Buddy) (live : List Offset) (bodies : List Extent) (e : Extent) : Prop where
  apart : ∀ q ∈ live, Apart e (extentAt s.mem q)
  inside : ∃ b ∈ bodies, b.1 ≤ e.1 ∧ e.stop ≤ b.stop

theorem Unused.mono {e e' : Extent} (h : Unused s live bodies e) (hstart : e.1 ≤ e'.1)
    (hstop : e'.stop ≤ e.stop) : Unused s live bodies e' := by
  refine ⟨fun q hq => (h.apart q hq).shrink hstart hstop, ?_⟩
  obtain ⟨b, hb, hbstart, hbstop⟩ := h.inside
  exact ⟨b, hb, Nat.le_trans hbstart hstart, Nat.le_trans hstop hbstop⟩

/-- What is in hand is unused. -/
theorem Core.unused {hands : List Extent} {e : Extent} (h : Core s rep live bodies hands)
    (he : e ∈ hands) : Unused s live bodies e := by
  refine ⟨fun q hq => ?_, h.carved.inside e (List.mem_append_left _ he)⟩
  refine (List.pairwise_append.mp h.carved.apart).2.2 _ he _ (List.mem_map_of_mem ?_)
  exact List.mem_append_left _ hq

theorem allocateFromHeap_unused (h : Full s rep live bodies) (hpos : 0 < total)
    (hlt : s.bigHeap.heap + total < 2 ^ 64)
    (halloc : s.allocateFromHeap size total = (some ptr, s')) :
    ∃ page, ptr = page + kHeader ∧ Unused s live bodies (page, total) := by
  rcases allocate_cases hlt with hnone | ⟨hle, hsome⟩
  · simp [allocateFromHeap, hnone] at halloc
  · have hcore := h.core.perm List.perm_append_comm
    have hheap : s.bigHeap.heap ≠ 0 := hcore.heap_pos h.start (by omega)
    simp only [allocateFromHeap, hsome, ne_eq, hheap, not_false_eq_true, if_true,
      finalizeAllocation, Prod.mk.injEq, Option.some.injEq] at halloc
    exact ⟨s.bigHeap.heap, halloc.1.symm, (hcore.takeFront hpos hle).unused List.mem_cons_self⟩

/-- Whether or not it leaves a remainder that is a page, a large request gets a stretch that
was unused. -/
theorem allocateLargeLoop_unused (h : Full s rep live bodies) (hpos : 0 < total)
    (hlt : s.bigHeap.heap + total < 2 ^ 64) {listIdx : Nat} (k : Nat)
    (halloc : allocateLargeLoop listIdx size total k s = some (some ptr, s')) :
    ∃ page, ptr = page + kHeader ∧ Unused s live bodies (page, total) := by
  induction k with
  | zero => exact allocateFromHeap_unused h hpos hlt (Option.some.inj halloc)
  | succ k ih =>
    rcases findFirstFit_spec h.core h.start listIdx total with
      ⟨hfit, -⟩ | ⟨q, s₁, l, hfit, hq, hfind, hsizes, -, hcore, -⟩
    · rw [allocateLargeLoop, hfit] at halloc
      exact ih halloc
    · simp only [allocateLargeLoop, hfit, Option.bind_eq_bind, Option.bind_some, ne_eq, hq,
        not_false_eq_true, if_true, finalizeAllocation, Option.some.injEq, Prod.mk.injEq] at halloc
      have hfits := List.find?_some hfind
      simp only [decide_eq_true_eq] at hfits
      -- Off the list the page is in hand.
      have hhand := hcore.release (p := q) (by simp)
      rw [List.erase_cons_head] at hhand
      have hunused := hhand.unused List.mem_cons_self
      refine ⟨q, halloc.1.symm, ⟨fun r hr => ?_, ?_⟩⟩
      · have hapart := hunused.apart r hr
        rw [extentAt, extentAt, hsizes, hsizes] at hapart
        refine hapart.shrink (Nat.le_refl q) ?_
        simp only [stop]
        omega
      · obtain ⟨b, hb, hstart, hstop⟩ := hunused.inside
        refine ⟨b, hb, hstart, Nat.le_trans ?_ hstop⟩
        simp only [stop, extentAt, hsizes]
        omega

theorem allocateLargeLoop_returns (h : Full s rep live bodies) (listIdx k : Nat) :
    ∃ r, allocateLargeLoop listIdx size total k s = some r := by
  induction k with
  | zero => exact ⟨_, rfl⟩
  | succ k ih =>
    rcases findFirstFit_spec h.core h.start listIdx total with
      ⟨hfit, -⟩ | ⟨q, s₁, l, hfit, hq, -⟩
    · rw [allocateLargeLoop, hfit]
      exact ih
    · simp [allocateLargeLoop, hfit, hq]

theorem allocateOffset_returns (h : Full s rep live bodies) (size : Nat) :
    ∃ r, s.allocateOffset size = some r := by
  unfold allocateOffset
  by_cases hsmall : roundUp size ≤ kSmallThreshold
  · obtain ⟨ptr, s', halloc, -⟩ := allocateSmall_spec h hsmall
    exact ⟨_, by rw [if_pos hsmall, halloc]⟩
  · simp only [hsmall, if_false]
    exact allocateLargeLoop_returns h _ _

/-- A request that is not huge is served exactly if there is room where it looks. -/
theorem allocateOffset_some_iff (h : Full s rep live bodies) (hneed : need size < kFreeMask) :
    (∃ ptr s', s.allocateOffset size = some (some ptr, s')) ↔ s.Reaches size := by
  obtain ⟨⟨ptr, s'⟩, halloc⟩ := allocateOffset_returns h size
  rw [← not_iff_not, ← allocateOffset_none_iff h hneed, halloc]
  cases ptr <;> simp

end Buddy

/-! ### One level in another -/

namespace BuddyUse

variable {u u' inner : BuddyUse} {size skip ptr : Nat}

/-- Regions that lie in what was handed out. -/
def Inside (regions live : List Extent) : Prop :=
  ∀ r ∈ regions, ∃ e ∈ live, e.1 ≤ r.1 ∧ r.stop ≤ e.stop

theorem Inside.mono {regions live live' : List Extent} (h : Inside regions live)
    (hsub : live ⊆ live') : Inside regions live' := by
  intro r hr
  obtain ⟨e, he, hin⟩ := h r hr
  exact ⟨e, hsub he, hin⟩

theorem subset_received (r : OffsetPtr) (size : Nat) (live : List Extent) :
    live ⊆ received r size live := by
  cases r with
  | none => exact List.Subset.refl live
  | some ptr => exact List.subset_cons_self _ live

/-- A stretch that was handed out just now: it overlaps nothing that was handed out before. -/
structure Granted (live : List Extent) (e : Extent) : Prop where
  apart : ∀ e' ∈ live, Apart e e'
  start : 0 < e.1
  bound : e.stop ≤ kFreeMask

/-- What lies in a stretch that was handed out just now overlaps no region. -/
theorem Granted.apart_regions {live regions : List Extent} {e r : Extent} (h : Granted live e)
    (hinside : Inside regions live) (hstart : e.1 ≤ r.1) (hstop : r.stop ≤ e.stop) :
    ∀ r' ∈ regions, Apart r r' := by
  intro r' hr'
  obtain ⟨e', he', hstart', hstop'⟩ := hinside r' hr'
  exact (((h.apart e' he').shrink hstart hstop).symm.shrink hstart' hstop').symm

/-- The data of an unused page. -/
theorem Good.granted {rep : ListId → List Offset} {page : Offset} (h : Good u)
    (hfull : Full u.alloc rep (u.live.map pageOf) (u.regions.map body))
    (hunused : Buddy.Unused u.alloc (u.live.map pageOf) (u.regions.map body) (page, size + kHeader)) :
    Granted u.live (page + kHeader, size) := by
  have hstop : page + kHeader + size = page + (size + kHeader) := by
    rw [Nat.add_comm size, Nat.add_assoc]
  refine ⟨fun e he => ?_, Nat.add_pos_right page (by decide), ?_⟩
  · have hapart := hunused.apart (pageOf e) (List.mem_map_of_mem he)
    have hserved := h.served e he
    have hpage := pageOf_add (h.pointers e he)
    have hdata : Apart (page + kHeader, size) (extentAt u.alloc.mem (pageOf e)) :=
      hapart.shrink (Nat.le_add_right _ _) (Nat.le_of_eq hstop)
    refine (hdata.symm.shrink ?_ ?_).symm
    · rw [← hpage]
      exact Nat.le_add_right _ _
    · rw [stop, ← hpage, Nat.add_assoc]
      exact Nat.add_le_add_left (Nat.add_le_add_left hserved _) _
  · obtain ⟨b, hb, -, hbstop⟩ := hunused.inside
    exact Nat.le_trans (Nat.le_of_eq hstop) (Nat.le_trans hbstop (hfull.bound b hb))

theorem take_spec {r : OffsetPtr} (htake : u.take size = some (r, u')) :
    ∃ s', u.alloc.allocateOffset size = some (r, s') ∧
      u' = { u with alloc := s', live := received r size u.live } := by
  obtain ⟨⟨ptr, s'⟩, halloc, hr⟩ := Option.map_eq_some_iff.mp htake
  rw [Prod.mk.injEq] at hr
  obtain ⟨rfl, rfl⟩ := hr
  exact ⟨s', halloc, rfl⟩

/-- A large page is granted whatever becomes of the rest of the page it is taken from. -/
theorem Good.granted_of_large (h : Good u) (hlarge : kSmallThreshold < size)
    (hsize : size + 7 < 2 ^ 64)
    (hnowrap : u.alloc.bigHeap.heap + (roundUp size + kHeader) < 2 ^ 64)
    (htake : u.take size = some (some ptr, u')) : Granted u.live (ptr, size) := by
  obtain ⟨rep, hfull⟩ := h.full
  obtain ⟨s', halloc, -⟩ := take_spec htake
  obtain ⟨hle, -⟩ := Buddy.roundUp_spec hsize
  have hwrap : wrap (roundUp size + kHeader) = roundUp size + kHeader :=
    Nat.mod_eq_of_lt (Nat.lt_of_le_of_lt (Nat.le_add_left _ _) hnowrap)
  rw [Buddy.allocateOffset, if_neg (Nat.not_le.mpr (Nat.lt_of_lt_of_le hlarge hle)),
    Buddy.allocateLarge, hwrap] at halloc
  obtain ⟨page, hptr, hunused⟩ := Buddy.allocateLargeLoop_unused hfull
    (Nat.lt_of_lt_of_le (by decide) (Nat.le_add_left kHeader _)) hnowrap _ halloc
  rw [hptr]
  refine h.granted hfull (hunused.mono (Nat.le_refl _) ?_)
  exact Nat.add_le_add_left (Nat.add_le_add_right hle _) _

/-- A page that is granted is a part of what the allocator knows of. -/
theorem Good.take {r : OffsetPtr} (h : Good u) (hfine : Fine size u.alloc)
    (htake : u.take size = some (r, u')) :
    Good u' ∧ u'.regions = u.regions ∧ u'.live = received r size u.live ∧
      ∀ ptr, r = some ptr → Granted u.live (ptr, size) := by
  obtain ⟨s', halloc, rfl⟩ := take_spec htake
  obtain ⟨u₁, hstep, hgood⟩ := step_allocate h hfine
  rw [step, halloc, Option.bind_eq_bind, Option.bind_some, Option.some.injEq] at hstep
  refine ⟨hstep ▸ hgood, rfl, rfl, ?_⟩
  rintro ptr rfl
  obtain ⟨rep, hfull⟩ := h.full
  obtain ⟨_, s₁, halloc₁, hkeeps, hgives⟩ := Buddy.allocateOffset_spec hfull hfine
  rw [halloc, Option.some.injEq, Prod.mk.injEq] at halloc₁
  obtain ⟨rfl, rfl⟩ := halloc₁
  rcases hgives with ⟨hnone, -⟩ | ⟨page, rep', hptr, hsize, hfull'⟩
  · cases hnone
  · rw [Option.some.injEq] at hptr
    have hhand := hfull'.core.release (p := page) List.mem_cons_self
    rw [List.erase_cons_head] at hhand
    have hunused := hhand.unused List.mem_cons_self
    rw [hptr]
    refine h.granted hfull (Buddy.Unused.mono (e := extentAt s'.mem page) ⟨fun q hq => ?_, hunused.inside⟩
      (Nat.le_refl _) ?_)
    · have hapart := hunused.apart q hq
      rw [extentAt, extentAt, hkeeps q hq] at hapart
      exact hapart
    · simp only [stop, extentAt]
      omega

/-- A level that gets a page grows by what is in it. -/
theorem Good.grow {live : List Extent} (h : Good inner) (hinside : Inside inner.regions live)
    (hgrant : Granted live (ptr, size)) (hskip : skip + kHeader ≤ size) :
    Good (inner.grow (ptr + skip) (size - skip)) ∧
      Inside (inner.grow (ptr + skip) (size - skip)).regions ((ptr, size) :: live) := by
  have hstop : ptr + skip + (size - skip) = ptr + size := by omega
  have hrest : kHeader ≤ size - skip := by omega
  obtain ⟨u₁, hstep, hgood⟩ := step_expand (ptr + skip, size - skip) h hrest
    (Nat.le_trans (Nat.le_of_eq hstop) hgrant.bound)
    (hgrant.apart_regions hinside (Nat.le_add_right ptr skip) (Nat.le_of_eq hstop))
  have hgrow : inner.grow (ptr + skip) (size - skip) = u₁ := Option.some.inj hstep
  refine ⟨hgrow ▸ hgood, ?_⟩
  intro r hr
  rcases List.mem_cons.mp hr with rfl | hr
  · exact ⟨(ptr, size), List.mem_cons_self, Nat.le_add_right ptr skip, Nat.le_of_eq hstop⟩
  · obtain ⟨e, he, hin⟩ := hinside r hr
    exact ⟨e, List.mem_cons_of_mem _ he, hin⟩

/-- A level that grows by a whole page has all of it but a header in its big heap, and its
large lists are what they were. -/
theorem Good.grow_frame {live : List Extent} (h : Good inner) (hinside : Inside inner.regions live)
    (hgrant : Granted live (ptr, size)) (hheader : kHeader ≤ size) :
    Good (inner.grow ptr size) ∧ (inner.grow ptr size).alloc.bigHeap.room = size - kHeader ∧
      ∀ i, (inner.grow ptr size).alloc.pagesOf (.large i) = inner.alloc.pagesOf (.large i) ∧
        ∀ p ∈ inner.alloc.pagesOf (.large i),
          sizeAt (inner.grow ptr size).alloc.mem p = sizeAt inner.alloc.mem p := by
  obtain ⟨rep, hfull⟩ := h.full
  have hnew : ∀ r ∈ inner.regions, Apart (ptr, size) r :=
    hgrant.apart_regions hinside (Nat.le_refl _) (Nat.le_refl _)
  obtain ⟨hheap, hlists⟩ := Buddy.expand_frame (ptr, size) hfull hheader hgrant.bound
    (h.apart_bodies hnew)
  refine ⟨(h.grow hinside hgrant (show 0 + kHeader ≤ size by omega)).1, ?_, hlists⟩
  rw [BuddyUse.grow, hheap]
  exact Nat.add_sub_add_left ptr size kHeader

theorem take_some_iff : (∃ ptr u', u.take size = some (some ptr, u')) ↔
    ∃ ptr s', u.alloc.allocateOffset size = some (some ptr, s') := by
  refine ⟨?_, ?_⟩
  · rintro ⟨ptr, u', htake⟩
    obtain ⟨s', halloc, -⟩ := take_spec htake
    exact ⟨ptr, s', halloc⟩
  · rintro ⟨ptr, s', halloc⟩
    exact ⟨ptr, _, by rw [take, halloc]; rfl⟩

end BuddyUse

namespace MpAllocator

open BuddyUse (Good Inside Granted)

/-- Regions are new, requests can be served, and a page is larger than what is in front of its
region and a header. -/
def Tame : MpOp → MpAllocator → Prop
  | .expandGlobal region regionSize, m =>
    kHeader ≤ regionSize ∧ region + regionSize ≤ kFreeMask ∧
      ∀ r ∈ m.global.regions, Apart (region, regionSize) r
  | .takeGlobal size, m => Fine size m.global.alloc
  | .growProcess size skip, m => skip + kHeader ≤ size ∧ Fine size m.global.alloc
  | .takeProcess size, m => Fine size m.process.alloc
  | .growThread size skip, m => skip + kHeader ≤ size ∧ Fine size m.process.alloc
  | .takeThread size, m => Fine size m.thread.alloc
  | .freeThread ptr, m => ptr ∈ m.thread.live.map Prod.fst

def Takes (op : MpOp) (m m' : MpAllocator) : Prop := Tame op m ∧ step op m = some m'

/-- Each level is in order, and stands in the level above. -/
structure InOrder (m : MpAllocator) : Prop where
  global : Good m.global
  process : Good m.process
  thread : Good m.thread
  processInside : Inside m.process.regions m.global.live
  threadInside : Inside m.thread.regions m.process.live

theorem inOrder_init (mem : Offset → BuddyPage) : InOrder (init mem) :=
  ⟨BuddyUse.good_init mem, BuddyUse.good_init mem, BuddyUse.good_init mem,
    fun _ hr => absurd hr List.not_mem_nil, fun _ hr => absurd hr List.not_mem_nil⟩

variable {m m' : MpAllocator} {outer inner outer' inner' : BuddyUse} {size skip : Nat}

/-- What a level got, or nothing. -/
theorem passDown_spec (houter : Good outer) (hinner : Good inner)
    (hinside : Inside inner.regions outer.live) (hskip : skip + kHeader ≤ size)
    (hfine : Fine size outer.alloc) (hpass : passDown size skip outer inner = some (outer', inner')) :
    Good outer' ∧ Good inner' ∧ Inside inner'.regions outer'.live ∧
      outer'.regions = outer.regions ∧ inner'.live = inner.live := by
  unfold passDown at hpass
  cases htake : outer.take size with
  | none => simp [htake] at hpass
  | some r =>
    obtain ⟨ptr, outer₁⟩ := r
    obtain ⟨hgood, hregions, hlive, hgrant⟩ := houter.take hfine htake
    cases ptr with
    | none =>
      simp only [htake, Option.some.injEq, Prod.mk.injEq] at hpass
      obtain ⟨rfl, rfl⟩ := hpass
      exact ⟨hgood, hinner, hlive ▸ hinside, hregions, rfl⟩
    | some ptr =>
      simp only [htake, Option.some.injEq, Prod.mk.injEq] at hpass
      obtain ⟨rfl, rfl⟩ := hpass
      obtain ⟨hgrown, hin⟩ := hinner.grow hinside (hgrant ptr rfl) hskip
      exact ⟨hgood, hgrown, hlive ▸ hin, hregions, rfl⟩

/-! ### Runs -/

theorem step_inOrder {op : MpOp} (h : InOrder m) (hstep : Takes op m m') : InOrder m' := by
  obtain ⟨htame, hstep⟩ := hstep
  cases op with
  | expandGlobal region regionSize =>
    obtain ⟨u₁, hexpand, hgood⟩ := BuddyUse.step_expand (region, regionSize) h.global htame.1
      htame.2.1 htame.2.2
    have hgrow : m.global.grow region regionSize = u₁ := Option.some.inj hexpand
    rw [step, Option.some.injEq] at hstep
    rw [← hstep]
    exact ⟨hgrow ▸ hgood, h.process, h.thread, h.processInside, h.threadInside⟩
  | takeGlobal size =>
    obtain ⟨⟨r, u₁⟩, htake, rfl⟩ := Option.map_eq_some_iff.mp hstep
    obtain ⟨hgood, -, hlive, -⟩ := h.global.take htame htake
    refine ⟨hgood, h.process, h.thread, h.processInside.mono ?_, h.threadInside⟩
    rw [hlive]
    exact BuddyUse.subset_received r size _
  | growProcess size skip =>
    obtain ⟨⟨outer, inner⟩, hpass, rfl⟩ := Option.map_eq_some_iff.mp hstep
    obtain ⟨houter, hinner, hinside, -, hlive⟩ :=
      passDown_spec h.global h.process h.processInside htame.1 htame.2 hpass
    exact ⟨houter, hinner, h.thread, hinside, hlive ▸ h.threadInside⟩
  | takeProcess size =>
    obtain ⟨⟨r, u₁⟩, htake, rfl⟩ := Option.map_eq_some_iff.mp hstep
    obtain ⟨hgood, hregions, hlive, -⟩ := h.process.take htame htake
    refine ⟨h.global, hgood, h.thread, hregions ▸ h.processInside, h.threadInside.mono ?_⟩
    rw [hlive]
    exact BuddyUse.subset_received r size _
  | growThread size skip =>
    obtain ⟨⟨outer, inner⟩, hpass, rfl⟩ := Option.map_eq_some_iff.mp hstep
    obtain ⟨houter, hinner, hinside, hregions, -⟩ :=
      passDown_spec h.process h.thread h.threadInside htame.1 htame.2 hpass
    exact ⟨h.global, houter, hinner, hregions ▸ h.processInside, hinside⟩
  | takeThread size =>
    obtain ⟨⟨r, u₁⟩, htake, rfl⟩ := Option.map_eq_some_iff.mp hstep
    obtain ⟨hgood, hregions, -, -⟩ := h.thread.take htame htake
    exact ⟨h.global, h.process, hgood, h.processInside, hregions ▸ h.threadInside⟩
  | freeThread ptr =>
    rw [step] at hstep
    obtain ⟨u₁, hfree, rfl⟩ := Option.map_eq_some_iff.mp hstep
    obtain ⟨u₂, hfree', hgood⟩ := BuddyUse.step_free h.thread htame
    rw [hfree, Option.some.injEq] at hfree'
    have hregions : u₁.regions = m.thread.regions := by
      rw [BuddyUse.step, Option.some.injEq] at hfree
      rw [← hfree]
    exact ⟨h.global, h.process, hfree' ▸ hgood, h.processInside, hregions ▸ h.threadInside⟩

theorem run_inOrder {mem : Offset → BuddyPage} {ops : List MpOp}
    (hrun : Along Takes ops (init mem) m) : InOrder m :=
  hrun.invariant (fun _ _ _ _ h hstep => step_inOrder h hstep) (inOrder_init mem)

/-! ### Sizes -/

theorem wrap_of_lt {n : Nat} (h : n < 2 ^ 64) : wrap n = n := Nat.mod_eq_of_lt h

theorem threadExpansion_eq (hsize : size + size / 4 + 3 * kHeader < 2 ^ 64) :
    threadExpansion size = max (size + size / 4 + kHeader) threadUnit := by
  have hwrap : wrap (size + size / 4 + kHeader) = size + size / 4 + kHeader :=
    wrap_of_lt (by omega)
  rw [threadExpansion, hwrap]
  by_cases hgt : size + size / 4 + kHeader > threadUnit
  · rw [if_pos hgt, Nat.max_eq_left (Nat.le_of_lt hgt)]
  · rw [if_neg hgt, Nat.max_eq_right (Nat.le_of_not_lt hgt)]

theorem processExpansion_eq (hsize : size + size / 4 + 3 * kHeader < 2 ^ 64) :
    processExpansion size = max (size + size / 4 + 3 * kHeader) processUnit := by
  have hwrap : wrap (size + size / 4 + 3 * kHeader) = size + size / 4 + 3 * kHeader :=
    wrap_of_lt hsize
  rw [processExpansion, hwrap]
  by_cases hgt : size + size / 4 + 3 * kHeader > processUnit
  · rw [if_pos hgt, Nat.max_eq_left (Nat.le_of_lt hgt)]
  · rw [if_neg hgt, Nat.max_eq_right (Nat.le_of_not_lt hgt)]

/-- What a page for the process says of the page for the thread. -/
theorem threadExpansion_bounds (hsize : size + size / 4 + 3 * kHeader < kFreeMask) :
    2 ^ 21 ≤ threadExpansion size ∧ size + size / 4 + kHeader ≤ threadExpansion size ∧
      threadExpansion size + 7 < kFreeMask - kHeader := by
  have hbound := hsize
  simp only [kHeader, kFreeMask] at hbound
  rw [threadExpansion_eq (Nat.lt_trans hsize (by decide))]
  simp only [kHeader, threadUnit, kFreeMask]
  omega

/-- The page for the thread, with its header, fits behind the header of the page for the
process if that is of the least size, or nothing is rounded up. -/
theorem expansion_fits_iff (hsize : size + size / 4 + 3 * kHeader < kFreeMask) :
    roundUp (threadExpansion size) + kHeader ≤ processExpansion size - kHeader ↔
      size + size / 4 + 3 * kHeader ≤ processUnit ∨ 8 ∣ size + size / 4 + kHeader := by
  have hlt : size + size / 4 + 3 * kHeader < 2 ^ 64 := Nat.lt_trans hsize (by decide)
  obtain ⟨-, -, hmax⟩ := threadExpansion_bounds hsize
  rw [Buddy.roundUp_eq (Nat.lt_trans hmax (by decide)), threadExpansion_eq hlt,
    processExpansion_eq hlt]
  simp only [kHeader, kMinSize, threadUnit, processUnit]
  clear hsize hlt hmax
  omega

/-! ### The slow path -/

/-- There is a page for the thread when the process has got its page. -/
def Fits (size : Nat) (m : MpAllocator) : Prop :=
  size + size / 4 + 3 * kHeader ≤ processUnit ∨ 8 ∣ size + size / 4 + kHeader ∨
    ∃ p ∈ m.process.alloc.pagesOf (.large (kMaxLargePages - 1)),
      roundUp (threadExpansion size) ≤ sizeAt m.process.alloc.mem p

section

variable {off : Nat} {process thread : BuddyUse}

/-- A thread that gets a page for a request serves it. -/
theorem thread_serves (hprocess : Good process) (hthread : Good thread)
    (hinside : Inside thread.regions process.live)
    (hsize : size + size / 4 + 3 * kHeader < kFreeMask) {process' : BuddyUse}
    (htake : process.take (threadExpansion size) = some (some off, process')) :
    ∃ ptr thread', (thread.grow off (threadExpansion size)).take size = some (some ptr, thread') := by
  obtain ⟨hunit, hquarter, hmax⟩ := threadExpansion_bounds hsize
  have hheader : kHeader ≤ threadExpansion size :=
    Nat.le_trans (Nat.le_add_left kHeader _) hquarter
  obtain ⟨rep, hfull⟩ := hprocess.full
  have hgrant := hprocess.granted_of_large (Nat.lt_of_lt_of_le (by decide) hunit)
    (Nat.lt_trans hmax (by decide)) (hfull.big.no_wrap (Buddy.roundUp_lt hmax)) htake
  obtain ⟨hgood, hroom, -⟩ := hthread.grow_frame hinside hgrant hheader
  obtain ⟨rep', hfull'⟩ := hgood.full
  have hneed : size + 7 < kFreeMask - kHeader := by omega
  rw [BuddyUse.take_some_iff]
  refine (Buddy.allocateOffset_some_iff hfull' (Buddy.need_lt hneed)).mpr ?_
  refine Buddy.reaches_of_quarter (Nat.lt_trans hneed (by decide)) ?_ ?_
  · rw [hroom]
    omega
  · rw [hroom]
    omega

/-- When the process has got its page, it has one for the thread exactly if that fits. -/
theorem process_serves_iff (h : InOrder m) (hsize : size + size / 4 + 3 * kHeader < kFreeMask)
    (hgrant : Granted m.global.live (off, processExpansion size)) :
    Good (m.process.grow off (processExpansion size)) ∧
      ((∃ ptr process, (m.process.grow off (processExpansion size)).take (threadExpansion size) =
        some (some ptr, process)) ↔ Fits size m) := by
  obtain ⟨hunit, -, hmax⟩ := threadExpansion_bounds hsize
  have hheader : kHeader ≤ processExpansion size := by
    rw [processExpansion_eq (Nat.lt_trans hsize (by decide))]
    exact Nat.le_trans (by decide) (Nat.le_max_right _ _)
  obtain ⟨hgood, hroom, hlists⟩ := h.process.grow_frame h.processInside hgrant hheader
  obtain ⟨rep, hfull⟩ := hgood.full
  obtain ⟨hpages, hsizes⟩ := hlists (kMaxLargePages - 1)
  refine ⟨hgood, ?_⟩
  have hnowrap : threadExpansion size + 7 < 2 ^ 64 := Nat.lt_trans hmax (by decide)
  obtain ⟨hle, -⟩ := Buddy.roundUp_spec hnowrap
  have hlarge : ¬roundUp (threadExpansion size) ≤ kSmallThreshold := by
    simp only [kSmallThreshold]
    omega
  rw [BuddyUse.take_some_iff, Buddy.allocateOffset_some_iff hfull (Buddy.need_lt hmax)]
  unfold Buddy.Reaches Buddy.need
  simp only [hlarge, if_false]
  rw [Buddy.last_list (Nat.le_trans hunit hle), hroom, expansion_fits_iff hsize, hpages, or_comm,
    or_assoc, Fits]
  refine or_congr_right (or_congr_right (exists_congr fun p => and_congr_right fun hp => ?_))
  rw [hsizes p hp]
  exact Nat.add_le_add_iff_right

/-- No sum that is made for a request wraps around. -/
def NoWrap (size : Nat) (m : MpAllocator) : Prop :=
  m.global.alloc.bigHeap.heap + (size + size / 4 + 4 * kHeader + 7) < 2 ^ 64

theorem processExpansion_bounds {heap : Nat} (hheap : heap ≤ kFreeMask)
    (hsize : heap + (size + size / 4 + 4 * kHeader + 7) < 2 ^ 64) :
    kSmallThreshold < processExpansion size ∧ processExpansion size + 7 < 2 ^ 64 ∧
      heap + (roundUp (processExpansion size) + kHeader) < 2 ^ 64 ∧
      size + size / 4 + 3 * kHeader ≤ processExpansion size := by
  simp only [kFreeMask, kHeader] at hheap hsize
  have hmax : processExpansion size + 7 < 2 ^ 64 := by
    rw [processExpansion_eq (by simp only [kHeader]; omega)]
    simp only [kHeader, processUnit]
    omega
  rw [Buddy.roundUp_eq hmax]
  clear hmax
  rw [processExpansion_eq (by simp only [kHeader]; omega)]
  simp only [kHeader, processUnit, kSmallThreshold, kMinSize]
  omega

/-- What the global allocator hands out is granted, and has no sum that wraps around. -/
theorem global_grants (h : InOrder m) (hsize : NoWrap size m) {global : BuddyUse}
    (htake : m.global.take (processExpansion size) = some (some off, global)) :
    Granted m.global.live (off, processExpansion size) ∧
      size + size / 4 + 3 * kHeader < kFreeMask := by
  obtain ⟨rep, hfull⟩ := h.global.full
  obtain ⟨hlarge, hmax, hnowrap, hle⟩ := processExpansion_bounds
    (Nat.le_trans hfull.big.order hfull.big.bound) hsize
  have hgrant := h.global.granted_of_large hlarge hmax hnowrap htake
  refine ⟨hgrant, Nat.lt_of_le_of_lt hle (Nat.lt_of_lt_of_le ?_ hgrant.bound)⟩
  exact Nat.lt_add_of_pos_left hgrant.start

/--
**When the slow path serves a request.**  In every state that a run of tame steps reaches, and
for every request for which the global allocator has the page and no sum wraps around, the
slow path returns a pointer exactly if the page for the process has the least size, or the
page for the thread is not rounded up, or the process has a free page for it on its last list.
-/
theorem slow_path_iff {mem : Offset → BuddyPage} {ops : List MpOp}
    (hrun : Along Takes ops (init mem) m) (hsize : NoWrap size m) {off : Offset}
    {global : BuddyUse} (hgrant : m.global.take (processExpansion size) = some (some off, global)) :
    (∃ ptr m', allocateOffsetFromGlobal size m = some (some ptr, m')) ↔ Fits size m := by
  have h := run_inOrder hrun
  obtain ⟨hgranted, hbound⟩ := global_grants h hsize hgrant
  obtain ⟨hprocess, hserves⟩ := process_serves_iff h hbound hgranted
  rw [← hserves, allocateOffsetFromGlobal]
  simp only [hgrant, allocateOffsetFromPblock]
  refine ⟨?_, ?_⟩
  · rintro ⟨ptr, m', hslow⟩
    cases htake : (m.process.grow off (processExpansion size)).take (threadExpansion size) with
    | none => simp [htake] at hslow
    | some r =>
      obtain ⟨r, process⟩ := r
      cases r with
      | none => simp [htake] at hslow
      | some expandOff => exact ⟨expandOff, process, rfl⟩
  · rintro ⟨expandOff, process, htake⟩
    obtain ⟨ptr, thread, hserved⟩ :=
      thread_serves hprocess h.thread h.threadInside hbound htake
    rw [htake]
    simp only [allocateOffsetFromTblock, hserved]
    exact ⟨ptr, _, rfl⟩

end

theorem tame_first {region regionSize : Nat} (mem : Offset → BuddyPage)
    (hheader : kHeader ≤ regionSize) (hbound : region + regionSize ≤ kFreeMask) :
    Tame (.expandGlobal region regionSize) (init mem) :=
  ⟨hheader, hbound, fun _ hr => absurd hr List.not_mem_nil⟩

/-- A region for the global allocator, of 32 megabytes. -/
def oneRegion : List MpOp := [.expandGlobal 4096 33554432]

/-- With 32 megabytes the first request of 100 bytes is served. -/
theorem slow_path_iff_oneRegion :
    ∃ m off global, Along Takes oneRegion (init BuddyUse.blank) m ∧
      m.global.take (processExpansion 100) = some (some off, global) ∧
      ((∃ ptr m', allocateOffsetFromGlobal 100 m = some (some ptr, m')) ↔ Fits 100 m) := by
  have hrun : Along Takes oneRegion (init BuddyUse.blank)
      { init BuddyUse.blank with global := (init BuddyUse.blank).global.grow 4096 33554432 } :=
    ⟨_, ⟨tame_first _ (by decide) (by decide), rfl⟩, rfl⟩
  exact ⟨_, _, _, hrun, rfl, slow_path_iff hrun (show _ < _ by decide) rfl⟩

/-- With 64 megabytes the global allocator has the page for a request, and the request is
refused. -/
def GrantedAndRefused (size : Nat) : Prop :=
  ∃ m, Along Takes [.expandGlobal 4096 67108864] (init BuddyUse.blank) m ∧
    (∃ off global, m.global.take (processExpansion size) = some (some off, global)) ∧
    ∃ m', allocateOffsetFromGlobal size m = some (none, m')

/-- The global allocator has the page for a request of 20000001 bytes, and the process finds none
in it: rounded up and with a header, 25000017 bytes are 25000040, and of the 25000049 bytes of
the page 25000033 are behind its header.  For a request of four fifths of `2 ^ 64` the sums
wrap around, and the page is of the least size. -/
theorem granted_and_refused : GrantedAndRefused 20000001 ∧ GrantedAndRefused 14757395258967641293 := by
  have hrun : Along Takes [.expandGlobal 4096 67108864] (init BuddyUse.blank)
      { init BuddyUse.blank with global := (init BuddyUse.blank).global.grow 4096 67108864 } :=
    ⟨_, ⟨tame_first _ (by decide) (by decide), rfl⟩, rfl⟩
  exact ⟨⟨_, hrun, ⟨_, _, rfl⟩, ⟨_, rfl⟩⟩, ⟨_, hrun, ⟨_, _, rfl⟩, ⟨_, rfl⟩⟩⟩

end MpAllocator

end Shm
end IowarpCore
