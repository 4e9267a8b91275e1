/-
When the pages of a buddy allocator leave no holes.

`Core` says that pages and heaps do not overlap, but not that every byte is in one of them.
`Exact` adds that together they are as long as the regions, and that the flag in a header
tells the pages in use from the free ones.  Every operation keeps it but three: a page of a
small list that is larger than its class is cut without a header for the rest, an arena is
divided although a few bytes are left over at the end, and a page from a large list becomes
an arena that is shorter.  `NoHole` excludes these.
-/
import Mathlib.Data.List.Find
import IowarpCore.Proofs.BuddyComplete

namespace IowarpCore
namespace Shm

open Extent
open BuddyPage (kHeader kFreeMask)

namespace Buddy

variable {s s' : Buddy} {id : ListId} {p n : Nat} {rep : ListId → List Offset}
  {live l : List Offset} {bodies hands hands' : List Extent} {size k : Nat}

/-! ### Pages that move -/

theorem pages_push (hid : id ∈ ids) (rep : ListId → List Offset) (live : List Offset) (p : Offset) :
    (pages rep (p :: live)).Perm (pages (Function.update rep id (p :: rep id)) live) := by
  obtain ⟨rest, hperm, hupdate⟩ := pages_update hid rep live
  exact (hperm.cons p).trans (hupdate (p :: rep id)).symm

theorem pages_pull (hid : id ∈ ids) (hrep : (rep id).Perm (p :: l)) (live : List Offset) :
    (pages rep live).Perm (pages (Function.update rep id l) (p :: live)) := by
  obtain ⟨rest, hperm, hupdate⟩ := pages_update hid rep live
  exact (hperm.trans (hrep.append_right rest)).trans ((hupdate l).symm.cons p)

theorem size_emplace (q : Offset) : ((s.emplace id p).mem q).size = (s.mem q).size := by
  simp only [emplace, setList, writePage]
  split <;> rfl

theorem size_popAt (prev : OffsetPtr) (q : Offset) :
    ((s.popAt id prev p).mem q).size = (s.mem q).size := by
  unfold popAt
  split
  · rfl
  · split
    · rfl
    · simp only [setList, writePage]
      split <;> rfl

theorem findFirstFit_size {listIdx required q : Nat}
    (h : s.findFirstFit listIdx required = some (q, s')) (r : Offset) :
    (s'.mem r).size = (s.mem r).size :=
  findFirstFit_induct (P := fun s' => ∀ r, (s'.mem r).size = (s.mem r).size) (fun _ => rfl)
    (fun prev _ r => size_popAt prev r) h r

/-! ### Nothing is lost -/

/-- Pages and hands are as long as the bodies, and the flags are set on the free pages. -/
structure Exact (s : Buddy) (rep : ListId → List Offset) (live : List Offset)
    (bodies hands : List Extent) : Prop where
  core : Core s rep live bodies hands
  covers : total hands + total ((pages rep live).map (extentAt s.mem)) = total bodies
  used : ∀ p ∈ live, (s.mem p).size < kFreeMask
  free : ∀ id, ∀ p ∈ rep id, kFreeMask ≤ (s.mem p).size

/-- The same bytes are in hand, divided otherwise. -/
theorem Exact.rehand (h : Exact s rep live bodies hands) (hcore : Core s rep live bodies hands')
    (htotal : total hands = total hands') : Exact s rep live bodies hands' :=
  ⟨hcore, htotal ▸ h.covers, h.used, h.free⟩

theorem Exact.perm (h : Exact s rep live bodies hands) (hperm : hands.Perm hands') :
    Exact s rep live bodies hands' :=
  h.rehand (h.core.perm hperm) (total_perm hperm)

theorem Exact.split {m : Nat} (h : Exact s rep live bodies ((p, n + m) :: hands)) :
    Exact s rep live bodies ((p, n) :: (p + n, m) :: hands) :=
  h.rehand h.core.split (by simp [total, Nat.add_assoc])

theorem Exact.dropEmpty (h : Exact s rep live bodies ((p, 0) :: hands)) :
    Exact s rep live bodies hands :=
  h.rehand h.core.drop (by simp [total])

theorem Exact.congr (h : Exact s rep live bodies hands) (hmem : s'.mem = s.mem)
    (hlists : s'.lists = s.lists) : Exact s' rep live bodies hands :=
  ⟨h.core.congr hmem hlists, by rw [hmem]; exact h.covers, by rw [hmem]; exact h.used,
    by rw [hmem]; exact h.free⟩

theorem map_extentAt_congr {mem mem' : Offset → BuddyPage} {ps : List Offset}
    (h : ∀ q ∈ ps, (mem' q).size = (mem q).size) :
    ps.map (extentAt mem') = ps.map (extentAt mem) := by
  refine List.map_congr_left fun q hq => ?_
  rw [extentAt, extentAt, sizeAt, sizeAt, BuddyPage.getSize, BuddyPage.getSize, h q hq]

/-- A stretch and the page that it becomes cover the same bytes. -/
theorem Exact.covers_page (h : Exact s rep live bodies ((p, n) :: hands))
    {mem : Offset → BuddyPage} (hsame : ∀ q ∈ pages rep live, (mem q).size = (s.mem q).size)
    (hsize : kHeader + (mem p).getSize = n) :
    total hands + total ((p :: pages rep live).map (extentAt mem)) = total bodies := by
  rw [List.map_cons, map_extentAt_congr hsame, total, extentAt, sizeAt, hsize, ← h.covers, total]
  omega

/-- A stretch becomes a page in use. -/
theorem Exact.use (h : Exact s rep live bodies ((p, n) :: hands)) (f : BuddyPage → BuddyPage)
    (hsize : kHeader + (f (s.mem p)).getSize = n) (hused : (f (s.mem p)).size < kFreeMask) :
    Exact (s.writePage p f) rep (p :: live) bodies hands := by
  have hnot : p ∉ pages rep live := h.core.not_mem (by simp only [kHeader] at hsize; omega)
  have hother : ∀ q, q ≠ p → (s.writePage p f).mem q = s.mem q := fun q hq => writePage_of_ne f hq
  have hsame : ∀ q ∈ pages rep live, ((s.writePage p f).mem q).size = (s.mem q).size :=
    fun q hq => by rw [hother q fun heq => hnot (heq ▸ hq)]
  refine ⟨h.core.use f (Nat.le_of_eq hsize), ?_, ?_, ?_⟩
  · exact h.covers_page hsame (by rw [writePage_self, hsize])
  · intro q hq
    rcases List.mem_cons.mp hq with rfl | hq
    · rw [writePage_self]
      exact hused
    · rw [hsame q (List.mem_append_left _ hq)]
      exact h.used q hq
  · intro id q hq
    rw [hsame q (mem_pages_of_rep h.core.outside hq)]
    exact h.free id q hq

/-- A page in use comes in hand. -/
theorem Exact.release (h : Exact s rep live bodies hands) (hp : p ∈ live) :
    Exact s rep (live.erase p) bodies (extentAt s.mem p :: hands) := by
  refine ⟨h.core.release hp, ?_, fun q hq => h.used q (List.mem_of_mem_erase hq), h.free⟩
  have hperm : ((pages rep live).map (extentAt s.mem)).Perm
      (extentAt s.mem p :: (pages rep (live.erase p)).map (extentAt s.mem)) :=
    ((List.perm_cons_erase hp).append_right _).map _
  rw [← h.covers, total_perm hperm, total, total]
  omega

/-- A page comes off its list and in hand. -/
theorem Exact.take (h : Exact s rep live bodies hands) (hid : id ∈ ids)
    (hrep : (rep id).Perm (p :: l))
    (hcore : Core s' (Function.update rep id l) (p :: live) bodies hands)
    (hsame : ∀ q, (s'.mem q).size = (s.mem q).size) :
    Exact s' (Function.update rep id l) live bodies (extentAt s.mem p :: hands) := by
  have hextents : ∀ ps : List Offset, ps.map (extentAt s'.mem) = ps.map (extentAt s.mem) :=
    fun ps => map_extentAt_congr fun q _ => hsame q
  have hhand := hcore.release (p := p) List.mem_cons_self
  rw [List.erase_cons_head] at hhand
  have hextent : extentAt s'.mem p = extentAt s.mem p := by
    simpa using hextents [p]
  refine ⟨hextent ▸ hhand, ?_, fun q hq => by rw [hsame]; exact h.used q hq, ?_⟩
  · have hperm := (pages_pull hid hrep live).map (extentAt s.mem)
    have hpages : pages (Function.update rep id l) (p :: live) =
        p :: pages (Function.update rep id l) live := rfl
    rw [← h.covers, hextents, total_perm hperm, hpages, List.map_cons, total, total]
    omega
  · intro id' q hq
    rw [hsame]
    by_cases heq : id' = id
    · subst heq
      rw [Function.update_self] at hq
      exact h.free id' q (hrep.mem_iff.mpr (List.mem_cons_of_mem _ hq))
    · rw [Function.update_of_ne heq] at hq
      exact h.free id' q hq

/-- A stretch becomes a page on a list. -/
theorem Exact.list (h : Exact s rep live bodies ((p, n) :: hands)) (hid : id ∈ ids)
    (f : BuddyPage → BuddyPage) (hsize : kHeader + (f (s.mem p)).getSize = n)
    (hfree : kFreeMask ≤ (f (s.mem p)).size)
    (hclass : ∀ i, id = .small i → 2 ^ (i + kMinLog2) ≤ (f (s.mem p)).getSize) :
    Exact ((s.writePage p f).emplace id p) (Function.update rep id (p :: rep id)) live bodies
      hands := by
  have hnot : p ∉ pages rep live := h.core.not_mem (by simp only [kHeader] at hsize; omega)
  have hother : ∀ q, q ≠ p → (((s.writePage p f).emplace id p).mem q).size = (s.mem q).size :=
    fun q hq => by rw [size_emplace, writePage_of_ne f hq]
  have hself : (((s.writePage p f).emplace id p).mem p).size = (f (s.mem p)).size := by
    rw [size_emplace, writePage_self]
  have hsame : ∀ q ∈ pages rep live,
      (((s.writePage p f).emplace id p).mem q).size = (s.mem q).size :=
    fun q hq => hother q fun heq => hnot (heq ▸ hq)
  refine ⟨(h.core.use f (Nat.le_of_eq hsize)).emplace hid ?_, ?_, ?_, ?_⟩
  · intro i heq
    rw [sizeAt, writePage_self]
    exact hclass i heq
  · rw [← total_perm ((pages_push hid rep live p).map _)]
    exact h.covers_page hsame (by rw [BuddyPage.getSize, hself]; exact hsize)
  · intro q hq
    rw [hsame q (List.mem_append_left _ hq)]
    exact h.used q hq
  · intro id' q hq
    have hrest : q ∈ rep id' → kFreeMask ≤
        (((s.writePage p f).emplace id p).mem q).size := fun hq => by
      rw [hsame q (mem_pages_of_rep h.core.outside hq)]
      exact h.free id' q hq
    by_cases heq : id' = id
    · subst heq
      rw [Function.update_self] at hq
      rcases List.mem_cons.mp hq with rfl | hq
      · rw [hself]
        exact hfree
      · exact hrest hq
    · rw [Function.update_of_ne heq] at hq
      exact hrest hq

/-! ### Dividing -/

/-- What `DivideArenaIntoPages` leaves at the end of so many bytes, from the classes below `i`
on. -/
def leftover : Nat → Nat → Nat
  | 0, n => n
  | i + 1, n => leftover i (n - n / (2 ^ (i + kMinLog2) + kHeader) * (2 ^ (i + kMinLog2) + kHeader))

/-- The large lists and their pages are what they were. -/
structure LargeSame (s s' : Buddy) (rep rep' : ListId → List Offset) : Prop where
  lists : ∀ j, rep' (.large j) = rep (.large j)
  sizes : ∀ j, ∀ q ∈ rep (.large j), (s'.mem q).size = (s.mem q).size

theorem LargeSame.trans {s₁ s₂ s₃ : Buddy} {rep₁ rep₂ rep₃ : ListId → List Offset}
    (h : LargeSame s₁ s₂ rep₁ rep₂) (h' : LargeSame s₂ s₃ rep₂ rep₃) :
    LargeSame s₁ s₃ rep₁ rep₃ := by
  refine ⟨fun j => (h'.lists j).trans (h.lists j), fun j q hq => ?_⟩
  rw [h'.sizes j q (by rw [h.lists j]; exact hq)]
  exact h.sizes j q hq

theorem Exact.divideClass {i : Nat} (hi : i < kMaxSmallPages) {m : Nat} (n : Nat) :
    ∀ {off : Nat} {s : Buddy} {rep : ListId → List Offset},
      Exact s rep live bodies ((off, n * (2 ^ (i + kMinLog2) + kHeader) + m) :: hands) →
      ∃ rep', Exact (s.divideClass i n off) rep' live bodies
          ((off + n * (2 ^ (i + kMinLog2) + kHeader), m) :: hands) ∧
        LargeSame s (s.divideClass i n off) rep rep' := by
  induction n with
  | zero =>
    intro off s rep h
    refine ⟨rep, ?_, fun _ => rfl, fun _ _ _ => rfl⟩
    simpa [Buddy.divideClass] using h
  | succ n ih =>
    intro off s rep h
    have hlt : 2 ^ (i + kMinLog2) < kFreeMask := by
      refine Nat.pow_lt_pow_right (by decide) ?_
      simp only [kMaxSmallPages, kMinLog2] at *
      omega
    have hget : (BuddyPage.markFree ⟨none, 2 ^ (i + kMinLog2)⟩).getSize = 2 ^ (i + kMinLog2) := by
      rw [getSize_markFree, getSize_of_lt hlt]
    rw [Nat.succ_mul, Nat.add_comm (n * _), Nat.add_assoc] at h
    have hnot := h.split.core.not_mem
      (Nat.lt_of_lt_of_le (by decide) (Nat.le_add_left kHeader (2 ^ (i + kMinLog2))))
    have hlisted := h.split.list (mem_ids_small.mpr hi)
      (fun _ => BuddyPage.markFree ⟨none, 2 ^ (i + kMinLog2)⟩)
      (by rw [hget]; exact Nat.add_comm _ _) (Nat.le_add_left _ _)
      (fun j heq => by rw [hget, ListId.small.inj heq])
    obtain ⟨rep', hexact, hlarge⟩ := ih hlisted
    refine ⟨rep', ?_, LargeSame.trans ⟨fun j => ?_, fun j q hq => ?_⟩ hlarge⟩
    · rw [Nat.succ_mul, Nat.add_comm (n * _), ← Nat.add_assoc]
      exact hexact
    · rw [Function.update_of_ne (by simp)]
    · have hne : q ≠ off := fun heq =>
        hnot (heq ▸ mem_pages_of_rep h.core.outside hq)
      rw [size_emplace, writePage_of_ne _ hne]

theorem Exact.divideLoop (i : Nat) : ∀ {off remaining : Nat} {s : Buddy}
    {rep : ListId → List Offset}, i ≤ kMaxSmallPages →
      Exact s rep live bodies ((off, remaining) :: hands) →
      ∃ rep' rest, Exact (s.divideLoop i off remaining) rep' live bodies
          ((rest, leftover i remaining) :: hands) ∧
        LargeSame s (s.divideLoop i off remaining) rep rep' := by
  induction i with
  | zero =>
    intro off remaining s rep _ h
    exact ⟨rep, off, h, fun _ => rfl, fun _ _ _ => rfl⟩
  | succ i ih =>
    intro off remaining s rep hi h
    rw [← Nat.add_sub_of_le (Nat.div_mul_le_self remaining (2 ^ (i + kMinLog2) + kHeader))] at h
    obtain ⟨rep₁, hexact₁, hlarge₁⟩ := h.divideClass (by omega) _
    obtain ⟨rep₂, rest, hexact₂, hlarge₂⟩ := ih (by omega) hexact₁
    exact ⟨rep₂, rest, hexact₂, hlarge₁.trans hlarge₂⟩

/-- If nothing is left over, all of a heap is on the small lists. -/
theorem Exact.divideArena {a : Heap} (h : Exact s rep live bodies (spare a ++ hands))
    (hbounds : InBounds a) (hleft : leftover kMaxSmallPages a.room = 0) :
    ∃ rep' a' s', s.divideArenaIntoPages a = (a', s') ∧ Exact s' rep' live bodies hands ∧
      LargeSame s s' rep rep' := by
  rw [divideArenaIntoPages, hbounds.remaining]
  by_cases hzero : a.room = 0
  · have heq : a.heap = a.maxOffset := by
      have horder := hbounds.order
      unfold Heap.room at hzero
      omega
    rw [spare_of_eq heq] at h
    exact ⟨rep, a, s, by simp [hzero], h, fun _ => rfl, fun _ _ _ => rfl⟩
  · have hlt : a.heap < a.maxOffset := by
      unfold Heap.room at hzero
      omega
    rw [spare, if_pos hlt, List.singleton_append] at h
    obtain ⟨rep', rest, hexact, hlarge⟩ := h.divideLoop kMaxSmallPages (Nat.le_refl _)
    unfold Heap.room at hleft
    rw [hleft] at hexact
    exact ⟨rep', ⟨a.maxOffset, a.maxOffset⟩, _, by simp only [hzero, if_false]; rfl,
      hexact.dropEmpty, hlarge⟩

/-! ### The heaps -/

theorem total_spare {a : Heap} (h : InBounds a) : total (spare a) = a.room := by
  have horder := h.order
  unfold spare Heap.room
  by_cases hlt : a.heap < a.maxOffset
  · rw [if_pos hlt]
    rfl
  · rw [if_neg hlt, total]
    omega

theorem Exact.takeFront {a : Heap} (h : Exact s rep live bodies (spare a ++ hands))
    (hbounds : InBounds a) (hpos : 0 < n) (hle : a.heap + n ≤ a.maxOffset) :
    Exact s rep live bodies ((a.heap, n) :: (spare { a with heap := a.heap + n } ++ hands)) := by
  refine h.rehand (h.core.takeFront hpos hle) ?_
  have hrest : InBounds { a with heap := a.heap + n } := ⟨hle, hbounds.bound⟩
  rw [total_append, total_spare hbounds, total, total_append, total_spare hrest]
  unfold Heap.room
  dsimp only
  omega

/-- What is in hand is handed out. -/
theorem Exact.finalize (h : Exact s rep live bodies ((p, kHeader + size) :: hands))
    (hlt : size < kFreeMask) :
    Exact (s.finalizeAllocation p size).2 rep (p :: live) bodies hands := by
  have hfield : ∀ page : BuddyPage,
      (BuddyPage.markAllocated { page with size := size }).size = size :=
    fun _ => Nat.mod_eq_of_lt hlt
  refine h.use (fun page => BuddyPage.markAllocated { page with size := size }) ?_ ?_
  · rw [getSize_markAllocated, getSize_of_lt hlt]
  · rw [hfield]
    exact hlt

/-- The pages and the heaps of an allocator leave no hole in its only region, and the big heap
ends where the region does. -/
structure Tiled (s : Buddy) (rep : ListId → List Offset) (live : List Offset) (b : Extent) :
    Prop where
  exact : Exact s rep live [b] (spare s.smallArena ++ spare s.bigHeap)
  top : s.bigHeap.maxOffset = b.stop

/-- The same after an allocation that returned null or a pointer. -/
def TiledWith (s : Buddy) (live : List Offset) (b : Extent) : OffsetPtr → Prop
  | none => ∃ rep, Tiled s rep live b
  | some ptr => ∃ rep, Tiled s rep ((ptr - kHeader) :: live) b

variable {b : Extent}

theorem Tiled.perm {live' : List Offset} (h : Tiled s rep live b) (hperm : live.Perm live') :
    Tiled s rep live' b := by
  refine ⟨⟨?_, ?_, fun p hp => h.exact.used p (hperm.mem_iff.mpr hp), h.exact.free⟩, h.top⟩
  · have hcore := h.exact.core
    exact ⟨hcore.chains, hcore.counts, hcore.outside,
      hcore.carved.perm (((hperm.append_right _).map _).append_left _), hcore.classes⟩
  · rw [← h.exact.covers]
    exact congrArg _ (total_perm ((hperm.symm.append_right _).map _))

/-- The lists of an allocator are what its links say. -/
theorem Core.rep_eq {rep' : ListId → List Offset} {live' : List Offset}
    {bodies' : List Extent} (h : Core s rep live bodies hands)
    (h' : Core s rep' live' bodies' hands') : rep' = rep := by
  funext id
  rw [← h.pagesOf, ← h'.pagesOf]

/-- What is in hand, and is as long as a page for a request, is handed out. -/
theorem tiledWith_finalize (h : Exact s rep live [b]
      ((p, kHeader + size) :: (spare s.smallArena ++ spare s.bigHeap)))
    (hlt : size < kFreeMask) (htop : s.bigHeap.maxOffset = b.stop) :
    TiledWith (s.finalizeAllocation p size).2 live b (some (s.finalizeAllocation p size).1) := by
  refine ⟨rep, ?_⟩
  have hptr : (s.finalizeAllocation p size).1 - kHeader = p := Nat.add_sub_cancel p kHeader
  rw [hptr]
  exact ⟨h.finalize hlt, htop⟩

theorem mem_spare {a : Heap} {e : Extent} :
    e ∈ spare a ↔ a.heap < a.maxOffset ∧ e = (a.heap, a.maxOffset - a.heap) := by
  unfold spare
  by_cases hlt : a.heap < a.maxOffset
  · simp [hlt]
  · simp [hlt]

/-- Pages and the rest of the small arena lie behind each other, up to the big heap. -/
theorem Tiled.tiles (hfull : Full s rep live [b]) (h : Tiled s rep live b) :
    ∃ es, (spare s.smallArena ++ (pages rep live).map (extentAt s.mem)).Perm es ∧
      Tiles b.1 es s.bigHeap.heap := by
  have horder := hfull.big.order
  have htop := h.top
  have hcovers := h.exact.covers
  generalize hblocks : (pages rep live).map (extentAt s.mem) = blocks at *
  have hcarved : Carved [b] (spare s.bigHeap ++ (spare s.smallArena ++ blocks)) := by
    rw [← hblocks, ← List.append_assoc]
    exact h.exact.core.carved.perm (List.perm_append_comm.append_right _)
  obtain ⟨-, hapart, hbehind⟩ := List.pairwise_append.mp hcarved.apart
  have hpos : ∀ e ∈ spare s.smallArena ++ blocks, 0 < e.2 := by
    intro e he
    rcases List.mem_append.mp he with hspare | hblock
    · obtain ⟨hlt, rfl⟩ := mem_spare.mp hspare
      exact Nat.sub_pos_of_lt hlt
    · rw [← hblocks] at hblock
      obtain ⟨p, -, rfl⟩ := List.mem_map.mp hblock
      exact Nat.lt_of_lt_of_le (by decide) (Nat.le_add_right kHeader _)
  refine exists_tiles hapart hpos (fun e he => ?_) ?_
  · obtain ⟨b', hb', hstart, hstop⟩ := hcarved.inside e (List.mem_append_right _ he)
    rw [List.mem_singleton.mp hb'] at hstart hstop
    refine ⟨hstart, ?_⟩
    have hepos := hpos e he
    by_cases hlt : s.bigHeap.heap < s.bigHeap.maxOffset
    · have hdisjoint := hbehind _ (mem_spare.mpr ⟨hlt, rfl⟩) e he
      simp only [Apart, stop] at *
      omega
    · omega
  · rw [total_append, total_spare hfull.big] at hcovers
    simp only [total, Heap.room, stop] at *
    rw [total_append]
    omega

/-! ### Allocation -/

theorem allocateFromHeap_tiled (hfull : Full s rep live [b]) (h : Tiled s rep live b)
    (hlt : s.bigHeap.heap + (size + kHeader) < 2 ^ 64) :
    TiledWith (s.allocateFromHeap size (size + kHeader)).2 live b
      (s.allocateFromHeap size (size + kHeader)).1 := by
  rcases allocate_cases hlt with hnone | ⟨hle, hsome⟩
  · rw [allocateFromHeap, hnone]
    exact ⟨rep, h⟩
  · have hpos : 0 < size + kHeader := Nat.lt_of_lt_of_le (by decide) (Nat.le_add_left kHeader size)
    have hswap := h.exact.perm List.perm_append_comm
    have hheap : s.bigHeap.heap ≠ 0 := hswap.core.heap_pos hfull.start (by omega)
    have hsize : size < kFreeMask := by
      have hbound := hfull.big.bound
      omega
    have htaken := (hswap.takeFront hfull.big hpos hle).perm (List.Perm.cons _ List.perm_append_comm)
    rw [Nat.add_comm size kHeader] at htaken hsome ⊢
    rw [allocateFromHeap, hsome]
    dsimp only
    rw [if_pos hheap]
    exact tiledWith_finalize (s := { s with bigHeap :=
      { s.bigHeap with heap := s.bigHeap.heap + (kHeader + size) } }) (htaken.congr rfl rfl) hsize
      h.top

/-- A page of a small list is handed out whole if it is no larger than its class. -/
theorem allocateFromList_tiled (h : Tiled s rep live b) {i : Nat}
    (hrep : rep (.small i) = p :: l) (hsize : sizeAt s.mem p = size) :
    ∃ s', s.allocateFromList i size = (some (p + kHeader), s') ∧
      TiledWith s' live b (some (p + kHeader)) := by
  have hcount := h.exact.core.counts (.small i)
  rw [hrep] at hcount
  have hid : ListId.small i ∈ ids := mem_ids_of_mem h.exact.core.outside (p := p) (by simp [hrep])
  obtain ⟨s₁, hpop, hmem, harena, hbig, hcore⟩ := h.exact.core.pop hrep
  have hhand := h.exact.take hid (hrep ▸ List.Perm.refl _) hcore (fun q => by rw [hmem])
  rw [extentAt, hsize, ← harena, ← hbig] at hhand
  have hlt : size < kFreeMask := hsize ▸ Nat.mod_lt _ (by decide)
  refine ⟨_, ?_, tiledWith_finalize hhand hlt (by rw [hbig]; exact h.top)⟩
  simp [allocateFromList, hcount, hpop, finalizeAllocation]

/-! ### A new arena -/

/-- The page that becomes the small arena, from the last `k` large lists. -/
def arenaPage (s : Buddy) : Nat → Option Offset
  | 0 => none
  | k + 1 =>
    ((s.pagesOf (.large (kMaxLargePages - (k + 1)))).find? fun q =>
      kArena ≤ sizeAt s.mem q + kHeader).or (s.arenaPage k)

theorem arenaPage_congr {rep' : ListId → List Offset} {hands' : List Extent}
    (h : Core s rep live bodies hands) (h' : Core s' rep' live bodies hands')
    (hlarge : LargeSame s s' rep rep') (k : Nat) : s'.arenaPage k = s.arenaPage k := by
  induction k with
  | zero => rfl
  | succ k ih =>
    rw [arenaPage, arenaPage, ih, h.pagesOf, h'.pagesOf, hlarge.lists]
    refine congrArg (Option.or · _) (List.find?_congr fun q hq => ?_)
    rw [sizeAt, sizeAt, BuddyPage.getSize, BuddyPage.getSize, hlarge.sizes _ q hq]

theorem mem_arenaPage {q : Offset} (k : Nat) (h : q ∈ s.arenaPage k) :
    ∃ j, q ∈ s.pagesOf (.large j) := by
  induction k with
  | zero => cases h
  | succ k ih =>
    rw [arenaPage, Option.mem_def, Option.or_eq_some_iff] at h
    rcases h with hfind | ⟨-, hrest⟩
    · exact ⟨_, List.mem_of_find?_eq_some hfind⟩
    · exact ih hrest

/-- A large page becomes an arena without a hole if it is as long as one. -/
theorem arenaFromLists_tiled (hfull : Full s rep live [b]) (h : Tiled s rep live b)
    (hempty : spare s.smallArena = []) (k : Nat)
    (hwhole : ∀ q ∈ s.arenaPage k, sizeAt s.mem q + kHeader = kArena) :
    ∃ found s' rep', s.arenaFromLists kArena k = some (found, s') ∧ Tiled s' rep' live b := by
  induction k with
  | zero => exact ⟨false, s, rep, rfl, h⟩
  | succ k ih =>
    rw [arenaPage, hfull.core.pagesOf] at hwhole
    rcases findFirstFit_spec hfull.core hfull.start (kMaxLargePages - (k + 1)) kArena with
      ⟨hfit, hnone⟩ | ⟨q, s₁, l, hfit, hq, hfind, -, hsame, hcore, hperm⟩
    · rw [hnone, Option.none_or] at hwhole
      rw [arenaFromLists, hfit]
      exact ih hwhole
    · rw [hfind, Option.some_or] at hwhole
      have hsize := hwhole q rfl
      have hid : ListId.large (kMaxLargePages - (k + 1)) ∈ ids :=
        mem_ids_of_mem hfull.core.outside (p := q) (hperm.mem_iff.mpr List.mem_cons_self)
      have hhand := h.exact.take hid hperm hcore (findFirstFit_size hfit)
      rw [extentAt, Nat.add_comm kHeader, hsize, hempty, List.nil_append] at hhand
      refine ⟨true, { s₁ with smallArena := ⟨q, q + kArena⟩ },
        Function.update rep (.large (kMaxLargePages - (k + 1))) l, ?_, ?_⟩
      · simp [arenaFromLists, hfit, hq]
      · have hspare : spare ⟨q, q + kArena⟩ = [(q, kArena)] := by
          rw [spare, if_pos (Nat.lt_add_of_pos_right (by decide))]
          simp
        refine ⟨Exact.congr (s := s₁) ?_ rfl rfl, ?_⟩
        · rw [hspare, hsame.bigHeap]
          exact hhand
        · rw [hsame.bigHeap]
          exact h.top

/-- A new arena leaves no hole: nothing of the old one is left over, and if it is made of a
large page it is as long as that. -/
def ArenaWhole (s : Buddy) : Prop :=
  leftover kMaxSmallPages s.smallArena.room = 0 ∧
    (s.bigHeap.room < kArena →
      ∀ q ∈ s.arenaPage kMaxLargePages, sizeAt s.mem q + kHeader = kArena)

theorem repopulateSmallArena_tiled (hfull : Full s rep live [b]) (h : Tiled s rep live b)
    (hwhole : s.ArenaWhole) :
    ∃ found s' rep', s.repopulateSmallArena = some (found, s') ∧ Tiled s' rep' live b := by
  obtain ⟨hleft, hpage⟩ := hwhole
  obtain ⟨rep₁, arena, s₁, hdivide, hexact, hlarge⟩ := h.exact.divideArena hfull.arena hleft
  obtain ⟨rep₂, arena', s₂, hdivide', hfull₁, -, hsame, hempty⟩ := hfull.divided
  rw [hdivide, Prod.mk.injEq] at hdivide'
  obtain ⟨rfl, rfl⟩ := hdivide'
  have hrep : rep₂ = rep₁ := Core.rep_eq hexact.core (hfull₁.core.congr rfl rfl)
  rw [hrep] at hfull₁
  have hbig : s₁.bigHeap = s.bigHeap := hsame.bigHeap
  have heq := repopulateArena_eq hfull (show 0 < kArena by decide) (by decide) hdivide hbig
  rw [show s.repopulateSmallArena = s.repopulateArena kArena from rfl, heq]
  by_cases hfits : kArena ≤ s.bigHeap.room
  · have hle : s.bigHeap.heap + kArena ≤ s.bigHeap.maxOffset :=
      Nat.add_le_of_le_sub' hfull.big.order hfits
    have hspare : spare ⟨s.bigHeap.heap, s.bigHeap.heap + kArena⟩ = [(s.bigHeap.heap, kArena)] := by
      rw [spare, if_pos (Nat.lt_add_of_pos_right (by decide))]
      simp
    have hhands : Exact s₁ rep₁ live [b] (spare s.bigHeap ++ []) := by
      rw [List.append_nil]
      exact hexact
    have htaken := hhands.takeFront hfull.big (by decide) hle
    rw [List.append_nil] at htaken
    rw [if_pos hfits]
    refine ⟨true, _, rep₁, rfl, ⟨Exact.congr (s := s₁) ?_ rfl rfl, h.top⟩⟩
    rw [hspare]
    exact htaken
  · rw [if_neg hfits]
    have hsame₁ : ({ s₁ with smallArena := arena } : Buddy) =
        { s₁ with smallArena := arena, bigHeap := s.bigHeap } := by rw [← hbig]
    rw [← hsame₁]
    refine arenaFromLists_tiled hfull₁ ⟨Exact.congr (s := s₁) ?_ rfl rfl, ?_⟩ hempty _ ?_
    · rw [hempty, hbig]
      exact hexact
    · rw [hbig]
      exact h.top
    · intro q hq
      have hq' : q ∈ s.arenaPage kMaxLargePages := by
        rw [← arenaPage_congr hfull.core hfull₁.core ⟨hlarge.lists, hlarge.sizes⟩]
        exact hq
      obtain ⟨j, hj⟩ := mem_arenaPage _ hq'
      rw [hfull.core.pagesOf] at hj
      have hsize := hpage (Nat.lt_of_not_le hfits) q hq'
      rw [sizeAt, BuddyPage.getSize] at hsize ⊢
      rw [hlarge.sizes j q hj]
      exact hsize

/-! ### Requests -/

theorem allocateSmall_tiled (hfull : Full s rep live [b]) (h : Tiled s rep live b)
    (hmax : size ≤ kSmallThreshold) {i rounded : Nat}
    (hclass : getSmallPageListIndexForAlloc size = (i, rounded))
    (hpage : ∀ p ∈ (s.pagesOf (.small i)).head?, sizeAt s.mem p = rounded)
    (hwhole : s.pagesOf (.small i) = [] → s.smallArena.room < rounded + kHeader → s.ArenaWhole) :
    ∃ ptr s', s.allocateSmall size = some (ptr, s') ∧ TiledWith s' live b ptr := by
  obtain ⟨j, hindex, -, -, hle⟩ := getSmallPageListIndexForAlloc_spec hmax
  rw [hclass, Prod.mk.injEq] at hindex
  obtain ⟨rfl, rfl⟩ := hindex
  have hpos : 0 < 2 ^ (i + kMinLog2) + kHeader :=
    Nat.lt_of_lt_of_le (by decide) (Nat.le_add_left kHeader _)
  have htotal : 2 ^ (i + kMinLog2) + kHeader < kFreeMask := by
    simp only [kSmallThreshold, kHeader, kFreeMask] at *
    omega
  have hcount := hfull.core.counts (.small i)
  rw [hfull.core.pagesOf] at hpage hwhole
  simp only [allocateSmall, hclass]
  cases hrep : rep (.small i) with
  | cons page l =>
    obtain ⟨s', hlist, htiled⟩ := allocateFromList_tiled h hrep
      (hpage page (by rw [hrep]; rfl))
    rw [hlist]
    exact ⟨_, s', rfl, htiled⟩
  | nil =>
    have hempty : (s.lists (.small i)).size = 0 := by rw [hcount, hrep]; rfl
    rw [allocateFromList_of_nil hempty]
    dsimp only
    obtain ⟨hnone, hsome⟩ := allocate_eq (hfull.arena.no_wrap htotal)
    by_cases harena : 2 ^ (i + kMinLog2) + kHeader ≤ s.smallArena.room
    · have hfits : s.smallArena.heap + (2 ^ (i + kMinLog2) + kHeader) ≤ s.smallArena.maxOffset := by
        unfold Heap.room at harena
        omega
      have hheap : s.smallArena.heap ≠ 0 := hfull.core.heap_pos hfull.start (by omega)
      have htaken := h.exact.takeFront hfull.arena hpos hfits
      rw [hsome harena hpos]
      dsimp only
      rw [if_pos hheap]
      rw [Nat.add_comm _ kHeader] at htaken ⊢
      exact ⟨_, _, rfl, tiledWith_finalize (s := { s with smallArena :=
        { s.smallArena with heap := s.smallArena.heap + (kHeader + 2 ^ (i + kMinLog2)) } })
        (htaken.congr rfl rfl) (by omega) h.top⟩
    · have hlt := Nat.lt_of_not_le harena
      obtain ⟨found, s₁, rep₁, hrepopulate, htiled₁⟩ :=
        repopulateSmallArena_tiled hfull h (hwhole hrep hlt)
      obtain ⟨found', s₂, rep₂, hrepopulate', -, hfull₁⟩ :=
        repopulateArena_spec hfull (show 0 < kArena by decide) (by decide)
      have hframe : s.repopulateSmallArena = some (found', s₂) := hrepopulate'
      rw [hrepopulate, Option.some.injEq, Prod.mk.injEq] at hframe
      obtain ⟨rfl, rfl⟩ := hframe
      rw [Core.rep_eq htiled₁.exact.core hfull₁.core] at hfull₁
      obtain ⟨hlists, -⟩ := repopulateSmallArena_frame hfull hlt hrepopulate
      have hempty₁ : (s₁.lists (.small i)).size = 0 := by rw [hlists, hempty]
      rw [hnone hlt]
      dsimp only
      rw [if_neg (by simp), hrepopulate, Option.bind_eq_bind, Option.bind_some]
      dsimp only
      rw [allocateFromList_of_nil hempty₁]
      dsimp only
      rw [ite_self]
      have hlast := allocateFromHeap_tiled hfull₁ htiled₁ (hfull₁.big.no_wrap htotal)
      generalize s₁.allocateFromHeap _ _ = result at hlast ⊢
      exact ⟨result.1, result.2, rfl, hlast⟩

/-- A page in hand that is cut for a request leaves no hole if the rest is nothing or a page. -/
theorem split_tiled {s₁ : Buddy} {rep₁ : ListId → List Offset} {q : Offset}
    (h : Exact s₁ rep₁ live [b]
      (extentAt s₁.mem q :: (spare s₁.smallArena ++ spare s₁.bigHeap)))
    (htop : s₁.bigHeap.maxOffset = b.stop)
    (hsplit : sizeAt s₁.mem q + kHeader = size + kHeader ∨
      size + kHeader + (kHeader + kMinSize) ≤ sizeAt s₁.mem q + kHeader) :
    ∃ ptr s', (if sizeAt s₁.mem q + kHeader > size + kHeader then
          s₁.addRemainderToFreeList (q + (size + kHeader))
            (sizeAt s₁.mem q + kHeader - (size + kHeader))
        else s₁).finalizeAllocation q size = (ptr, s') ∧ TiledWith s' live b (some ptr) := by
  have hmask : sizeAt s₁.mem q < kFreeMask := Nat.mod_lt _ (by decide)
  have hlt : size < kFreeMask := by omega
  rw [extentAt] at h
  rcases hsplit with heq | hle
  · rw [if_neg (by omega)]
    rw [Nat.add_right_cancel heq] at h
    exact ⟨_, _, rfl, tiledWith_finalize h hlt htop⟩
  · obtain ⟨rest, hrest⟩ := Nat.exists_eq_add_of_le hle
    have hsum : kHeader + sizeAt s₁.mem q = kHeader + size + (kHeader + (kMinSize + rest)) := by
      omega
    have hleft : sizeAt s₁.mem q + kHeader - (size + kHeader) = kHeader + (kMinSize + rest) := by
      omega
    have hrestlt : kMinSize + rest < kFreeMask := by omega
    have hget : (BuddyPage.markFree ⟨none, kMinSize + rest⟩).getSize = kMinSize + rest := by
      rw [getSize_markFree]
      exact getSize_of_lt hrestlt
    obtain ⟨hid, hclass⟩ := listForFree_spec (Nat.le_add_right kMinSize rest)
    rw [hsum] at h
    have hlisted := (h.split.perm (List.Perm.swap _ _ _)).list hid
      (fun _ => BuddyPage.markFree ⟨none, kMinSize + rest⟩) (by rw [hget]) (Nat.le_add_left _ _)
      (fun i heq => by rw [hget]; exact hclass i heq)
    rw [if_pos (by simp only [kHeader, kMinSize] at hle ⊢; omega), hleft, addRemainderToFreeList,
      wrap_remainder hrestlt, Nat.add_comm size kHeader]
    exact ⟨_, _, rfl, tiledWith_finalize (s := s₁.addFreePage _ _ _) hlisted hlt htop⟩

/-- A large page is cut without a hole if the rest is nothing or a page. -/
theorem allocateLargeLoop_tiled (hfull : Full s rep live [b]) (h : Tiled s rep live b)
    (hlt : s.bigHeap.heap + (size + kHeader) < 2 ^ 64) {listIdx : Nat}
    (hsplit : SplitsWell (size + kHeader) s.mem (rep (.large listIdx))) (k : Nat) :
    ∃ ptr s', allocateLargeLoop listIdx size (size + kHeader) k s = some (ptr, s') ∧
      TiledWith s' live b ptr := by
  induction k with
  | zero => exact ⟨_, _, rfl, allocateFromHeap_tiled hfull h hlt⟩
  | succ k ih =>
    rcases findFirstFit_spec hfull.core hfull.start listIdx (size + kHeader) with
      ⟨hfit, -⟩ | ⟨q, s₁, l, hfit, hq, hfind, hsizes, hsame, hcore, hperm⟩
    · rw [allocateLargeLoop, hfit, Option.bind_eq_bind, Option.bind_some]
      exact ih
    · have hid : ListId.large listIdx ∈ ids :=
        mem_ids_of_mem hfull.core.outside (p := q) (hperm.mem_iff.mpr List.mem_cons_self)
      have hhand := h.exact.take hid hperm hcore (findFirstFit_size hfit)
      have hwell := hsplit q hfind
      rw [← hsizes q] at hwell
      rw [extentAt, ← hsizes q, ← hsame.smallArena, ← hsame.bigHeap] at hhand
      obtain ⟨ptr, s', hfinal, htiled⟩ :=
        split_tiled hhand (by rw [hsame.bigHeap]; exact h.top) hwell
      refine ⟨some ptr, s', ?_, htiled⟩
      simp only [sizeAt] at hfinal
      simp only [allocateLargeLoop, hfit, Option.bind_eq_bind, Option.bind_some, ne_eq, hq,
        not_false_eq_true, if_true]
      exact congrArg (fun r => some (some r.1, r.2)) hfinal

/-- A request that leaves no hole: if it is small, the page it takes off its list is as long as
its class, and a new arena it needs is whole. -/
def NoHole (size : Nat) (s : Buddy) : Prop :=
  roundUp size ≤ kSmallThreshold →
    (∀ p ∈ (s.pagesOf (.small (getSmallPageListIndexForAlloc (roundUp size)).1)).head?,
      sizeAt s.mem p = (getSmallPageListIndexForAlloc (roundUp size)).2) ∧
    (s.pagesOf (.small (getSmallPageListIndexForAlloc (roundUp size)).1) = [] →
      s.smallArena.room < (getSmallPageListIndexForAlloc (roundUp size)).2 + kHeader →
        s.ArenaWhole)

instance (s : Buddy) : Decidable s.ArenaWhole :=
  inferInstanceAs (Decidable (_ ∧ (_ → ∀ q ∈ s.arenaPage kMaxLargePages, _ = kArena)))

instance (size : Nat) (s : Buddy) : Decidable (NoHole size s) :=
  inferInstanceAs (Decidable (_ → (∀ p ∈ (s.pagesOf
    (.small (getSmallPageListIndexForAlloc (roundUp size)).1)).head?, _ = _) ∧ (_ → _ → _)))

theorem allocateOffset_tiled (hfull : Full s rep live [b]) (h : Tiled s rep live b)
    (hfine : Fine size s) (hwhole : NoHole size s) :
    ∃ ptr s', s.allocateOffset size = some (ptr, s') ∧ TiledWith s' live b ptr := by
  obtain ⟨-, hsplit⟩ := hfine
  unfold allocateOffset
  by_cases hsmall : roundUp size ≤ kSmallThreshold
  · obtain ⟨hpage, harena⟩ := hwhole hsmall
    simp only [hsmall, if_true]
    exact allocateSmall_tiled hfull h hsmall rfl hpage harena
  · obtain ⟨hlt, hwell⟩ := hsplit (Nat.lt_of_not_le hsmall)
    rw [hfull.core.pagesOf] at hwell
    have hwrap : wrap (roundUp size + kHeader) = roundUp size + kHeader :=
      Nat.mod_eq_of_lt (by omega)
    simp only [hsmall, if_false]
    rw [allocateLarge, hwrap]
    exact allocateLargeLoop_tiled hfull h hlt hwell _

theorem freeOffset_tiled (hfull : Full s rep live [b]) (h : Tiled s rep live b) (hp : p ∈ live) :
    ∃ rep', Tiled (s.freeOffset (p + kHeader)) rep' (live.erase p) b := by
  have hoff : p + kHeader - kHeader = p := Nat.add_sub_cancel p kHeader
  have hget : (BuddyPage.markFree (s.mem p)).getSize = sizeAt s.mem p := getSize_markFree (s.mem p)
  obtain ⟨hid, hclass⟩ := listForFree_spec (hfull.usable p hp)
  have hlisted := (h.exact.release hp).list hid (fun page => { page.markFree with next := none })
    (congrArg (kHeader + ·) hget) (Nat.le_add_left _ _)
    (fun i heq => Nat.le_trans (hclass i heq) (Nat.le_of_eq hget.symm))
  rw [freeOffset, hoff]
  exact ⟨_, hlisted, h.top⟩

/-- After a reallocation the old page is out of use, unless null was returned. -/
theorem reallocateOffset_tiled {newSize : Nat} (hfull : Full s rep live [b])
    (h : Tiled s rep live b) (hp : p ∈ live) (hfine : sizeAt s.mem p < newSize → Fine newSize s)
    (hwhole : sizeAt s.mem p < newSize → NoHole newSize s) :
    ∃ ptr s', s.reallocateOffset (p + kHeader) newSize = some (ptr, s') ∧
      (ptr = none → TiledWith s' live b none) ∧
      ∀ new, ptr = some new → TiledWith s' (live.erase p) b (some new) := by
  have hoff : p + kHeader - kHeader = p := Nat.add_sub_cancel p kHeader
  simp only [reallocateOffset, hoff]
  by_cases hfits : newSize ≤ sizeAt s.mem p
  · refine ⟨some (p + kHeader), s, ?_, fun h => absurd h (Option.some_ne_none _), ?_⟩
    · rw [sizeAt] at hfits
      rw [if_pos hfits]
    · rintro new hnew
      rw [Option.some.injEq] at hnew
      subst hnew
      refine ⟨rep, ?_⟩
      rw [hoff]
      exact h.perm (List.perm_cons_erase hp)
  · have hlt := Nat.lt_of_not_le hfits
    obtain ⟨ptr, s₁, halloc, htiled⟩ := allocateOffset_tiled hfull h (hfine hlt) (hwhole hlt)
    obtain ⟨ptr', s₂, halloc', hkeeps, hgives⟩ := allocateOffset_spec hfull (hfine hlt)
    rw [halloc, Option.some.injEq, Prod.mk.injEq] at halloc'
    obtain ⟨rfl, rfl⟩ := halloc'
    rw [sizeAt] at hfits
    rw [if_neg hfits, halloc]
    rcases hgives with ⟨rfl, -⟩ | ⟨page, rep', rfl, -, hfull'⟩
    · exact ⟨none, s₁, rfl, fun _ => htiled, fun _ h => absurd h.symm (Option.some_ne_none _)⟩
    · obtain ⟨rep₁, htiled⟩ := htiled
      rw [Nat.add_sub_cancel] at htiled
      rw [← Core.rep_eq hfull'.core htiled.exact.core] at hfull'
      have hne : page ≠ p := by
        rintro rfl
        exact (List.nodup_cons.mp hfull'.core.nodup).1 (List.mem_append_left _ hp)
      obtain ⟨rep₂, hfreed⟩ := freeOffset_tiled hfull' htiled (List.mem_cons_of_mem page hp)
      rw [List.erase_cons_tail (by simpa using hne)] at hfreed
      refine ⟨some (page + kHeader), _, rfl, fun h => absurd h (Option.some_ne_none _), ?_⟩
      rintro new hnew
      rw [Option.some.injEq] at hnew
      subst hnew
      exact ⟨rep₂, by rw [Nat.add_sub_cancel]; exact hfreed⟩

end Buddy

/-! ### Runs -/

namespace BuddyUse

open Buddy

variable {u u' : BuddyUse} {op : BuddyOp} {region : Extent}

/-- Steps that leave no hole, in an allocator with one region. -/
def Whole : BuddyOp → BuddyUse → Prop
  | .allocate size, u | .reallocate none size, u => NoHole size u.alloc
  | .reallocate (some ptr) size, u =>
    sizeAt u.alloc.mem (ptr - kHeader) < size → NoHole size u.alloc
  | .free _, _ => True
  | .expand _ _, _ => False

instance : ∀ op u, Decidable (Whole op u)
  | .allocate size, u | .reallocate none size, u =>
    inferInstanceAs (Decidable (NoHole size u.alloc))
  | .reallocate (some _) size, u => inferInstanceAs (Decidable (_ → NoHole size u.alloc))
  | .free _, _ => inferInstanceAs (Decidable True)
  | .expand _ _, _ => inferInstanceAs (Decidable False)

/-- The allocator is in order, and its only region is in pages and heaps. -/
structure OneTiled (region : Extent) (u : BuddyUse) : Prop where
  good : Good u
  regions : u.regions = [region]
  tiled : ∃ rep, Tiled u.alloc rep (u.live.map pageOf) (body region)

theorem OneTiled.full (h : OneTiled region u) : ∃ rep,
    Full u.alloc rep (u.live.map pageOf) [body region] ∧
      Tiled u.alloc rep (u.live.map pageOf) (body region) := by
  obtain ⟨rep, hfull⟩ := h.good.full
  obtain ⟨rep', htiled⟩ := h.tiled
  rw [h.regions] at hfull
  rw [← Core.rep_eq hfull.core htiled.exact.core] at hfull
  exact ⟨rep', hfull, htiled⟩

theorem expand_init {dataOff dataSize : Nat} (hheader : kHeader ≤ dataSize)
    (hbound : dataOff + dataSize ≤ kFreeMask) (mem : Offset → BuddyPage) :
    (Buddy.init mem).expand dataOff dataSize =
      ⟨⟨dataOff + kHeader, dataOff + dataSize⟩, ⟨0, 0⟩, fun _ => ⟨0, none⟩, ⟨1, some dataOff⟩,
        fun o => if o = dataOff then ⟨none, dataSize⟩ else mem o⟩ := by
  have hpos : dataSize ≠ 0 := Nat.ne_of_gt (Nat.lt_of_lt_of_le (by decide) hheader)
  obtain ⟨hstart, hrest, hstop⟩ := expand_bounds hheader hbound
  have hempty : wrap (0 + (2 ^ 64 - 0)) = 0 := by decide
  rw [expand, if_neg hpos]
  simp only [Buddy.init, divideArenaIntoPages, hempty, if_true, hstart, hrest, hstop]

theorem oneTiled_shmInit {dataOff dataSize : Nat} (hheader : kHeader ≤ dataSize)
    (hbound : dataOff + dataSize ≤ kFreeMask) (mem : Offset → BuddyPage) :
    OneTiled (dataOff, dataSize) (shmInit dataOff dataSize mem) := by
  obtain ⟨u₁, hstep, hgood⟩ := step_expand (dataOff, dataSize) (good_init mem) hheader hbound
    (fun _ hr => absurd hr List.not_mem_nil)
  have hexpand := expand_init hheader hbound mem
  have hinit : shmInit dataOff dataSize mem = u₁ := by
    rw [← Option.some.inj hstep]
    simp only [shmInit, init, hexpand]
  rw [← hinit] at hgood
  refine ⟨hgood, rfl, ?_⟩
  obtain ⟨rep, hfull⟩ := hgood.full
  have hcore := hfull.core
  have hnone : ∀ id, rep id = [] := by
    intro id
    have hcount : (rep id).length = 0 := by
      rw [← hcore.counts id, shmInit, hexpand]
    exact List.eq_nil_of_length_eq_zero hcount
  refine ⟨rep, ⟨hcore, ?_, fun p hp => absurd hp List.not_mem_nil, ?_⟩, ?_⟩
  · have hpages : pages rep [] = [] := by
      rw [pages, List.nil_append, List.flatMap_eq_nil_iff]
      exact fun id _ => hnone id
    rw [shmInit, hexpand]
    simp only [List.map_nil, hpages, total, body, Nat.add_zero]
    rw [total_append, total_spare ⟨Nat.le_refl 0, Nat.zero_le _⟩, total_spare ⟨Nat.add_le_add_left hheader _, hbound⟩]
    unfold Heap.room
    dsimp only
    omega
  · intro id p hp
    rw [hnone id] at hp
    exact absurd hp List.not_mem_nil
  · rw [shmInit, hexpand]
    simp only [body, stop]
    omega

theorem step_tiled_allocate {size : Nat} (h : OneTiled region u) (hfine : Fine size u.alloc)
    (hwhole : NoHole size u.alloc) (hstep : step (.allocate size) u = some u') :
    u'.regions = [region] ∧ ∃ rep, Tiled u'.alloc rep (u'.live.map pageOf) (body region) := by
  obtain ⟨rep, hfull, htiled⟩ := h.full
  obtain ⟨ptr, s, halloc, hgives⟩ := allocateOffset_tiled hfull htiled hfine hwhole
  rw [step, halloc, Option.bind_eq_bind, Option.bind_some, Option.some.injEq] at hstep
  rw [← hstep]
  refine ⟨h.regions, ?_⟩
  cases ptr with
  | none => exact hgives
  | some ptr => exact hgives

theorem step_tiled_reallocate {newSize : Nat} {ptr : Offset} (h : OneTiled region u)
    (hptr : ptr ∈ u.live.map Prod.fst)
    (hfine : sizeAt u.alloc.mem (ptr - kHeader) < newSize → Fine newSize u.alloc)
    (hwhole : sizeAt u.alloc.mem (ptr - kHeader) < newSize → NoHole newSize u.alloc)
    (hstep : step (.reallocate (some ptr) newSize) u = some u') :
    u'.regions = [region] ∧ ∃ rep, Tiled u'.alloc rep (u'.live.map pageOf) (body region) := by
  obtain ⟨rep, hfull, htiled⟩ := h.full
  obtain ⟨hheader, hpage⟩ := h.good.page_of_mem hptr
  obtain ⟨new, s, hrealloc, hnone, hsome⟩ :=
    reallocateOffset_tiled hfull htiled hpage hfine hwhole
  rw [Nat.sub_add_cancel hheader] at hrealloc
  rw [step, hrealloc, Option.bind_eq_bind, Option.bind_some] at hstep
  cases new with
  | none =>
    rw [← Option.some.inj hstep]
    exact ⟨h.regions, hnone rfl⟩
  | some new =>
    rw [← Option.some.inj hstep]
    refine ⟨h.regions, ?_⟩
    obtain ⟨rep', htiled'⟩ := hsome new rfl
    rw [← map_pageOf_release h.good.pointers hheader] at htiled'
    exact ⟨rep', htiled'⟩

theorem step_tiled_free {ptr : Offset} (h : OneTiled region u) (hptr : ptr ∈ u.live.map Prod.fst)
    (hstep : step (.free (some ptr)) u = some u') :
    u'.regions = [region] ∧ ∃ rep, Tiled u'.alloc rep (u'.live.map pageOf) (body region) := by
  obtain ⟨rep, hfull, htiled⟩ := h.full
  obtain ⟨hheader, hpage⟩ := h.good.page_of_mem hptr
  obtain ⟨rep', hfreed⟩ := freeOffset_tiled hfull htiled hpage
  rw [Nat.sub_add_cancel hheader, ← map_pageOf_release h.good.pointers hheader] at hfreed
  rw [← Option.some.inj hstep]
  exact ⟨h.regions, rep', hfreed⟩

/-- A step that leaves no hole keeps the region in pages and heaps. -/
theorem step_tiled (h : OneTiled region u) (hlegal : Legal op u) (htame : Tame op u)
    (hwhole : Whole op u) : ∃ u', step op u = some u' ∧ OneTiled region u' := by
  obtain ⟨u', hstep, hgood⟩ := step_good h.good hlegal htame
  have hrest : u'.regions = [region] ∧
      ∃ rep, Tiled u'.alloc rep (u'.live.map pageOf) (body region) := by
    cases op with
    | allocate size => exact step_tiled_allocate h htame hwhole hstep
    | reallocate ptr size =>
      cases ptr with
      | none => exact step_tiled_allocate h htame hwhole hstep
      | some ptr => exact step_tiled_reallocate h hlegal.2 htame hwhole hstep
    | free ptr =>
      cases ptr with
      | none =>
        rw [← Option.some.inj hstep]
        exact ⟨h.regions, h.tiled⟩
      | some ptr => exact step_tiled_free h hlegal hstep
    | expand region regionSize => exact hwhole.elim
  exact ⟨u', hstep, hgood, hrest.1, hrest.2⟩

theorem run_tiled {ops : List BuddyOp}
    (hsteps : Each (fun op u => Legal op u ∧ Tame op u ∧ Whole op u) ops u)
    (h : OneTiled region u) (n : Nat) :
    ∃ u', run (ops.take n) u = some u' ∧ OneTiled region u' :=
  hsteps.invariant (fun h hstep => step_tiled h hstep.1 hstep.2.1 hstep.2.2) h n

end BuddyUse

end Shm
end IowarpCore
