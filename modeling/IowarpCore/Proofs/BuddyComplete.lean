/-
When the buddy allocator returns null.

A request looks for its page at a few places, one after another.  A small one looks at the
list of its class, at the small arena, again at the list after the arena was filled up from
the big heap, and at what the big heap has left then: it does not look at the new arena.  A
large one looks at the list of its class, as often as there are larger classes, and at the
big heap.

So there can be room for a request that is refused, and `Reaches` says when there is room
where the request looks.
-/
import IowarpCore.Proofs.BuddyUse

namespace IowarpCore
namespace Shm

open Extent
open BuddyPage (kHeader kFreeMask)

/-- What is left of a heap. -/
def Heap.room (h : Heap) : Nat := h.maxOffset - h.heap

namespace Buddy

/-- The size of a small arena. -/
def kArena : Nat := kSmallArenaSize + kSmallArenaPages * kHeader

/-- The bytes of a page for the request, rounded as the request is and with the header. -/
def need (size : Nat) : Nat :=
  (if roundUp size ≤ kSmallThreshold then (getSmallPageListIndexForAlloc (roundUp size)).2
    else roundUp size) + kHeader

/-- A free page of any list, the small arena or the big heap has room for so many bytes. -/
def CanHold (s : Buddy) (n : Nat) : Prop :=
  (∃ id ∈ ids, ∃ p ∈ s.pagesOf id, n ≤ sizeAt s.mem p + kHeader) ∨
    n ≤ s.smallArena.room ∨ n ≤ s.bigHeap.room

/-- Null is returned only if nothing has room. -/
def Complete (s : Buddy) (size : Nat) : Prop :=
  ∀ s', s.allocateOffset size = some (none, s') → ¬s.CanHold (need size)

/-- What the big heap has left when a new arena was taken from it, if it has one. -/
def roomBehindArena (s : Buddy) : Nat :=
  if kArena ≤ s.bigHeap.room then s.bigHeap.room - kArena else s.bigHeap.room

/-- There is room where the request looks. -/
def Reaches (s : Buddy) (size : Nat) : Prop :=
  if roundUp size ≤ kSmallThreshold then
    s.pagesOf (.small (getSmallPageListIndexForAlloc (roundUp size)).1) ≠ [] ∨
      need size ≤ s.smallArena.room ∨ need size ≤ s.roomBehindArena
  else
    (∃ p ∈ s.pagesOf (.large (getLargePageListIndexForAlloc (roundUp size))),
      need size ≤ sizeAt s.mem p + kHeader) ∨ need size ≤ s.bigHeap.room

variable {s s' : Buddy} {rep : ListId → List Offset} {live : List Offset} {bodies : List Extent}
  {size total i : Nat}

/-! ### What operations leave of the small lists -/

theorem popAt_small (id : Nat) (prev : OffsetPtr) (curr : Offset) :
    (s.popAt (.large id) prev curr).lists (.small i) = s.lists (.small i) := by
  unfold popAt
  split
  · rfl
  · split <;> rfl

/-- A first fit leaves the state alone, but for the page that it takes off the list. -/
theorem fitLoop_induct {P : Buddy → Prop} {id : ListId} (hs : P s)
    (hpop : ∀ prev curr, P (s.popAt id prev curr)) (required fuel : Nat) :
    ∀ {prev cur : OffsetPtr} {q : Nat}, s.fitLoop id required fuel prev cur = some (q, s') →
      P s' := by
  induction fuel with
  | zero =>
    intro prev cur q h
    cases h
  | succ fuel ih =>
    intro prev cur q h
    cases cur with
    | none =>
      rw [fitLoop, Option.some.injEq, Prod.mk.injEq] at h
      rwa [← h.2]
    | some curr =>
      unfold fitLoop at h
      by_cases hfit : (s.mem curr).getSize + kHeader ≥ required
      · rw [if_pos hfit, Option.some.injEq, Prod.mk.injEq] at h
        rw [← h.2]
        exact hpop prev curr
      · rw [if_neg hfit] at h
        exact ih h

theorem findFirstFit_induct {P : Buddy → Prop} {listIdx required q : Nat} (hs : P s)
    (hpop : ∀ prev curr, P (s.popAt (.large listIdx) prev curr))
    (h : s.findFirstFit listIdx required = some (q, s')) : P s' := by
  unfold findFirstFit at h
  by_cases hzero : (s.lists (.large listIdx)).size = 0
  · rw [if_pos hzero, Option.some.injEq, Prod.mk.injEq] at h
    rwa [← h.2]
  · rw [if_neg hzero] at h
    exact fitLoop_induct hs hpop required _ h

theorem findFirstFit_small {id required q : Nat} (h : s.findFirstFit id required = some (q, s')) :
    s'.lists (.small i) = s.lists (.small i) :=
  findFirstFit_induct (P := fun s' => s'.lists (.small i) = s.lists (.small i)) rfl
    (popAt_small id) h

theorem divideClass_small {j : Nat} (hne : i ≠ j) (n : Nat) :
    ∀ (off : Nat) (s : Buddy), (s.divideClass j n off).lists (.small i) = s.lists (.small i) := by
  induction n with
  | zero =>
    intro off s
    rfl
  | succ n ih =>
    intro off s
    have hlist : ListId.small i ≠ .small j := fun heq => hne (ListId.small.inj heq)
    rw [divideClass, ih]
    simp [addFreePage, emplace, setList, writePage, hlist]

/-- Dividing less than a page of a class makes no page of it. -/
theorem divideLoop_small (k : Nat) :
    ∀ (off remaining : Nat) (s : Buddy), remaining < 2 ^ (i + kMinLog2) + kHeader →
      (s.divideLoop k off remaining).lists (.small i) = s.lists (.small i) := by
  induction k with
  | zero =>
    intro off remaining s _
    rfl
  | succ k ih =>
    intro off remaining s hlt
    unfold divideLoop
    dsimp only
    rw [ih _ _ _ (Nat.lt_of_le_of_lt (Nat.sub_le _ _) hlt)]
    by_cases hik : i = k
    · rw [← hik, Nat.div_eq_of_lt hlt]
      rfl
    · exact divideClass_small hik _ _ _

/-- What `DivideArenaIntoPages` finds is the room that is left. -/
theorem InBounds.remaining {h : Heap} (hbounds : InBounds h) :
    wrap (h.maxOffset + (2 ^ 64 - h.heap)) = h.room := by
  obtain ⟨horder, hbound⟩ := hbounds
  simp only [kFreeMask] at hbound
  have hsum : h.maxOffset + (2 ^ 64 - h.heap) = h.maxOffset - h.heap + 2 ^ 64 := by omega
  rw [wrap, hsum, Nat.add_mod_right, Nat.mod_eq_of_lt (by omega)]
  rfl

theorem divideArenaIntoPages_small {h h' : Heap} (hbounds : InBounds h)
    (hlt : h.room < 2 ^ (i + kMinLog2) + kHeader) (hdivide : s.divideArenaIntoPages h = (h', s')) :
    s'.lists (.small i) = s.lists (.small i) := by
  unfold divideArenaIntoPages at hdivide
  rw [hbounds.remaining] at hdivide
  by_cases hzero : h.room = 0
  · rw [if_pos hzero, Prod.mk.injEq] at hdivide
    rw [← hdivide.2]
  · rw [if_neg hzero, Prod.mk.injEq] at hdivide
    rw [← hdivide.2]
    exact divideLoop_small _ _ _ _ hlt

/-! ### The heap -/

theorem allocate_eq {h : Heap} (hsize : h.heap + total < 2 ^ 64) :
    (h.room < total → h.allocate total = (0, h)) ∧
      (total ≤ h.room → 0 < total → h.allocate total = (h.heap, { h with heap := h.heap + total })) := by
  have hwrap : wrap (h.heap + total) = h.heap + total := Nat.mod_eq_of_lt hsize
  unfold Heap.room
  refine ⟨fun hlt => ?_, fun hle hpos => ?_⟩
  · by_cases hgt : h.heap + total > h.maxOffset
    · simp only [Heap.allocate, hwrap]
      rw [if_pos hgt]
    · omega
  · have hfits : ¬h.heap + total > h.maxOffset := by omega
    simp only [Heap.allocate, hwrap]
    rw [if_neg hfits, if_neg hfits]

/-- The last resort. -/
theorem allocateFromHeap_fst (size : Nat) (h : Full s rep live bodies) (hpos : 0 < total)
    (hsize : s.bigHeap.heap + total < 2 ^ 64) :
    (s.allocateFromHeap size total).1 = none ↔ s.bigHeap.room < total := by
  obtain ⟨hnone, hsome⟩ := allocate_eq hsize
  by_cases hlt : s.bigHeap.room < total
  · rw [allocateFromHeap, hnone hlt]
    exact iff_of_true rfl hlt
  · have hroom : s.bigHeap.heap < s.bigHeap.maxOffset := by
      unfold Heap.room at hlt
      omega
    have hheap : s.bigHeap.heap ≠ 0 :=
      (h.core.perm List.perm_append_comm).heap_pos h.start hroom
    rw [allocateFromHeap, hsome (Nat.le_of_not_lt hlt) hpos]
    dsimp only
    rw [if_pos hheap]
    exact iff_of_false (by simp) hlt

/-! ### Large requests -/

theorem getLargePageListIndexForAlloc_lt (size : Nat) :
    getLargePageListIndexForAlloc size < kMaxLargePages := by
  rw [getLargePageListIndexForAlloc]
  by_cases hsmall : size ≤ kSmallThreshold
  · rw [if_pos hsmall]
    decide
  · rw [if_neg hsmall]
    dsimp only
    by_cases hlow : Nat.log 2 size ≤ kSmallLog2
    · rw [if_pos hlow]
      decide
    · rw [if_neg hlow]
      by_cases hhigh : Nat.log 2 size > kMaxLog2
      · rw [if_pos hhigh]
        decide
      · rw [if_neg hhigh]
        simp only [kSmallLog2, kMaxLog2, kMaxLargePages] at *
        omega

/-- No pass of the loop finds a page where the first one found none. -/
theorem allocateLargeLoop_of_none (h : Full s rep live bodies) {listIdx : Nat}
    (hfind : (rep (.large listIdx)).find? (fun q => total ≤ sizeAt s.mem q + kHeader) = none)
    (k : Nat) :
    allocateLargeLoop listIdx size total k s = some (s.allocateFromHeap size total) := by
  induction k with
  | zero => rfl
  | succ k ih =>
    rcases findFirstFit_spec h.core h.start listIdx total with ⟨hfit, _⟩ | ⟨q, _, _, _, _, hfound, _⟩
    · rw [allocateLargeLoop, hfit, Option.bind_eq_bind, Option.bind_some]
      exact ih
    · rw [hfind] at hfound
      cases hfound

theorem allocateLargeLoop_of_some (h : Full s rep live bodies) {listIdx : Nat} {q : Offset}
    (hfind : (rep (.large listIdx)).find? (fun q => total ≤ sizeAt s.mem q + kHeader) = some q)
    (k : Nat) : allocateLargeLoop listIdx size total (k + 1) s ≠ some (none, s') := by
  rcases findFirstFit_spec h.core h.start listIdx total with ⟨_, hnone⟩ | ⟨q', s₁, _, hfit, hq, _⟩
  · rw [hnone] at hfind
    cases hfind
  · simp [allocateLargeLoop, hfit, hq, finalizeAllocation]

/-- A large request gets null exactly if neither the pages of its list nor the heap have room. -/
theorem allocateLarge_none_iff (h : Full s rep live bodies)
    (hsize : s.bigHeap.heap + (size + kHeader) < 2 ^ 64) :
    (∃ s', s.allocateLarge size = some (none, s')) ↔
      ¬((∃ p ∈ s.pagesOf (.large (getLargePageListIndexForAlloc size)),
        size + kHeader ≤ sizeAt s.mem p + kHeader) ∨ size + kHeader ≤ s.bigHeap.room) := by
  have hwrap : wrap (size + kHeader) = size + kHeader := Nat.mod_eq_of_lt (by omega)
  have hpos : 0 < size + kHeader := Nat.lt_of_lt_of_le (by decide) (Nat.le_add_left kHeader size)
  have hlt := getLargePageListIndexForAlloc_lt size
  rw [allocateLarge, hwrap, h.core.pagesOf]
  cases hfind : (rep (.large (getLargePageListIndexForAlloc size))).find?
      (fun q => size + kHeader ≤ sizeAt s.mem q + kHeader) with
  | none =>
    rw [allocateLargeLoop_of_none h hfind]
    have hnopage : ¬∃ p ∈ rep (.large (getLargePageListIndexForAlloc size)),
        size + kHeader ≤ sizeAt s.mem p + kHeader := by
      rintro ⟨p, hp, hfits⟩
      have := List.find?_eq_none.mp hfind p hp
      simp only [decide_eq_true_eq] at this
      exact this hfits
    have hfst := allocateFromHeap_fst size h hpos hsize
    rw [not_or, Nat.not_le]
    refine ⟨?_, ?_⟩
    · rintro ⟨s', hs'⟩
      rw [Option.some.injEq] at hs'
      exact ⟨hnopage, hfst.mp (by rw [hs'])⟩
    · rintro ⟨_, hroom⟩
      exact ⟨_, congrArg some (Prod.ext (hfst.mpr hroom) rfl)⟩
  | some q =>
    have hq := List.mem_of_find?_eq_some hfind
    have hfits := List.find?_some hfind
    simp only [decide_eq_true_eq] at hfits
    obtain ⟨k, hk⟩ : ∃ k, kMaxLargePages - getLargePageListIndexForAlloc size = k + 1 :=
      ⟨_, (Nat.succ_pred (by omega)).symm⟩
    rw [hk]
    refine iff_of_false ?_ (fun hno => hno (Or.inl ⟨q, hq, hfits⟩))
    rintro ⟨s', hs'⟩
    exact allocateLargeLoop_of_some h hfind k hs'

/-! ### Small requests -/

theorem arenaFromLists_frame {arenaSize : Nat} (k : Nat) (h : Full s rep live bodies) :
    ∀ {found : Bool}, s.arenaFromLists arenaSize k = some (found, s') →
      s'.lists (.small i) = s.lists (.small i) ∧ s'.bigHeap = s.bigHeap := by
  induction k with
  | zero =>
    intro found hlists
    rw [arenaFromLists, Option.some.injEq, Prod.mk.injEq] at hlists
    rw [← hlists.2]
    exact ⟨rfl, rfl⟩
  | succ k ih =>
    intro found hlists
    rcases findFirstFit_spec h.core h.start (kMaxLargePages - (k + 1)) arenaSize with
      ⟨hfit, _⟩ | ⟨q, s₁, _, hfit, hq, _, _, hsame, _⟩
    · rw [arenaFromLists, hfit, Option.bind_eq_bind, Option.bind_some] at hlists
      exact ih hlists
    · rw [arenaFromLists, hfit, Option.bind_eq_bind, Option.bind_some] at hlists
      dsimp only at hlists
      rw [if_pos hq, Option.some.injEq, Prod.mk.injEq] at hlists
      have hsmall : s₁.lists (.small i) = s.lists (.small i) := findFirstFit_small hfit
      rw [← hlists.2]
      exact ⟨hsmall, hsame.bigHeap⟩

/-- `RepopulateSmallArena` cuts the arena from the big heap if that has as much left, and else
searches the large lists. -/
theorem repopulateArena_eq {arenaSize : Nat} (h : Full s rep live bodies) (hpos : 0 < arenaSize)
    (hsize : arenaSize < kFreeMask) {arena : Heap} {s₁ : Buddy}
    (hdivide : s.divideArenaIntoPages s.smallArena = (arena, s₁)) (hbig : s₁.bigHeap = s.bigHeap) :
    s.repopulateArena arenaSize =
      if arenaSize ≤ s.bigHeap.room then
        some (true, { s₁ with
          smallArena := ⟨s.bigHeap.heap, s.bigHeap.heap + arenaSize⟩
          bigHeap := { s.bigHeap with heap := s.bigHeap.heap + arenaSize } })
      else { s₁ with smallArena := arena, bigHeap := s.bigHeap }.arenaFromLists arenaSize
        kMaxLargePages := by
  obtain ⟨hnone, hsome⟩ := allocate_eq (h.big.no_wrap hsize)
  rw [repopulateArena, hdivide]
  dsimp only
  rw [hbig]
  by_cases hfits : arenaSize ≤ s.bigHeap.room
  · have hheap : s.bigHeap.heap ≠ 0 := by
      refine (h.core.perm List.perm_append_comm).heap_pos h.start ?_
      unfold Heap.room at hfits
      omega
    rw [hsome hfits hpos, if_pos hfits]
    dsimp only
    rw [if_pos hheap]
  · rw [hnone (Nat.lt_of_not_le hfits), if_neg hfits]
    dsimp only
    rw [if_neg (by simp)]

/-- Filling up the arena leaves the list of a class alone for which there was too little of
it. -/
theorem repopulateSmallArena_frame (h : Full s rep live bodies)
    (hlt : s.smallArena.room < 2 ^ (i + kMinLog2) + kHeader) {found : Bool}
    (hrepopulate : s.repopulateSmallArena = some (found, s')) :
    s'.lists (.small i) = s.lists (.small i) ∧ s'.bigHeap.room = s.roomBehindArena := by
  obtain ⟨rep₁, arena, s₁, hdivide, hfull₁, _, hsame₁, _⟩ := h.divided
  have hsmall := divideArenaIntoPages_small h.arena hlt hdivide
  have hbig : s₁.bigHeap = s.bigHeap := hsame₁.bigHeap
  have heq := repopulateArena_eq h (show 0 < kArena by decide) (by decide) hdivide hbig
  rw [show s.repopulateArena kArena = some (found, s') from hrepopulate] at heq
  rw [roomBehindArena]
  by_cases hfits : kArena ≤ s.bigHeap.room
  · rw [if_pos hfits, Option.some.injEq, Prod.mk.injEq] at heq
    rw [if_pos hfits, heq.2]
    exact ⟨hsmall, Nat.sub_add_eq _ _ _⟩
  · rw [if_neg hfits] at heq
    have hfull : Full { s₁ with smallArena := arena, bigHeap := s.bigHeap } rep₁ live bodies := by
      rw [← hbig]
      exact hfull₁
    obtain ⟨hlists, hheaps⟩ := arenaFromLists_frame kMaxLargePages hfull heq.symm
    refine ⟨hlists.trans hsmall, ?_⟩
    rw [hheaps, if_neg hfits]

theorem allocateFromList_of_nil (h : (s.lists (.small i)).size = 0) :
    s.allocateFromList i size = (none, s) :=
  if_pos h

/-- A small request gets null exactly if there is no page on its list, too little of the
arena, and too little of the big heap behind a new arena. -/
theorem allocateSmall_none_iff (h : Full s rep live bodies) (hmax : size ≤ kSmallThreshold)
    {rounded : Nat} (hclass : getSmallPageListIndexForAlloc size = (i, rounded)) :
    (∃ s', s.allocateSmall size = some (none, s')) ↔
      ¬(s.pagesOf (.small i) ≠ [] ∨ rounded + kHeader ≤ s.smallArena.room ∨
        rounded + kHeader ≤ s.roomBehindArena) := by
  obtain ⟨j, hindex, hj, _, hle⟩ := getSmallPageListIndexForAlloc_spec hmax
  rw [hclass, Prod.mk.injEq] at hindex
  obtain ⟨rfl, rfl⟩ := hindex
  have hpos : 0 < 2 ^ (i + kMinLog2) + kHeader :=
    Nat.lt_of_lt_of_le (by decide) (Nat.le_add_left kHeader _)
  have htotal : 2 ^ (i + kMinLog2) + kHeader < kFreeMask := by
    simp only [kSmallThreshold, kHeader, kFreeMask] at *
    omega
  have hcount := h.core.counts (.small i)
  rw [h.core.pagesOf]
  simp only [allocateSmall, hclass]
  by_cases hpage : rep (.small i) = []
  · -- Nothing is on the list.
    have hempty : (s.lists (.small i)).size = 0 := by rw [hcount, hpage]; rfl
    rw [allocateFromList_of_nil hempty]
    dsimp only
    obtain ⟨hnone, hsome⟩ := allocate_eq (h.arena.no_wrap htotal)
    by_cases harena : 2 ^ (i + kMinLog2) + kHeader ≤ s.smallArena.room
    · have hheap : s.smallArena.heap ≠ 0 := by
        refine h.core.heap_pos h.start ?_
        unfold Heap.room at harena
        omega
      rw [hsome harena hpos]
      dsimp only
      rw [if_pos hheap]
      refine iff_of_false ?_ (fun hno => hno (Or.inr (Or.inl harena)))
      rintro ⟨s', hs'⟩
      simp [finalizeAllocation] at hs'
    · rw [hnone (Nat.lt_of_not_le harena)]
      dsimp only
      rw [if_neg (by simp)]
      obtain ⟨found, s₁, rep₁, hrepopulate, _, hfull₁⟩ :=
        repopulateArena_spec h (show 0 < kArena by decide) (by decide)
      have hframe : s.repopulateSmallArena = some (found, s₁) := hrepopulate
      obtain ⟨hlists, hroom⟩ := repopulateSmallArena_frame h (Nat.lt_of_not_le harena) hframe
      have hempty₁ : (s₁.lists (.small i)).size = 0 := by rw [hlists, hempty]
      have hfst := allocateFromHeap_fst (2 ^ (i + kMinLog2)) hfull₁ hpos
        (hfull₁.big.no_wrap htotal)
      rw [hframe, Option.bind_eq_bind, Option.bind_some]
      dsimp only
      rw [allocateFromList_of_nil hempty₁]
      dsimp only
      rw [ite_self, not_or, not_or, Nat.not_le, Nat.not_le, ← hroom, ← hfst]
      generalize s₁.allocateFromHeap _ _ = result
      refine ⟨?_, ?_⟩
      · rintro ⟨s', hs'⟩
        rw [Option.some.injEq] at hs'
        exact ⟨fun hne => hne hpage, Nat.lt_of_not_le harena, by rw [hs']⟩
      · rintro ⟨_, _, hfst'⟩
        exact ⟨_, congrArg some (Prod.ext hfst' rfl)⟩
  · refine iff_of_false ?_ (fun hno => hno (Or.inl hpage))
    rintro ⟨s', hs'⟩
    rcases allocateFromList_spec h hj with hnone | ⟨ptr, s₁, hlist, _⟩
    · obtain ⟨page, l, hrep⟩ := List.exists_cons_of_ne_nil hpage
      obtain ⟨s₂, hpop, _⟩ := h.core.pop hrep
      have hne : ¬(s.lists (.small i)).size = 0 := by
        rw [hcount, hrep]
        exact Nat.succ_ne_zero _
      rw [allocateFromList, if_neg hne, hpop] at hnone
      simp [finalizeAllocation] at hnone
    · rw [hlist] at hs'
      simp at hs'

/-! ### Requests -/

/-- What anything can hold is no huge page. -/
theorem CanHold.lt {n : Nat} (h : Full s rep live bodies) (hhold : s.CanHold n) :
    n < kFreeMask := by
  rcases hhold with ⟨id, _, p, hp, hfits⟩ | harena | hbig
  · rw [h.core.pagesOf] at hp
    obtain ⟨b, hb, hstart, hstop⟩ := h.core.carved.inside (extentAt s.mem p)
      (List.mem_append_right _ (List.mem_map_of_mem (mem_pages_of_rep h.core.outside hp)))
    have hpos := h.start b hb
    have hbound := h.bound b hb
    simp only [extentAt, stop] at hstart hstop hbound
    omega
  · by_cases hlt : s.smallArena.heap < s.smallArena.maxOffset
    · have hheap := h.core.heap_pos h.start hlt
      have hbound := h.arena.bound
      unfold Heap.room at harena
      omega
    · unfold Heap.room at harena
      have hpos : 0 < kFreeMask := by decide
      omega
  · by_cases hlt : s.bigHeap.heap < s.bigHeap.maxOffset
    · have hheap := (h.core.perm List.perm_append_comm).heap_pos h.start hlt
      have hbound := h.big.bound
      unfold Heap.room at hbig
      omega
    · unfold Heap.room at hbig
      have hpos : 0 < kFreeMask := by decide
      omega

/-- A request that is not huge gets null exactly if there is no room where it looks. -/
theorem allocateOffset_none_iff (h : Full s rep live bodies) (hneed : need size < kFreeMask) :
    (∃ s', s.allocateOffset size = some (none, s')) ↔ ¬s.Reaches size := by
  have horder := h.big.order
  have hbound := h.big.bound
  unfold need at hneed
  unfold Reaches need allocateOffset
  by_cases hsmall : roundUp size ≤ kSmallThreshold
  · simp only [hsmall, if_true]
    exact allocateSmall_none_iff h hsmall rfl
  · rw [if_neg hsmall] at hneed
    simp only [hsmall, if_false]
    refine allocateLarge_none_iff h ?_
    simp only [kFreeMask] at *
    omega

theorem Reaches.canHold (h : s.Reaches size) (hpage : roundUp size ≤ kSmallThreshold →
    ∀ p ∈ s.pagesOf (.small (getSmallPageListIndexForAlloc (roundUp size)).1),
      need size ≤ sizeAt s.mem p + kHeader) : s.CanHold (need size) := by
  unfold Reaches at h
  by_cases hsmall : roundUp size ≤ kSmallThreshold
  · rw [if_pos hsmall] at h
    rcases h with hne | harena | hbig
    · obtain ⟨p, l, hl⟩ := List.exists_cons_of_ne_nil hne
      have hp : p ∈ s.pagesOf (.small (getSmallPageListIndexForAlloc (roundUp size)).1) := by
        rw [hl]
        exact List.mem_cons_self
      obtain ⟨i, hindex, hi, _⟩ := getSmallPageListIndexForAlloc_spec hsmall
      refine Or.inl ⟨_, ?_, p, hp, hpage hsmall p hp⟩
      rw [hindex]
      exact mem_ids_small.mpr hi
    · exact Or.inr (Or.inl harena)
    · refine Or.inr (Or.inr (Nat.le_trans hbig ?_))
      unfold roomBehindArena
      by_cases hfits : kArena ≤ s.bigHeap.room
      · rw [if_pos hfits]
        exact Nat.sub_le _ _
      · rw [if_neg hfits]
  · rw [if_neg hsmall] at h
    rcases h with ⟨p, hp, hfits⟩ | hbig
    · exact Or.inl ⟨_, mem_ids_large.mpr (getLargePageListIndexForAlloc_lt _), p, hp, hfits⟩
    · exact Or.inr (Or.inr hbig)

/-- The pages of a class are as large as its requests. -/
theorem class_fits (h : Full s rep live bodies) (hsmall : roundUp size ≤ kSmallThreshold) :
    ∀ p ∈ s.pagesOf (.small (getSmallPageListIndexForAlloc (roundUp size)).1),
      need size ≤ sizeAt s.mem p + kHeader := by
  obtain ⟨i, hindex, _⟩ := getSmallPageListIndexForAlloc_spec hsmall
  intro p hp
  rw [hindex, h.core.pagesOf] at hp
  rw [need, if_pos hsmall, hindex]
  exact Nat.add_le_add_right (h.core.classes i p hp) kHeader

/-- Null is returned only if nothing has room exactly if there is room where the request looks,
or nowhere. -/
theorem complete_iff (h : Full s rep live bodies) :
    s.Complete size ↔ s.Reaches size ∨ ¬s.CanHold (need size) := by
  refine ⟨fun hcomplete => ?_, ?_⟩
  · by_cases hhold : s.CanHold (need size)
    · refine Or.inl ?_
      by_contra hreaches
      obtain ⟨s', hnone⟩ := (allocateOffset_none_iff h (hhold.lt h)).mpr hreaches
      exact hcomplete s' hnone hhold
    · exact Or.inr hhold
  · rintro (hreaches | hhold) s' hnone
    · have hlt := (hreaches.canHold (class_fits h)).lt h
      exact absurd hreaches ((allocateOffset_none_iff h hlt).mp ⟨s', hnone⟩)
    · exact hhold

end Buddy

/-! ### Runs -/

namespace BuddyUse

open Buddy

/--
**When null means that there is no room.**  In every state that a run of legal and tame
operations reaches, a request gets null only if neither a free page of any list nor the small
arena nor the big heap has room for it, exactly if one of the places where it looks has room,
or nothing has: for a small request the list of its class, the small arena, and what the big
heap has left when it has given a new arena; for a large one the list of its class and the
big heap.
-/
theorem null_only_without_room_iff {mem : Offset → BuddyPage} {ops : List BuddyOp}
    (hsteps : Each (fun op u => Legal op u ∧ Tame op u) ops (init mem)) (n : Nat) :
    ∃ u, run (ops.take n) (init mem) = some u ∧ ∀ size,
      u.alloc.Complete size ↔ u.alloc.Reaches size ∨ ¬u.alloc.CanHold (need size) := by
  obtain ⟨u, hrun, hgood⟩ := run_good hsteps (good_init mem) n
  obtain ⟨rep, hfull⟩ := hgood.full
  exact ⟨u, hrun, fun size => complete_iff hfull⟩

/-- After a run with a page of each kind, a request of 100 bytes has room where it looks. -/
theorem null_only_without_room_iff_everyKind :
    Each (fun op u => Legal op u ∧ Tame op u) everyKind (init blank) ∧
      ∃ u, run (everyKind.take 10) (init blank) = some u ∧ ∀ size,
        u.alloc.Complete size ↔ u.alloc.Reaches size ∨ ¬u.alloc.CanHold (need size) := by
  have hsteps : Each (fun op u => Legal op u ∧ Tame op u) everyKind (init blank) := by
    decide +kernel
  exact ⟨hsteps, null_only_without_room_iff hsteps 10⟩

/-- A region that holds one arena and little more. -/
def oneArena : List BuddyOp := [.expand 4096 67616]

/-- A region with a free page of 70000 bytes and a rest of less than 10000. -/
def largePageFree : List BuddyOp := [.expand 4096 80000, .allocate 70000, .free (some 4128)]

/-- A first request of 100 bytes gets null though there is an empty arena, and one of 20000
though there is a free page of 70000. -/
theorem refused_with_room :
    (∃ u, Each (fun op u => Legal op u ∧ Tame op u) oneArena (init blank) ∧
      run oneArena (init blank) = some u ∧ ¬u.alloc.Complete 100) ∧
    ∃ u, Each (fun op u => Legal op u ∧ Tame op u) largePageFree (init blank) ∧
      run largePageFree (init blank) = some u ∧ ¬u.alloc.Complete 20000 := by
  have hrefused : ∀ ops size, Each (fun op u => Legal op u ∧ Tame op u) ops (init blank) →
      (∃ u ∈ run ops (init blank), (u.alloc.allocateOffset size).map Prod.fst = some none ∧
        u.alloc.CanHold (need size)) →
      ∃ u, Each (fun op u => Legal op u ∧ Tame op u) ops (init blank) ∧
        run ops (init blank) = some u ∧ ¬u.alloc.Complete size := by
    rintro ops size hsteps ⟨u, hrun, hnone, hhold⟩
    refine ⟨u, hsteps, hrun, fun hcomplete => ?_⟩
    obtain ⟨⟨ptr, s'⟩, halloc, hptr⟩ := Option.map_eq_some_iff.mp hnone
    have hptr : ptr = none := hptr
    rw [hptr] at halloc
    exact hcomplete s' halloc hhold
  refine ⟨hrefused _ _ (by decide +kernel) ⟨_, rfl, by decide +kernel, ?_⟩,
    hrefused _ _ (by decide +kernel) ⟨_, rfl, by decide +kernel, ?_⟩⟩
  · exact Or.inr (Or.inr (by decide +kernel))
  · exact Or.inl ⟨.large 1, by decide, 4112, by decide +kernel, by decide +kernel⟩

end BuddyUse

end Shm
end IowarpCore
