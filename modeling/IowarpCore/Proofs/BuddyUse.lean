/-
Runs of the buddy allocator.

`Sound` is what the users of an allocator rely on: the pages they hold, the pages on the free
lists and the rest of the two heaps do not overlap and lie in the regions, and a page is as
large as was asked for.  It holds in every state of a run in which callers keep to the rules
and no request splits a page badly or is so large that a sum wraps around.
-/
import IowarpCore.Proofs.BuddyAllocator

namespace IowarpCore
namespace Shm

open Extent
open Buddy (pages spare body Full Keeps Fine SplitsWell)
open BuddyPage (kHeader kFreeMask)

namespace BuddyUse

variable {u u' : BuddyUse} {op : BuddyOp} {ptr : Offset} {live : List (Offset × Nat)}

/-! ### Soundness -/

/-- The page behind a pointer that was returned. -/
def pageOf (entry : Offset × Nat) : Offset := entry.1 - kHeader

/-- What the memory of an allocator in use is divided into. -/
def extents (u : BuddyUse) : List Extent :=
  (spare u.alloc.smallArena ++ spare u.alloc.bigHeap) ++
    (pages u.alloc.pagesOf (u.live.map pageOf)).map (extentAt u.alloc.mem)

structure Sound (u : BuddyUse) : Prop where
  carved : Carved u.regions u.extents
  served : ∀ entry ∈ u.live, entry.2 ≤ sizeAt u.alloc.mem (pageOf entry)

/-- What callers promise. -/
def Legal : BuddyOp → BuddyUse → Prop
  | .allocate size, _ | .reallocate none size, _ => size < 2 ^ 64
  | .reallocate (some ptr) size, u => size < 2 ^ 64 ∧ ptr ∈ u.live.map Prod.fst
  | .free none, _ => True
  | .free (some ptr), u => ptr ∈ u.live.map Prod.fst
  | .expand region regionSize, u =>
    kHeader ≤ regionSize ∧ region + regionSize ≤ 2 ^ 64 ∧
      ∀ r ∈ u.regions, Apart (region, regionSize) r

/-- The requests the allocator can serve. -/
def Tame : BuddyOp → BuddyUse → Prop
  | .allocate size, u | .reallocate none size, u => Fine size u.alloc
  | .reallocate (some ptr) size, u =>
    sizeAt u.alloc.mem (ptr - kHeader) < size → Fine size u.alloc
  | .free _, _ => True
  | .expand region regionSize, _ => region + regionSize ≤ kFreeMask

/-- A condition on every step of a run. -/
def Each (P : BuddyOp → BuddyUse → Prop) : List BuddyOp → BuddyUse → Prop
  | [], _ => True
  | op :: ops, u =>
    P op u ∧
      match step op u with
      | none => True
      | some u' => Each P ops u'

instance (total : Nat) (mem : Offset → BuddyPage) (l : List Offset) :
    Decidable (SplitsWell total mem l) :=
  inferInstanceAs (Decidable (∀ q ∈ l.find? fun q => total ≤ sizeAt mem q + kHeader,
    sizeAt mem q + kHeader = total ∨ total + (kHeader + kMinSize) ≤ sizeAt mem q + kHeader))

instance (size : Nat) (s : Buddy) : Decidable (Fine size s) :=
  inferInstanceAs (Decidable (_ ∧ (_ → _ ∧ _)))

instance : ∀ op u, Decidable (Legal op u)
  | .allocate _, _ | .reallocate none _, _ => inferInstanceAs (Decidable (_ < _))
  | .reallocate (some _) _, _ => inferInstanceAs (Decidable (_ ∧ _))
  | .free none, _ => inferInstanceAs (Decidable True)
  | .free (some _), _ => inferInstanceAs (Decidable (_ ∈ _))
  | .expand _ _, _ => inferInstanceAs (Decidable (_ ∧ _ ∧ _))

instance : ∀ op u, Decidable (Tame op u)
  | .allocate size, u | .reallocate none size, u => inferInstanceAs (Decidable (Fine size u.alloc))
  | .reallocate (some _) _, _ => inferInstanceAs (Decidable (_ → _))
  | .free _, _ => inferInstanceAs (Decidable True)
  | .expand _ _, _ => inferInstanceAs (Decidable (_ ≤ _))

instance decidableEach {P : BuddyOp → BuddyUse → Prop} [∀ op u, Decidable (P op u)] :
    ∀ ops u, Decidable (Each P ops u)
  | [], _ => inferInstanceAs (Decidable True)
  | op :: ops, u =>
    have : Decidable (match step op u with
        | none => True
        | some u' => Each P ops u') :=
      match step op u with
      | none => inferInstanceAs (Decidable True)
      | some u' => decidableEach ops u'
    inferInstanceAs (Decidable (_ ∧ _))

/-! ### The invariant -/

/-- The allocator is in order, and the pointers and regions are those it knows of. -/
structure Good (u : BuddyUse) : Prop where
  full : ∃ rep, Full u.alloc rep (u.live.map pageOf) (u.regions.map body)
  pointers : ∀ entry ∈ u.live, kHeader ≤ entry.1
  served : ∀ entry ∈ u.live, entry.2 ≤ sizeAt u.alloc.mem (pageOf entry)
  headers : ∀ r ∈ u.regions, kHeader ≤ r.2

theorem good_init (mem : Offset → BuddyPage) : Good (init mem) := by
  refine ⟨⟨fun _ => [], ⟨⟨?_, ?_, ?_, ?_, ?_⟩, ?_, ?_, ?_, ?_, ?_⟩⟩, ?_, ?_, ?_⟩
  · exact fun _ => rfl
  · exact fun _ => rfl
  · exact fun _ _ => rfl
  · refine ⟨?_, ?_⟩
    · exact List.Pairwise.nil
    · exact fun e he => absurd he List.not_mem_nil
  · exact fun _ p hp => absurd hp List.not_mem_nil
  · exact ⟨Nat.le_refl _, Nat.zero_le _⟩
  · exact ⟨Nat.le_refl _, Nat.zero_le _⟩
  · exact fun b hb => absurd hb List.not_mem_nil
  · exact fun b hb => absurd hb List.not_mem_nil
  · exact fun p hp => absurd hp List.not_mem_nil
  · exact fun e he => absurd he List.not_mem_nil
  · exact fun e he => absurd he List.not_mem_nil
  · exact fun r hr => absurd hr List.not_mem_nil

theorem Good.sound (h : Good u) : Sound u := by
  obtain ⟨rep, hfull⟩ := h.full
  have hpages : u.alloc.pagesOf = rep := funext hfull.core.pagesOf
  refine ⟨⟨?_, ?_⟩, h.served⟩
  · rw [extents, hpages]
    exact hfull.core.carved.apart
  · intro e he
    rw [extents, hpages] at he
    obtain ⟨b, hb, hstart, hstop⟩ := hfull.core.carved.inside e he
    obtain ⟨r, hr, rfl⟩ := List.mem_map.mp hb
    have hheader := h.headers r hr
    simp only [body, stop] at hstart hstop
    refine ⟨r, hr, ?_, ?_⟩
    · exact Nat.le_trans (Nat.le_add_right _ _) hstart
    · simp only [stop]
      omega

/-! ### Pointers -/

theorem pageOf_add {entry : Offset × Nat} (h : kHeader ≤ entry.1) :
    pageOf entry + kHeader = entry.1 :=
  Nat.sub_add_cancel h

theorem release_subset : release ptr live ⊆ live := List.eraseP_subset

/-- The page behind a pointer that is given up is out of use. -/
theorem map_pageOf_release (hpointers : ∀ entry ∈ live, kHeader ≤ entry.1) (hptr : kHeader ≤ ptr) :
    (release ptr live).map pageOf = (live.map pageOf).erase (ptr - kHeader) := by
  induction live with
  | nil => rfl
  | cons entry live ih =>
    have hentry := hpointers entry (by simp)
    have hrest := ih fun e he => hpointers e (List.mem_cons_of_mem _ he)
    by_cases heq : entry.1 = ptr
    · simp [release, pageOf, heq]
    · have hne : pageOf entry ≠ ptr - kHeader := by
        intro hpage
        refine heq ?_
        rw [← pageOf_add hentry, hpage]
        exact Nat.sub_add_cancel hptr
      rw [release, List.eraseP_cons_of_neg (by simpa using heq), List.map_cons, List.map_cons,
        List.erase_cons_tail (by simpa using hne)]
      exact congrArg _ hrest

/-- A pointer in use, as a page. -/
theorem Good.page_of_mem (h : Good u) (hptr : ptr ∈ u.live.map Prod.fst) :
    kHeader ≤ ptr ∧ ptr - kHeader ∈ u.live.map pageOf := by
  obtain ⟨entry, hentry, rfl⟩ := List.mem_map.mp hptr
  exact ⟨h.pointers entry hentry, List.mem_map_of_mem hentry⟩

/-- The entries that stay are served as before. -/
theorem Good.still_served {s : Buddy} {entries : List (Offset × Nat)} (h : Good u)
    (hsub : entries ⊆ u.live) (hkeeps : Keeps u.alloc s (entries.map pageOf)) :
    ∀ entry ∈ entries, entry.2 ≤ sizeAt s.mem (pageOf entry) := by
  intro entry hentry
  rw [hkeeps _ (List.mem_map_of_mem hentry)]
  exact h.served entry (hsub hentry)

/-- A pointer is returned for a request, and some of the others are still in use. -/
theorem Good.receive {s : Buddy} {rep : ListId → List Offset} {page : Offset} {size : Nat}
    {entries : List (Offset × Nat)} (h : Good u) (hsub : entries ⊆ u.live)
    (hkeeps : Keeps u.alloc s (entries.map pageOf)) (hsize : size ≤ sizeAt s.mem page)
    (hfull : Full s rep (page :: entries.map pageOf) (u.regions.map body)) :
    Good { u with alloc := s, live := (page + kHeader, size) :: entries } := by
  have hpage : pageOf (page + kHeader, size) = page := Nat.add_sub_cancel page kHeader
  refine ⟨⟨rep, ?_⟩, ?_, ?_, h.headers⟩
  · simp only [List.map_cons, hpage]
    exact hfull
  · intro entry hentry
    rcases List.mem_cons.mp hentry with rfl | hentry
    · exact Nat.le_add_left kHeader page
    · exact h.pointers entry (hsub hentry)
  · intro entry hentry
    rcases List.mem_cons.mp hentry with rfl | hentry
    · rw [hpage]
      exact hsize
    · exact h.still_served hsub hkeeps entry hentry

/-! ### Steps -/

theorem step_allocate {size : Nat} (h : Good u) (hfine : Fine size u.alloc) :
    ∃ u', step (.allocate size) u = some u' ∧ Good u' := by
  obtain ⟨rep, hfull⟩ := h.full
  obtain ⟨ptr, s, halloc, hkeeps, hgives⟩ := Buddy.allocateOffset_spec hfull hfine
  rcases hgives with ⟨rfl, rep', hfull'⟩ | ⟨page, rep', rfl, hsize, hfull'⟩
  · refine ⟨{ u with alloc := s }, by simp [step, halloc, received], ⟨rep', hfull'⟩, h.pointers, ?_,
      h.headers⟩
    exact h.still_served (List.Subset.refl _) hkeeps
  · refine ⟨_, ?_, h.receive (List.Subset.refl _) hkeeps hsize hfull'⟩
    simp [step, halloc, received]

theorem step_reallocate {newSize : Nat} (h : Good u) (hptr : ptr ∈ u.live.map Prod.fst)
    (hfine : sizeAt u.alloc.mem (ptr - kHeader) < newSize → Fine newSize u.alloc) :
    ∃ u', step (.reallocate (some ptr) newSize) u = some u' ∧ Good u' := by
  obtain ⟨rep, hfull⟩ := h.full
  obtain ⟨hheader, hpage⟩ := h.page_of_mem hptr
  have hrelease := map_pageOf_release h.pointers hheader
  have hsum : ptr - kHeader + kHeader = ptr := Nat.sub_add_cancel hheader
  have hspec := Buddy.reallocateOffset_spec hfull hpage hfine
  rw [hsum] at hspec
  rcases hspec with ⟨hfits, hsame⟩ | ⟨s, rep', hnone, hkeeps, hfull'⟩ |
    ⟨new, s, rep', hsome, hsize, hkeeps, hfull'⟩
  · -- The page stays, and comes to the front of the list.
    have hfull' := hfull.perm (List.perm_cons_erase hpage)
    rw [← hrelease] at hfull'
    have hgood := h.receive release_subset (fun _ _ => rfl) hfits hfull'
    rw [hsum] at hgood
    refine ⟨_, ?_, hgood⟩
    simp [step, hsame]
  · refine ⟨{ u with alloc := s }, by simp [step, hnone], ⟨rep', hfull'⟩, h.pointers, ?_,
      h.headers⟩
    exact h.still_served (List.Subset.refl _) hkeeps
  · rw [← hrelease] at hkeeps hfull'
    refine ⟨_, ?_, h.receive release_subset hkeeps hsize hfull'⟩
    simp [step, hsome]

theorem step_free (h : Good u) (hptr : ptr ∈ u.live.map Prod.fst) :
    ∃ u', step (.free (some ptr)) u = some u' ∧ Good u' := by
  obtain ⟨rep, hfull⟩ := h.full
  obtain ⟨hheader, hpage⟩ := h.page_of_mem hptr
  have hrelease := map_pageOf_release h.pointers hheader
  obtain ⟨rep', hfull', hkeeps⟩ := Buddy.freeOffset_spec hfull hpage
  rw [Nat.sub_add_cancel hheader, ← hrelease] at hfull' hkeeps
  refine ⟨_, rfl, ⟨rep', hfull'⟩, ?_, ?_, h.headers⟩
  · exact fun entry hentry => h.pointers entry (release_subset hentry)
  · exact h.still_served release_subset hkeeps

/-- What overlaps no region overlaps nothing behind the header of one. -/
theorem Good.apart_bodies {region : Extent} (h : Good u) (hnew : ∀ r ∈ u.regions, Apart region r) :
    ∀ b ∈ u.regions.map body, Apart region b := by
  intro b hb
  obtain ⟨r, hr, rfl⟩ := List.mem_map.mp hb
  have hsize := h.headers r hr
  refine ((hnew r hr).symm.shrink (Nat.le_add_right r.1 kHeader) ?_).symm
  simp only [body, stop]
  omega

theorem step_expand (region : Extent) (h : Good u) (hheader : kHeader ≤ region.2)
    (hbound : region.stop ≤ kFreeMask) (hnew : ∀ r ∈ u.regions, Apart region r) :
    ∃ u', step (.expand region.1 region.2) u = some u' ∧ Good u' := by
  obtain ⟨rep, hfull⟩ := h.full
  obtain ⟨rep', hfull', hkeeps⟩ :=
    Buddy.expand_spec hfull hheader hbound (h.apart_bodies hnew)
  refine ⟨_, rfl, ⟨rep', hfull'⟩, h.pointers, ?_, ?_⟩
  · exact h.still_served (List.Subset.refl _) hkeeps
  · intro r hr
    rcases List.mem_cons.mp hr with rfl | hr
    · exact hheader
    · exact h.headers r hr

/-- Every step that is legal and tame returns, and keeps the invariant. -/
theorem step_good (h : Good u) (hlegal : Legal op u) (htame : Tame op u) :
    ∃ u', step op u = some u' ∧ Good u' := by
  match op with
  | .allocate size => exact step_allocate h htame
  | .reallocate none size => exact step_allocate h htame
  | .reallocate (some ptr) size => exact step_reallocate h hlegal.2 htame
  | .free none => exact ⟨u, rfl, h⟩
  | .free (some ptr) => exact step_free h hlegal
  | .expand region regionSize =>
    exact step_expand (region, regionSize) h hlegal.1 htame hlegal.2.2

/-! ### Runs -/

/-- What every step that meets a condition preserves, a run of such steps preserves. -/
theorem Each.invariant {P : BuddyOp → BuddyUse → Prop} {I : BuddyUse → Prop} {ops : List BuddyOp}
    (hsteps : Each P ops u)
    (hstep : ∀ {op u}, I u → P op u → ∃ u', step op u = some u' ∧ I u') (h : I u) :
    ∀ n, ∃ u', run (ops.take n) u = some u' ∧ I u' := by
  induction ops generalizing u with
  | nil =>
    intro n
    exact ⟨u, by simp [run], h⟩
  | cons op ops ih =>
    intro n
    cases n with
    | zero => exact ⟨u, rfl, h⟩
    | succ n =>
      obtain ⟨hfirst, hrest⟩ := hsteps
      obtain ⟨u₁, hnext, h₁⟩ := hstep h hfirst
      rw [hnext] at hrest
      obtain ⟨u', hrun, h'⟩ := ih hrest h₁ n
      refine ⟨u', ?_, h'⟩
      rw [List.take_succ_cons, run, hnext]
      exact hrun

theorem run_good {ops : List BuddyOp} (hsteps : Each (fun op u => Legal op u ∧ Tame op u) ops u)
    (h : Good u) (n : Nat) : ∃ u', run (ops.take n) u = some u' ∧ Good u' :=
  hsteps.invariant (fun h hstep => step_good h hstep.1 hstep.2) h n

/-- **What the buddy allocator hands out does not overlap.**  In a run whose requests are
legal and tame, every operation returns, and after each of them the memory is divided into
pages and heaps that are apart and inside the regions, and no page is smaller than was asked
for. -/
theorem sound_of_run {mem : Offset → BuddyPage} {ops : List BuddyOp}
    (hsteps : Each (fun op u => Legal op u ∧ Tame op u) ops (init mem)) (n : Nat) :
    ∃ u, run (ops.take n) (init mem) = some u ∧ Sound u := by
  obtain ⟨u, hrun, hgood⟩ := run_good hsteps (good_init mem) n
  exact ⟨u, hrun, hgood.sound⟩

/-- Memory nothing was written to. -/
def blank : Offset → BuddyPage := fun _ => ⟨none, 0⟩

/-- A run with a page of each kind, a page that is split, and a second region. -/
def everyKind : List BuddyOp :=
  [.expand 4096 65536, .allocate 100, .allocate 20000, .allocate 17000, .free (some 4272),
    .allocate 16392, .reallocate (some 4128) 600, .expand 100000 4096, .free none, .allocate 32]

theorem sound_of_run_everyKind :
    Each (fun op u => Legal op u ∧ Tame op u) everyKind (init blank) ∧
      ∃ u, run (everyKind.take 10) (init blank) = some u ∧ Sound u := by
  have hsteps : Each (fun op u => Legal op u ∧ Tame op u) everyKind (init blank) := by
    decide +kernel
  exact ⟨hsteps, sound_of_run hsteps 10⟩

/-- A large page is freed and taken again for a request that is 8 bytes smaller. -/
def closeFit : List BuddyOp :=
  [.expand 4096 65536, .allocate 16400, .free (some 4128), .allocate 16392]

/-- The 8 bytes that are left over are a free page of almost `2 ^ 63` bytes. -/
theorem closeFit_overlaps : Each Legal closeFit (init blank) ∧
    ∃ u, run closeFit (init blank) = some u ∧ ¬Sound u := by
  refine ⟨by decide +kernel, ?_⟩
  have hreturns : (run closeFit (init blank)).isSome := by decide +kernel
  obtain ⟨u, hrun⟩ := Option.isSome_iff_exists.mp hreturns
  refine ⟨u, hrun, ?_⟩
  intro hsound
  have hoverlap : ∀ u ∈ run closeFit (init blank), ¬u.extents.Pairwise Apart := by decide +kernel
  exact hoverlap u hrun hsound.carved.apart

end BuddyUse

end Shm
end IowarpCore
