/-
What `ExtendBlob` makes of the space there is.

The loop over the selected targets takes from each what it has, so it could put one
request on several targets.  It never does: placement drops every target without room for
all of the request, so each that is left could hold it alone, and the first that is asked
does.  With exact values of `remaining_space_`, an extension succeeds when one target can
hold all of it (`extendBlob_grown`) and fails when none can (`extendBlob_refused`), however
much space there is together.
-/
import IowarpCore.Proofs.Tasks

namespace IowarpCore
namespace Cte

open Bdev (Request Reply Devices Device Allocator)
open Co

variable {S : Request → Devices → Reply → Devices → Prop} {w w' : World Container Devices}

/-- The space on the targets the persistence filter lets through. -/
def roomAt (level : Int) (c : Container) : Nat :=
  ((atLevel level c.targets.infos).map fun t => t.remainingSpace.toNat).sum

/-- One of these targets has room for all of the request. -/
def HasHost (level : Int) (c : Container) (need : UInt64) : Prop :=
  ∃ t ∈ atLevel level c.targets.infos, need ≤ t.remainingSpace

/-- The devices grant any request up to the `remaining_space_` of their targets. -/
def ExactSpace (S : Request → Devices → Reply → Devices → Prop) (w : World Container Devices) :
    Prop :=
  ∀ t ∈ w.c.targets.infos, ∀ n r d', n ≠ 0 → n ≤ t.remainingSpace →
    S ⟨t.bdevClient, t.targetQuery, .allocateBlocks n⟩ w.d r d' → r.blocks ≠ []

/-- An extension fails for want of space only, and otherwise appends all that is missing. -/
structure UsesAllSpace (w w' : World Container Devices) (ptr : BlobPtr) (info : BlobInfo)
    (offset size : UInt64) (level : Int) (err : UInt32) : Prop where
  refused : err ≠ 0 → roomAt level w.c < offset.toNat + size.toNat - info.getTotalSize.toNat
  grown : err = 0 → ∃ new, w'.c.PointsTo ptr { info with blocks := info.blocks ++ new } ∧
    byteLength new = offset.toNat + size.toNat - info.getTotalSize.toNat

section

variable {cfg : Config} {ptr : BlobPtr} {info : BlobInfo} {offset size : UInt64}
  {blobScore : F32} {level : Int} {err : UInt32}

/-- One target can hold all that is missing, so the first that is asked does. -/
theorem extendBlob_grown (hexact : ExactSpace S w) (hptr : w.c.PointsTo ptr info)
    (hfits : ¬offset + size ≤ info.getTotalSize)
    (hhost : HasHost level w.c (offset + size - info.getTotalSize))
    (h : Runs S (extendBlob cfg ptr offset size blobScore level) w err w') :
    err = 0 ∧ ∃ new, w'.c.PointsTo ptr { info with blocks := info.blocks ++ [new] } ∧
      new.size = offset + size - info.getTotalSize := by
  have hpos := missing_ne_zero hfits
  obtain ⟨ordered, n, hperm, ⟨hnil, _, _⟩ | ⟨hne, left, hloop, herr⟩⟩ :=
    runs_extendBlob_stages hptr hfits h
  · obtain ⟨t, ht, hroom⟩ := hhost
    have hmem := hperm.mem_iff.mpr (mem_atLevel_filter.mpr ⟨ht, by simpa using hroom⟩)
    rw [hnil] at hmem
    simp at hmem
  · obtain ⟨t, rest, hcons⟩ := List.exists_cons_of_ne_nil hne
    subst hcons
    obtain ⟨hmem, hroom⟩ :=
      List.mem_filter.mp (atLevel_subset (hperm.mem_iff.mp List.mem_cons_self))
    have hroom' : offset + size - info.getTotalSize ≤ t.remainingSpace := by simpa using hroom
    obtain ⟨reply, w₂, hserve, _, ⟨hblocks, _⟩ | ⟨b, more, _, hleft, _, hc⟩⟩ :=
      runs_allocateLoop_cons (w := ⟨{ w.c with roundRobinCounter := n }, w.d⟩) hpos
        hptr (infos_find hmem) hroom' hloop
    · exact absurd hblocks (hexact t hmem _ _ _ hpos hroom' hserve)
    · rw [hleft] at herr
      refine ⟨herr, ⟨t.bdevClient, t.targetQuery, b.offset, offset + size - info.getTotalSize⟩, ?_,
        rfl⟩
      rw [hc]
      exact pointsTo_setBlob _ _ _

/-- No target can hold all of it, so none is selected. -/
theorem extendBlob_refused (hptr : w.c.PointsTo ptr info)
    (hfits : ¬offset + size ≤ info.getTotalSize)
    (hhost : ¬HasHost level w.c (offset + size - info.getTotalSize))
    (h : Runs S (extendBlob cfg ptr offset size blobScore level) w err w') : err ≠ 0 := by
  obtain ⟨ordered, n, hperm, ⟨_, herr, _⟩ | ⟨hne, left, _, _⟩⟩ :=
    runs_extendBlob_stages hptr hfits h
  · intro hzero
    rcases herr with herr | herr <;> rw [hzero] at herr <;> exact absurd herr (by decide)
  · obtain ⟨t, rest, hcons⟩ := List.exists_cons_of_ne_nil hne
    subst hcons
    obtain ⟨ht, hroom⟩ := mem_atLevel_filter.mp (hperm.mem_iff.mp List.mem_cons_self)
    exact absurd ⟨t, ht, by simpa using hroom⟩ hhost

/-- An extension that finds room in the blocks the blob has leaves everything as it is. -/
theorem extendBlob_fits (hptr : w.c.PointsTo ptr info) (hfits : offset + size ≤ info.getTotalSize)
    (h : Runs S (extendBlob cfg ptr offset size blobScore level) w err w') :
    err = 0 ∧ w' = w := by
  simp only [extendBlob, bind_eq, pure_eq, runs_bind, runs_deref hptr] at h
  obtain ⟨got, w₀, ⟨hgot, hw₀⟩, h⟩ := h
  subst hgot
  subst hw₀
  rw [if_pos hfits] at h
  exact h

/-- When an extension uses the space there is: the end of the range is a 64-bit number, and
nothing is missing, or one target that passes the filter has room for all of it, or all of
them together have not.  An end that wraps must at least be refused, and rightly so. -/
def SpaceSuffices (level : Int) (c : Container) (info : BlobInfo) (offset size : UInt64) : Prop :=
  if offset.toNat + size.toNat < 2 ^ 64 then
    offset + size ≤ info.getTotalSize ∨
      HasHost level c (offset + size - info.getTotalSize) ∨
      roomAt level c < offset.toNat + size.toNat - info.getTotalSize.toNat
  else
    ¬offset + size ≤ info.getTotalSize ∧
      ¬HasHost level c (offset + size - info.getTotalSize) ∧
      roomAt level c < offset.toNat + size.toNat - info.getTotalSize.toNat

theorem missing_toNat (hfits : ¬offset + size ≤ info.getTotalSize) :
    (offset + size - info.getTotalSize).toNat + info.getTotalSize.toNat =
      (offset.toNat + size.toNat) % 2 ^ 64 := by
  have hle := UInt64.le_of_lt (UInt64.not_le.mp hfits)
  rw [UInt64.toNat_sub_of_le _ _ hle, ← UInt64.toNat_add]
  rw [UInt64.le_iff_toNat_le] at hle
  omega

/-- The blocks that were appended can be read off the blob. -/
theorem appended_unique {new new' : List BlobBlock}
    (h : w'.c.PointsTo ptr { info with blocks := info.blocks ++ new })
    (h' : w'.c.PointsTo ptr { info with blocks := info.blocks ++ new' }) : new = new' := by
  have hsame := h.symm.trans h'
  rw [Option.some.injEq, BlobNode.mk.injEq, BlobInfo.mk.injEq] at hsame
  exact List.append_cancel_left hsame.2.2.1

/-- Of a refused extension only the want of space is asked. -/
theorem usesAllSpace_of_refused (herr : err ≠ 0) :
    UsesAllSpace w w' ptr info offset size level err ↔
      roomAt level w.c < offset.toNat + size.toNat - info.getTotalSize.toNat :=
  ⟨fun h => h.refused herr, fun h => ⟨fun _ => h, fun hzero => absurd hzero herr⟩⟩

/-- **When `ExtendBlob` uses all available space.** -/
theorem usesAllSpace_iff (hexact : ExactSpace S w) (hptr : w.c.PointsTo ptr info)
    (h : Runs S (extendBlob cfg ptr offset size blobScore level) w err w') :
    UsesAllSpace w w' ptr info offset size level err ↔
      SpaceSuffices level w.c info offset size := by
  unfold SpaceSuffices
  have htotal := info.getTotalSize.toNat_lt
  by_cases hfits : offset + size ≤ info.getTotalSize
  · -- Nothing is appended.
    obtain ⟨herr, hw'⟩ := extendBlob_fits hptr hfits h
    subst hw'
    have hkept : w'.c.PointsTo ptr { info with blocks := info.blocks ++ [] } := by
      rw [List.append_nil]
      exact hptr
    have hle := hfits
    rw [UInt64.le_iff_toNat_le, UInt64.toNat_add] at hle
    by_cases hend : offset.toNat + size.toNat < 2 ^ 64
    · rw [if_pos hend]
      refine iff_of_true ⟨fun hne => absurd herr hne, fun _ => ⟨[], hkept, ?_⟩⟩ (Or.inl hfits)
      rw [byteLength_nil]
      omega
    · rw [if_neg hend]
      refine iff_of_false ?_ (fun hsuffices => hsuffices.1 hfits)
      intro huses
      obtain ⟨new, hnew, hlen⟩ := huses.grown herr
      rw [appended_unique hnew hkept, byteLength_nil] at hlen
      omega
  · have hmissing := missing_toNat hfits
    by_cases hhost : HasHost level w.c (offset + size - info.getTotalSize)
    · -- One block of all that is missing is appended.
      obtain ⟨herr, new, hnew, hsize⟩ := extendBlob_grown hexact hptr hfits hhost h
      have hlen : byteLength [new] = (offset + size - info.getTotalSize).toNat := by
        rw [byteLength_cons, byteLength_nil, hsize, Nat.add_zero]
      by_cases hend : offset.toNat + size.toNat < 2 ^ 64
      · rw [if_pos hend]
        refine iff_of_true ⟨fun hne => absurd herr hne, fun _ => ⟨[new], hnew, ?_⟩⟩
          (Or.inr (Or.inl hhost))
        rw [hlen]
        omega
      · rw [if_neg hend]
        refine iff_of_false ?_ (fun hsuffices => hsuffices.2.1 hhost)
        intro huses
        obtain ⟨new', hnew', hlen'⟩ := huses.grown herr
        rw [appended_unique hnew' hnew, hlen] at hlen'
        omega
    · -- Nothing is selected.
      rw [usesAllSpace_of_refused (extendBlob_refused hptr hfits hhost h)]
      by_cases hend : offset.toNat + size.toNat < 2 ^ 64
      · rw [if_pos hend]
        exact ⟨fun hroom => Or.inr (Or.inr hroom), fun hsuffices =>
          (hsuffices.resolve_left hfits).resolve_left hhost⟩
      · rw [if_neg hend]
        exact ⟨fun hroom => ⟨hfits, hhost, hroom⟩, fun hsuffices => hsuffices.2.2⟩

end

/-! ### Two devices of a page each -/

/-- A device of one page, nothing of it handed out. -/
def pageDevice : Device := ⟨.ram, Allocator.init 1 4096 4096, 4096, fun _ => 0⟩

def pageTarget (p : PoolId) : TargetInfo := ⟨p, default, F32.one, 4096, default, .volatile⟩

/-- Two such devices as targets, and a blob that has no blocks yet. -/
def twoPages : World Container Devices :=
  (exec Devices.serve (createNewBlob [1] ⟨1, 1⟩ F32.one) [] []
    ⟨Container.create
      ⟨⟨[(ramPool, pageTarget ramPool), (⟨513, 1⟩, pageTarget ⟨513, 1⟩)], by decide⟩, by decide⟩ 1,
      ⟨⟨[(ramPool, pageDevice), (⟨513, 1⟩, pageDevice)], by decide⟩, fun _ _ => false⟩⟩).2

def emptyBlob : BlobInfo := newBlob [1] F32.one

def emptyPtr : BlobPtr := ⟨compositeKey ⟨1, 1⟩ [1], 0⟩

theorem pointsTo_emptyBlob : twoPages.c.PointsTo emptyPtr emptyBlob := by
  unfold Container.PointsTo
  decide +kernel

/-- The page is granted to any request that fits it, whatever worker serves it. -/
theorem page_grants (worker : Nat) {n : UInt64} (hn : n ≠ 0) (hle : n ≤ 4096) :
    (pageDevice.alloc.allocateBlocks worker n).1.2 = [⟨0, 4096, 0⟩] := by
  have hcategory : Bdev.findBlockTypeForSize n = (some 0, 4096) := by
    simp [Bdev.findBlockTypeForSize, Bdev.kBlockSizes, List.findIdx?_cons, hle]
  have hcached : pageDevice.alloc.maps.allocateBlock worker n = none := by
    unfold Bdev.GlobalBlockMap.allocateBlock
    rw [hcategory]
    by_cases hworker : worker < pageDevice.alloc.maps.length
    · have hzero : worker = 0 := by
        have : pageDevice.alloc.maps.length = 1 := rfl
        omega
      rw [hzero]
      rfl
    · rw [if_neg hworker]
  have hone : pageDevice.alloc.allocateOne worker n =
      (some ⟨0, 4096, 0⟩, { pageDevice.alloc with heap := ⟨4096, 4096, 4096⟩ }) := by
    unfold Allocator.allocateOne
    rw [hcached, hcategory]
    rfl
  have hdivisions : Allocator.ioDivisions n = [n] :=
    Allocator.ioDivisions_small (UInt64.le_trans hle (by decide))
  unfold Allocator.allocateBlocks
  rw [if_neg (by simpa using hn), hdivisions, Allocator.allocateLoop, hone]
  rfl

theorem twoPages_devs (p : PoolId) (h : p = ramPool ∨ p = ⟨513, 1⟩) :
    twoPages.d.devs.find? p = some pageDevice := by
  rcases h with h | h <;> rw [h] <;> rfl

theorem twoPages_infos : twoPages.c.targets.infos = [pageTarget ramPool, pageTarget ⟨513, 1⟩] := rfl

theorem exactSpace_twoPages : ExactSpace ServesAny twoPages := by
  intro t ht n r d' hn hle hserve
  rw [twoPages_infos] at ht
  have hspace : t.remainingSpace = 4096 ∧ (t.bdevClient = ramPool ∨ t.bdevClient = ⟨513, 1⟩) := by
    rcases List.mem_cons.mp ht with ht | ht
    · rw [ht]
      exact ⟨rfl, Or.inl rfl⟩
    · rw [List.mem_singleton.mp ht]
      exact ⟨rfl, Or.inr rfl⟩
  obtain ⟨e, hserve⟩ := hserve
  rcases serve_cases hserve with ⟨hnone, _, _⟩ | ⟨dev, hdev, hr, _, _⟩
  · rw [twoPages_devs _ hspace.2] at hnone
    simp at hnone
  · rw [twoPages_devs _ hspace.2, Option.some.injEq] at hdev
    rw [hspace.1] at hle
    rw [hr, ← hdev]
    show (pageDevice.alloc.allocateBlocks e.worker n).1.2 ≠ []
    rw [page_grants e.worker hn hle]
    simp

theorem usesAllSpace_one_page :
    UsesAllSpace twoPages
      (exec Devices.serve (extendBlob smallConfig emptyPtr 0 4096 F32.one 0) [] [] twoPages).2
      emptyPtr emptyBlob 0 4096 0 0 :=
  (usesAllSpace_iff exactSpace_twoPages pointsTo_emptyBlob
    (runs_exec servesAny_of_check (extendBlob smallConfig emptyPtr 0 4096 F32.one 0) [] [] twoPages
      (by decide +kernel))).mpr (by
    unfold SpaceSuffices
    rw [if_pos (by decide)]
    exact Or.inr (Or.inl ⟨pageTarget ramPool, by rw [twoPages_infos]; decide, by decide⟩))

/-- Two pages of space, and two pages are refused. -/
theorem two_pages_refused :
    ExactSpace ServesAny twoPages ∧ roomAt 0 twoPages.c = 8192 ∧
    Runs ServesAny (extendBlob smallConfig emptyPtr 0 8192 F32.one 0) twoPages 2
      (exec Devices.serve (extendBlob smallConfig emptyPtr 0 8192 F32.one 0) [] [] twoPages).2 ∧
    ¬UsesAllSpace twoPages
      (exec Devices.serve (extendBlob smallConfig emptyPtr 0 8192 F32.one 0) [] [] twoPages).2
      emptyPtr emptyBlob 0 8192 0 2 := by
  have hroom : roomAt 0 twoPages.c = 8192 := by
    rw [roomAt, twoPages_infos]
    decide
  have hrun := runs_exec servesAny_of_check (extendBlob smallConfig emptyPtr 0 8192 F32.one 0) [] []
    twoPages (by decide +kernel)
  have hrc : (exec Devices.serve (extendBlob smallConfig emptyPtr 0 8192 F32.one 0) [] []
    twoPages).1 = 2 := by decide +kernel
  rw [hrc] at hrun
  refine ⟨exactSpace_twoPages, hroom, hrun, ?_⟩
  intro huses
  have hshort := huses.refused (by decide)
  rw [hroom] at hshort
  exact absurd hshort (by decide)

end Cte
end IowarpCore
