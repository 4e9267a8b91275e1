/-
The blocks of all blobs stay apart, as long as every allocation is well served.

`SpaceInv` is the invariant: the engine owns the blocks of all its blobs, no blob is
longer than a 64-bit number can say, and no score is negative.  Every task preserves it
under `ServesWell`, stage by stage, and with it the bytes of every blob it was not for.

It fails without that condition, and the reason is one line of `AllocateFromTarget`: of
the blocks in the reply it keeps the first, and records it with the whole size it asked
for.  `blocks_overlap` runs into this with three puts.
-/
import Mathlib.Data.List.Flatten
import IowarpCore.Proofs.Tasks

namespace IowarpCore
namespace Cte

open Bdev (Request Reply Devices Outcome Allocator)
open Extent (Apart)
open Co

variable {w w' : World Container Devices}

/-! ### The blocks of all blobs -/

def blocksOf (m : AMap Bytes BlobNode) : List BlobBlock :=
  m.entries.flatMap fun e => e.2.info.blocks

def Container.allBlocks (c : Container) : List BlobBlock := blocksOf c.blobs

section

variable {m : AMap Bytes BlobNode} {key : Bytes} {node : BlobNode}

theorem blocksOf_perm_of_find (h : m.find? key = some node) :
    (blocksOf m).Perm (node.info.blocks ++ blocksOf (m.erase key)) :=
  (AMap.entries_perm_of_find h).flatMap_right _

theorem blocksOf_insertOrAssign (m : AMap Bytes BlobNode) (key : Bytes) (node : BlobNode) :
    (blocksOf (m.insertOrAssign key node)).Perm (node.info.blocks ++ blocksOf (m.erase key)) :=
  (AMap.insertOrAssign_perm m key node).flatMap_right _

theorem blocksOf_erase_of_find_none (h : m.find? key = none) :
    blocksOf (m.erase key) = blocksOf m := by
  rw [blocksOf, AMap.erase_entries_of_find_none h]
  rfl

theorem blocksOf_filter_sublist (m : AMap Bytes BlobNode) (p : Bytes → BlobNode → Bool) :
    (blocksOf (m.filter p)).Sublist (blocksOf m) :=
  List.Sublist.flatMap List.filter_sublist _

/-- A block of a blob is one of all blocks. -/
theorem mem_blocksOf (h : m.find? key = some node) {b : BlobBlock} (hb : b ∈ node.info.blocks) :
    b ∈ blocksOf m :=
  List.mem_flatMap.mpr ⟨(key, node), AMap.find?_eq_some_iff.mp h, hb⟩

end

/-! ### The invariant -/

structure SpaceInv (w : World Container Devices) : Prop where
  owns : Owns w.d w.c.allBlocks
  sized : ∀ key node, w.c.blobs.find? key = some node → byteLength node.info.blocks < 2 ^ 64
  scored : ∀ key node, w.c.blobs.find? key = some node → node.info.score.lt F32.zero = false

namespace SpaceInv

variable {c : Container} {d : Devices}

/-- A step that leaves the blobs alone. -/
theorem frame (h : SpaceInv w) (hblobs : c.blobs = w.c.blobs) (howns : Owns d w.c.allBlocks) :
    SpaceInv ⟨c, d⟩ where
  owns := by
    show Owns d (blocksOf c.blobs)
    rw [hblobs]
    exact howns
  sized := by
    rw [hblobs]
    exact h.sized
  scored := by
    rw [hblobs]
    exact h.scored

/-- A step that gives one blob new blocks, which the engine owns besides all others'. -/
theorem assign (h : SpaceInv w) (key : Bytes) (node : BlobNode)
    (hblobs : c.blobs = w.c.blobs.insertOrAssign key node)
    (howns : Owns d (node.info.blocks ++ blocksOf (w.c.blobs.erase key)))
    (hsized : byteLength node.info.blocks < 2 ^ 64)
    (hscored : node.info.score.lt F32.zero = false) : SpaceInv ⟨c, d⟩ where
  owns := by
    show Owns d (blocksOf c.blobs)
    rw [hblobs]
    exact howns.perm (blocksOf_insertOrAssign _ _ _).symm
  sized := by
    intro k n hfind
    rw [hblobs, AMap.find?_insertOrAssign] at hfind
    by_cases hk : k = key
    · rw [if_pos hk, Option.some.injEq] at hfind
      rw [← hfind]
      exact hsized
    · rw [if_neg hk] at hfind
      exact h.sized k n hfind
  scored := by
    intro k n hfind
    rw [hblobs, AMap.find?_insertOrAssign] at hfind
    by_cases hk : k = key
    · rw [if_pos hk, Option.some.injEq] at hfind
      rw [← hfind]
      exact hscored
    · rw [if_neg hk] at hfind
      exact h.scored k n hfind

/-- A step that forgets blobs. -/
theorem filter (h : SpaceInv w) {p : Bytes → BlobNode → Bool}
    (hblobs : c.blobs = w.c.blobs.filter p) (howns : Owns d (blocksOf (w.c.blobs.filter p))) :
    SpaceInv ⟨c, d⟩ := by
  have hold : ∀ key node, c.blobs.find? key = some node → w.c.blobs.find? key = some node := by
    intro key node hfind
    rw [hblobs, AMap.find?_eq_some_iff, AMap.mem_filter] at hfind
    exact AMap.find?_eq_some_iff.mpr hfind.1
  refine ⟨?_, fun k n hfind => h.sized k n (hold k n hfind),
    fun k n hfind => h.scored k n (hold k n hfind)⟩
  show Owns d (blocksOf c.blobs)
  rw [hblobs]
  exact howns

/-- The blocks of a blob and those of all others. -/
theorem split (h : SpaceInv w) {key : Bytes} {node : BlobNode}
    (hfind : w.c.blobs.find? key = some node) :
    Owns w.d (node.info.blocks ++ blocksOf (w.c.blobs.erase key)) :=
  h.owns.perm (blocksOf_perm_of_find hfind)

/-- A blob of the invariant is whole and its blocks are apart. -/
theorem laid (h : SpaceInv w) {key : Bytes} {node : BlobNode}
    (hfind : w.c.blobs.find? key = some node) : Laid node.info.blocks where
  sized := h.sized key node hfind
  bounded _ hb := h.owns.bounded (mem_blocksOf hfind hb)
  disjoint := ((h.split hfind).sublist (List.sublist_append_left _ _)).disjoint

end SpaceInv

/-! ### Puts -/

/-- No put goes by a negative score. -/
theorem scoreFor_nonneg (h : SpaceInv w) (t : PutBlobTask) :
    (t.scoreFor (w.c.blobs.find? t.key)).lt F32.zero = false := by
  unfold PutBlobTask.scoreFor
  by_cases hneg : t.score.lt F32.zero = true
  · rw [if_pos hneg]
    cases hfind : w.c.blobs.find? t.key with
    | none => decide
    | some node => exact h.scored _ _ hfind
  · rw [if_neg hneg]
    simpa using hneg

variable {info : BlobInfo} {old required : UInt64} {ptr : BlobPtr} {t : PutBlobTask}
  {new : BlobBlock} {err rc : UInt32} {data : Nat → UInt8} {s : F32} {cfg : Config}

theorem Prepared.spaceInv (h : SpaceInv w)
    (hprep : Prepared ServesWell t (t.scoreFor (w.c.blobs.find? t.key)) w ptr info old w') :
    SpaceInv w' := by
  have hscore := scoreFor_nonneg h t
  generalize hs : t.scoreFor (w.c.blobs.find? t.key) = s at hprep hscore
  cases hprep with
  | kept _ _ => exact h
  | @cleared node targets worker d hfind hclears _ hfrees =>
    refine h.assign t.key ⟨node.addr, { node.info with blocks := [] }⟩ rfl ?_ (by simp) ?_
    · exact (h.split hfind).freesBlocks hfrees
    · exact h.scored t.key node hfind
  | @created worker hfind =>
    refine h.assign t.key ⟨w.c.nextAddr, newBlob t.blobName s⟩ rfl ?_ (show 0 < 2 ^ 64 by decide) hscore
    rw [blocksOf_erase_of_find_none hfind]
    exact h.owns

/-- The blob after a successful extension: as long as the put needs it, and not shorter. -/
theorem extended_length
    (hsized : byteLength info.blocks < 2 ^ 64) (hnot : ¬required ≤ info.getTotalSize)
    (hnew : new.size = required - info.getTotalSize) :
    byteLength (info.blocks ++ [new]) = required.toNat := by
  have htotal := getTotalSize_toNat hsized
  have hlt := UInt64.not_le.mp hnot
  rw [byteLength_append, byteLength_cons, byteLength_nil, hnew,
    UInt64.toNat_sub_of_le _ _ (UInt64.le_of_lt hlt), htotal]
  rw [UInt64.lt_iff_toNat_lt, htotal] at hlt
  omega

theorem Grants.size {S : Request → Devices → Reply → Devices → Prop} {size : UInt64} {d d' : Devices} (h : Grants S size new d d') : new.size = size := by
  obtain ⟨_, _, _, _, _, _, _, _, _, hnew⟩ := h
  rw [hnew]

/-- A successful extension leaves the blob as it was, or adds one block. -/
theorem Extended.info_cases {S : Request → Devices → Reply → Devices → Prop}
    {info₁ : BlobInfo} (hptr : w.c.PointsTo ptr info)
    (hext : Extended S w ptr info required 0 w') (hptr₁ : w'.c.PointsTo ptr info₁) :
    (required ≤ info.getTotalSize ∧ info₁ = info) ∨ (¬required ≤ info.getTotalSize ∧
      ∃ new, new.size = required - info.getTotalSize ∧
        info₁ = { info with blocks := info.blocks ++ [new] }) := by
  unfold Container.PointsTo at hptr hptr₁
  cases hext with
  | fits hfits =>
    rw [hptr, Option.some.injEq, BlobNode.mk.injEq] at hptr₁
    exact .inl ⟨hfits, hptr₁.2.symm⟩
  | failed _ herr _ => simp at herr
  | @grown n d new hnot hgrants =>
    have hself : (w.c.blobs.insertOrAssign ptr.key
        ⟨ptr.addr, { info with blocks := info.blocks ++ [new] }⟩).find? ptr.key =
          some ⟨ptr.addr, info₁⟩ := hptr₁
    rw [AMap.find?_insertOrAssign_self, Option.some.injEq, BlobNode.mk.injEq] at hself
    exact .inr ⟨hnot, new, hgrants.size, hself.2.symm⟩

/-- A blob that grew owns its new block besides everything it owned. -/
theorem owns_grown {d d' : Devices} {size : UInt64} {bs others : List BlobBlock}
    (howns : Owns d (bs ++ others)) (hgrants : Grants ServesWell size new d d') :
    Owns d' (bs ++ [new] ++ others) := by
  refine (howns.grants hgrants).perm ?_
  rw [List.append_assoc]
  exact List.perm_middle.symm

theorem Extended.spaceInv (h : SpaceInv w) (hptr : w.c.PointsTo ptr info)
    (hext : Extended ServesWell w ptr info required err w') : SpaceInv w' := by
  have hsized : byteLength info.blocks < 2 ^ 64 := h.sized ptr.key _ hptr
  cases hext with
  | fits _ => exact h
  | failed _ _ hfails => exact h.frame rfl (h.owns.allocsFail hfails)
  | @grown n d new hnot hgrants =>
    have hlen := extended_length hsized hnot hgrants.size
    refine h.assign ptr.key ⟨ptr.addr, { info with blocks := info.blocks ++ [new] }⟩ rfl ?_ ?_ ?_
    · exact owns_grown (h.split hptr) hgrants
    · show byteLength (info.blocks ++ [new]) < 2 ^ 64
      rw [hlen]
      exact required.toNat_lt
    · exact h.scored ptr.key ⟨ptr.addr, info⟩ hptr

theorem changeTagTotal_blobs (c : Container) (tagId : TagId) (newSize oldSize : UInt64) :
    (c.changeTagTotal tagId newSize oldSize).blobs = c.blobs := by
  unfold Container.changeTagTotal
  cases c.tagTotal? tagId with
  | none => rfl
  | some total =>
    dsimp only
    by_cases hpos : newSize - oldSize < 0x8000000000000000
    · rw [if_pos hpos]
      rfl
    · rw [if_neg hpos]
      rfl

theorem Stored.spaceInv (h : SpaceInv w) (hptr : w.c.PointsTo ptr info)
    (hscore : s.lt F32.zero = false) (hstored : Stored ServesWell t data s ptr info old w rc w') :
    SpaceInv w' := by
  cases hstored with
  | noSpace _ hext => exact hext.spaceInv h hptr
  | short hext _ _ hwrites =>
    have h₁ := hext.spaceInv h hptr
    exact h₁.frame (logExtend_blobs _ _ _ _) (h₁.owns.writes hwrites)
  | @done info₁ w₁ worker d hext hptr₁ hwrites =>
    have h₁ := hext.spaceInv h hptr
    refine h₁.assign ptr.key ⟨ptr.addr, finishedBlob t s info₁⟩ ?_ ?_ ?_ hscore
    · rw [changeTagTotal_blobs]
      show (w₁.c.logExtend worker t info₁.blocks).blobs.insertOrAssign _ _ = _
      rw [logExtend_blobs]
    · exact (h₁.split hptr₁).writes hwrites
    · exact h₁.sized ptr.key ⟨ptr.addr, info₁⟩ hptr₁

theorem PutOutcome.spaceInv (h : SpaceInv w)
    (hput : PutOutcome ServesWell t w rc w') : SpaceInv w' := by
  cases hput with
  | rejected _ _ => exact h
  | worked _ _ hprep hstored =>
    exact hstored.spaceInv (hprep.spaceInv h) hprep.pointsTo (scoreFor_nonneg h t)

/-! ### The other tasks -/

theorem DelOutcome.spaceInv {tagId : TagId} {blobName : Bytes} (h : SpaceInv w)
    (hdel : DelOutcome ServesWell tagId blobName w rc w') : SpaceInv w' := by
  cases hdel with
  | absent _ => exact h
  | @deleted node targets worker d _ hfind _ hfrees =>
    have hrest := (h.split hfind).freesBlocks hfrees
    have hempty : SpaceInv ⟨{ w.c with targets := targets }.setBlob
        ⟨compositeKey tagId blobName, node.addr⟩ { node.info with blocks := [] }, d⟩ :=
      h.assign (compositeKey tagId blobName) ⟨node.addr, { node.info with blocks := [] }⟩ rfl hrest
        (by simp) (h.scored _ node hfind)
    refine hempty.filter (p := fun k _ => k ≠ compositeKey tagId blobName) rfl ?_
    exact hempty.owns.sublist (blocksOf_filter_sublist _ _)

theorem ReorganizeOutcome.spaceInv {t : ReorganizeBlobTask}
    (h : SpaceInv w) (hre : ReorganizeOutcome ServesWell cfg t w rc w') : SpaceInv w' := by
  cases hre with
  | stopped _ => exact h
  | unread _ _ _ => exact h
  | reput _ hput => exact hput.spaceInv h

theorem byteLength_filter_le (bs : List BlobBlock) (p : BlobBlock → Bool) :
    byteLength (bs.filter p) ≤ byteLength bs := by
  induction bs with
  | nil => simp
  | cons b bs ih =>
    by_cases hb : p b = true
    · rw [List.filter_cons_of_pos hb, byteLength_cons, byteLength_cons]
      omega
    · rw [List.filter_cons_of_neg hb, byteLength_cons]
      omega

theorem FlushFreed.spaceInv {level : Int} {key : Bytes} {node : BlobNode} (h : SpaceInv w)
    (hfind : w.c.blobs.find? key = some node)
    (hfreed : FlushFreed ServesWell level key node w w') : SpaceInv w' := by
  obtain ⟨targets, d, _, hfrees, hw'⟩ := hfreed
  rw [hw']
  refine h.assign key
    ⟨node.addr, { node.info with blocks := node.info.blocks.filter fun b => !w.c.isBelow level b }⟩
    rfl ?_ ?_ (h.scored _ node hfind)
  · -- The blocks below the level were freed; what stays is owned besides the others.
    have hsplit := List.filter_append_perm (w.c.isBelow level) node.info.blocks
    have howns := (h.split hfind).perm (hsplit.symm.append_right _)
    rw [List.append_assoc] at howns
    exact howns.freesBlocks hfrees
  · have hle := byteLength_filter_le node.info.blocks fun b => !w.c.isBelow level b
    have hlt := h.sized _ node hfind
    exact Nat.lt_of_le_of_lt hle hlt

theorem FlushOutcome.spaceInv {level : Int} {entry : FlushEntry} (h : SpaceInv w)
    (hflush : FlushOutcome ServesWell level entry w w') : SpaceInv w' := by
  cases hflush with
  | kept => exact h
  | moved hfind hlevels hfrees hput =>
    exact hput.spaceInv (FlushFreed.spaceInv h hfind ⟨_, _, hlevels, hfrees, rfl⟩)

theorem newTagId_blobs (c : Container) (cfg : Config) (preferredId : TagId) :
    (c.newTagId cfg preferredId).2.blobs = c.blobs := by
  unfold Container.newTagId
  split
  · rfl
  · rfl

theorem CreateTagOutcome.spaceInv {tagName : Bytes} {preferredId id : TagId}
    (h : SpaceInv w) (htag : CreateTagOutcome cfg tagName preferredId w id w') : SpaceInv w' := by
  cases htag with
  | remembered _ _ => exact h.frame rfl h.owns
  | known _ => exact h
  | created _ _ =>
    exact h.frame (newTagId_blobs _ _ _) h.owns

theorem DelTagOutcome.spaceInv {tagId : TagId} {tagName : Bytes} (h : SpaceInv w)
    (hdel : DelTagOutcome ServesWell tagId tagName w rc w') : SpaceInv w' := by
  cases hdel with
  | absent => exact h
  | @deleted id info entries w₁ worker _ _ _ hdels =>
    have h₁ : SpaceInv w₁ := by
      refine hdels.invariant (I := SpaceInv) ?_ h
      rintro blobName _ w w' hw ⟨rc, hdel⟩
      exact hdel.spaceInv hw
    refine h₁.filter (forgetTag_blobs _ _) ?_
    exact h₁.owns.sublist (blocksOf_filter_sublist _ _)

/-- **Every task preserves the invariant**, if its allocations are well served. -/
theorem Ran.spaceInv {t : Task} (h : SpaceInv w) (hran : Ran ServesWell cfg t w w') :
    SpaceInv w' := by
  cases ranAs_of_ran (fun _ _ _ _ hs => ServesWell.any hs) hran with
  | getOrCreateTag htag => exact htag.spaceInv h
  | delTag hdel => exact hdel.spaceInv h
  | putBlob hput => exact hput.spaceInv h
  | getBlob => exact h
  | delBlob hdel => exact hdel.spaceInv h
  | reorganizeBlob hre => exact hre.spaceInv h
  | notFlushed => exact h
  | flushed _ hflushes =>
    refine hflushes.invariant (I := SpaceInv) ?_ h
    intro entry _ w w' hw hflush
    exact hflush.spaceInv hw

/-! ### What a put leaves alone -/

/-- Every other blob has the same blocks, and they hold the same bytes. -/
structure OthersSame (key : Bytes) (w w' : World Container Devices) : Prop where
  blobs : ∀ k, k ≠ key → w'.c.blobs.find? k = w.c.blobs.find? k
  bytes : ∀ k node, k ≠ key → w.c.blobs.find? k = some node → ∀ b ∈ node.info.blocks, ∀ x,
    b.targetOffset.toNat ≤ x → x < b.targetOffset.toNat + b.size.toNat →
    w'.d.byteAt b.bdevClient x = w.d.byteAt b.bdevClient x

namespace OthersSame

variable {key : Bytes} {w'' : World Container Devices}

theorem of_sameBytes (hblobs : ∀ k, k ≠ key → w'.c.blobs.find? k = w.c.blobs.find? k)
    (hbytes : SameBytes w.d w'.d) : OthersSame key w w' :=
  ⟨hblobs, fun _ _ _ _ b _ x _ _ => hbytes b.bdevClient x⟩

theorem refl (key : Bytes) (w : World Container Devices) : OthersSame key w w :=
  of_sameBytes (fun _ _ => rfl) (SameBytes.refl _)

theorem trans (h : OthersSame key w w') (h' : OthersSame key w' w'') : OthersSame key w w'' where
  blobs k hk := (h'.blobs k hk).trans (h.blobs k hk)
  bytes k node hk hfind b hb x hle hlt := by
    have hfind' : w'.c.blobs.find? k = some node := by rw [h.blobs k hk, hfind]
    rw [h'.bytes k node hk hfind' b hb x hle hlt, h.bytes k node hk hfind b hb x hle hlt]

/-- So the other blobs read back as before. -/
theorem contents_eq (h : OthersSame key w w') {k : Bytes} (hk : k ≠ key) :
    contents w' k = contents w k := by
  funext i
  unfold contents Container.blocks?
  rw [h.blobs k hk]
  cases hfind : w.c.blobs.find? k with
  | none => rfl
  | some node =>
    show readAt w'.d.byteAt node.info.blocks i = readAt w.d.byteAt node.info.blocks i
    unfold readAt
    cases hloc : locate node.info.blocks i with
    | none => rfl
    | some x =>
      obtain ⟨b, hb, hpool, hle, hlt⟩ := locate_mem hloc
      rw [Option.map_some, Option.map_some, ← hpool]
      rw [h.bytes k node hk hfind b hb x.2 hle hlt]

end OthersSame

/-! ### The stages of a put and the other blobs -/

theorem Prepared.othersSame (hprep : Prepared ServesWell t s w ptr info old w') : OthersSame t.key w w' := by
  cases hprep with
  | kept _ _ => exact OthersSame.refl _ _
  | cleared _ _ _ hfrees =>
    refine .of_sameBytes ?_ (sameBytes_freesBlocks (fun _ _ _ _ => ServesWell.any) hfrees)
    intro k hk
    exact AMap.find?_insertOrAssign_of_ne _ _ hk
  | created _ =>
    refine .of_sameBytes ?_ (SameBytes.refl _)
    intro k hk
    exact AMap.find?_insertOrAssign_of_ne _ _ hk

theorem Extended.sameBytes
    (hext : Extended ServesWell w ptr info required err w') : SameBytes w.d w'.d := by
  cases hext with
  | fits _ => exact SameBytes.refl _
  | failed _ _ hfails => exact sameBytes_allocsFail (fun _ _ _ _ => ServesWell.any) hfails
  | grown _ hgrants => exact sameBytes_grants (fun _ _ _ _ => ServesWell.any) hgrants

theorem Extended.othersSame
    (hext : Extended ServesWell w ptr info required err w') : OthersSame ptr.key w w' := by
  refine .of_sameBytes ?_ hext.sameBytes
  intro k hk
  cases hext with
  | fits _ => rfl
  | failed _ _ _ => rfl
  | grown _ _ => exact AMap.find?_insertOrAssign_of_ne _ _ hk

/-- The writes of a put stay inside its blob. -/
theorem writes_othersSame {key : Bytes} (node : BlobNode) {c : Container} {d : Devices} (h : SpaceInv w)
    (hend : t.offset.toNat + t.size.toNat < 2 ^ 64) (hfind : w.c.blobs.find? key = some node)
    (hwrites : Writes ServesWell (t.writes data node.info.blocks) err w.d d)
    (hblobs : ∀ k, k ≠ key → c.blobs.find? k = w.c.blobs.find? k) :
    OthersSame key w ⟨c, d⟩ := by
  refine ⟨hblobs, ?_⟩
  intro k other hk hother b hb x hle hlt
  obtain ⟨all, hserve, herr⟩ := hwrites
  have hany : Writes ServesAny (t.writes data node.info.blocks) err w.d d :=
    ⟨all, hserve.mono fun _ _ _ _ hs => ServesWell.any hs, herr⟩
  refine writes_outside hend (h.laid hfind).sized (h.laid hfind).bounded hany ?_
  -- A position of the put's own blob is no position of another blob.
  intro i _ _ hloc
  obtain ⟨own, hown, hpool, hle', hlt'⟩ := locate_mem hloc
  have hmem : b ∈ blocksOf (w.c.blobs.erase key) := by
    have hfound : (w.c.blobs.erase key).find? k = some other := by
      rw [AMap.find?_erase_of_ne _ hk]
      exact hother
    exact mem_blocksOf hfound hb
  have hapart := (List.pairwise_append.mp (h.split hfind).disjoint).2.2 own hown b hmem hpool
  exact hapart.not_mem ⟨hle', hlt'⟩ ⟨hle, hlt⟩

theorem Stored.othersSame (h : SpaceInv w) (hptr : w.c.PointsTo ptr info)
    (hend : t.offset.toNat + t.size.toNat < 2 ^ 64)
    (hstored : Stored ServesWell t data s ptr info old w rc w') : OthersSame ptr.key w w' := by
  cases hstored with
  | noSpace _ hext => exact hext.othersSame
  | @short info₁ w₁ worker err d hext hptr₁ _ hwrites =>
    have h₁ := hext.spaceInv h hptr
    refine hext.othersSame.trans ?_
    refine writes_othersSame ⟨ptr.addr, info₁⟩ h₁ hend hptr₁ hwrites ?_
    intro k _
    rw [logExtend_blobs]
  | @done info₁ w₁ worker d hext hptr₁ hwrites =>
    have h₁ := hext.spaceInv h hptr
    refine hext.othersSame.trans ?_
    refine writes_othersSame ⟨ptr.addr, info₁⟩ h₁ hend hptr₁ hwrites ?_
    intro k hk
    rw [changeTagTotal_blobs]
    show ((w₁.c.logExtend worker t info₁.blocks).blobs.insertOrAssign _ _).find? k = _
    rw [AMap.find?_insertOrAssign_of_ne _ _ hk, logExtend_blobs]

theorem PutOutcome.othersSame (h : SpaceInv w)
    (hend : t.offset.toNat + t.size.toNat < 2 ^ 64) (hput : PutOutcome ServesWell t w rc w') :
    OthersSame t.key w w' := by
  cases hput with
  | rejected _ _ => exact OthersSame.refl _ _
  | worked _ _ hprep hstored =>
    have hrest := hstored.othersSame (hprep.spaceInv h) hprep.pointsTo hend
    rw [hprep.key] at hrest
    exact hprep.othersSame.trans hrest

/-! ### From an empty engine on -/

/-- No blobs, and devices that have handed out nothing. -/
structure Fresh (w : World Container Devices) : Prop where
  blobs : w.c.blobs = AMap.empty
  devices : ∀ p dev, w.d.devs.find? p = some dev →
    ∃ numWorkers fileSize alignment, dev.alloc = Allocator.init numWorkers fileSize alignment

theorem Fresh.spaceInv (h : Fresh w) : SpaceInv w := by
  have hnone : ∀ key node, w.c.blobs.find? key ≠ some node := by
    rw [h.blobs]
    intro key node hfind
    simp [AMap.empty, AMap.find?] at hfind
  have hnil : w.c.allBlocks = [] := by
    rw [Container.allBlocks, h.blobs]
    rfl
  refine ⟨?_, fun key node hfind => absurd hfind (hnone key node),
    fun key node hfind => absurd hfind (hnone key node)⟩
  rw [hnil]
  refine ⟨?_, by simp, by simp⟩
  intro p dev hdev
  obtain ⟨numWorkers, fileSize, alignment, halloc⟩ := h.devices p dev hdev
  rw [halloc]
  exact Allocator.init_inv _ _ _

/-- The blocks of all blobs are apart, and each lies in space that was handed out and not
taken back. -/
structure BlocksOwned (w : World Container Devices) : Prop where
  disjoint : Disjoint w.c.allBlocks
  granted : ∀ b ∈ w.c.allBlocks, ∀ x, b.targetOffset.toNat ≤ x →
    x < b.targetOffset.toNat + b.size.toNat → w.d.granted b.bdevClient x = true

theorem spaceInv_of_along {ts : List Task} (hfresh : Fresh w)
    (hruns : Along (Ran ServesWell cfg) ts w w') : SpaceInv w' := by
  refine hruns.invariant (I := SpaceInv) ?_ hfresh.spaceInv
  intro t _ w w' h hran
  exact hran.spaceInv h

/-- **The blocks of all blobs are owned**, after any sequence of tasks whose allocations
were all well served; and then a put changes the bytes of no other blob. -/
theorem blocks_owned {cfg : Config} {ts : List Task} (hfresh : Fresh w)
    (hruns : Along (Ran ServesWell cfg) ts w w') :
    BlocksOwned w' ∧
    ∀ (t : PutBlobTask) (rc : UInt32) (w'' : World Container Devices),
      t.offset.toNat + t.size.toNat < 2 ^ 64 → Runs ServesWell (putBlob cfg t) w' rc w'' →
      ∀ key, key ≠ t.key → contents w'' key = contents w' key := by
  have h := spaceInv_of_along hfresh hruns
  refine ⟨⟨h.owns.disjoint, h.owns.granted⟩, ?_⟩
  intro t rc w'' hend hput key hkey
  exact ((runs_putBlob hput).othersSame h hend).contents_eq hkey

/-- A check that makes a scripted run well served. -/
def checkServed (e : Outcome) (q : Request) (d : Devices) : Bool :=
  match d.devs.find? q.pool, q.op with
  | some dev, .allocateBlocks size => decide (dev.alloc.WellServed e.worker size)
  | _, _ => true

theorem servesWell_of_check (e : Outcome) (q : Request) (d : Devices)
    (h : checkServed e q d = true) :
    ServesWell q d (Devices.serve e q d).1 (Devices.serve e q d).2 := by
  refine ⟨e, rfl, ?_⟩
  intro dev size hdev hop
  rw [checkServed, hdev, hop] at h
  simpa using h

theorem fresh_smallEngine : Fresh smallEngine := by
  refine ⟨rfl, ?_⟩
  intro p dev hdev
  have hmem := AMap.find?_eq_some_iff.mp hdev
  simp only [smallEngine, smallRam, List.mem_singleton, Prod.mk.injEq] at hmem
  rw [hmem.2]
  exact ⟨_, _, _, rfl⟩

/-- Two blobs of more than a page, one of them put twice. -/
def servedPuts : List Task :=
  [.putBlob (smallPut [1] 0 5000 1), .putBlob (smallPut [2] 0 9000 2),
    .putBlob (smallPut [1] 0 6000 3)]

theorem blocks_owned_servedPuts :
    (runAll smallConfig servedPuts smallEngine).c.allBlocks.length = 2 ∧
    BlocksOwned (runAll smallConfig servedPuts smallEngine) :=
  ⟨by decide +kernel, (blocks_owned fresh_smallEngine
    (along_runAll servesWell_of_check servedPuts (by decide +kernel))).1⟩

/-- A blob of a megabyte and a hundred bytes put twice, and a small one.  The second put
gets a megabyte from the heap and the last hundred bytes from the block it freed itself. -/
def overlappingPuts : List Task :=
  [.putBlob (smallPut [1] 0 1048676 1), .putBlob (smallPut [1] 0 1048676 2),
    .putBlob (smallPut [2] 0 10 3)]

theorem blocks_overlap :
    Fresh smallEngine ∧
    Along (Ran ServesAny smallConfig) overlappingPuts smallEngine
      (runAll smallConfig overlappingPuts smallEngine) ∧
    ¬BlocksOwned (runAll smallConfig overlappingPuts smallEngine) := by
  refine ⟨fresh_smallEngine, ?_, ?_⟩
  · exact along_runAll servesAny_of_check overlappingPuts (by decide +kernel)
  · intro h
    have hblocks : (runAll smallConfig overlappingPuts smallEngine).c.allBlocks =
        [⟨ramPool, default, 1052672, 1048676⟩, ⟨ramPool, default, 2101248, 10⟩] := by
      decide +kernel
    have hdisjoint := h.disjoint
    rw [hblocks] at hdisjoint
    have hapart := (List.pairwise_cons.mp hdisjoint).1 _ (List.mem_singleton.mpr rfl) rfl
    exact absurd hapart (by decide)

end Cte
end IowarpCore
