/-
The other tasks from their start to their end, and sequences of tasks.

A get changes nothing.  A delete that finds its blob frees it and forgets it.
`ReorganizeBlob` and `FlushData` read a blob and put it again, the one as it is, the other
after it freed part of the blob's blocks; both go on only after a complete read, and
their puts are puts like any other.

`Sequence` runs tasks one after another, each to its end.  Claims about every sequence of
tasks are claims about it.
-/
import IowarpCore.Lib.Along
import IowarpCore.Proofs.Transfer
import IowarpCore.Cte.Tasks

namespace IowarpCore
namespace Cte

open Bdev (Request Reply Block Devices Outcome Allocator)
open Co

/-! ### Reading -/

section

variable {δ : Type} {S : Request → δ → Reply → δ → Prop} {w w' : World Container δ}

/-- A get of a blob that exists is a read of its blocks. -/
theorem runs_getBlob_found {t : GetBlobTask} {node : BlobNode} {r : UInt32 × (Nat → UInt8)}
    (hsize : t.size ≠ 0) (hname : t.blobName.isEmpty = false)
    (hfind : w.c.blobs.find? (compositeKey t.tagId t.blobName) = some node) :
    Runs S (getBlob t) w r w' ↔
      Runs S (readData node.info.blocks t.blobData t.size t.offset) w r w' := by
  unfold getBlob
  rw [if_neg hsize, if_neg (by rw [hname]; simp)]
  simp only [bind_eq, pure_eq, runs_bind, runs_checkBlobExists hname]
  refine ⟨?_, ?_⟩
  · rintro ⟨found, w₁, ⟨hfound, hw₁⟩, h⟩
    subst hw₁
    subst hfound
    rw [hfind] at h
    simp only [Option.map_some, runs_bind, runs_deref (pointsTo_of_find hfind)] at h
    obtain ⟨got, w₂, ⟨hgot, hw₂⟩, h⟩ := h
    subst hgot
    subst hw₂
    exact h
  · intro h
    refine ⟨_, w, ⟨rfl, rfl⟩, ?_⟩
    rw [hfind]
    simp only [Option.map_some, runs_bind, runs_deref (pointsTo_of_find hfind)]
    exact ⟨node.info, w, ⟨rfl, rfl⟩, h⟩

/-- A get that is refused at the door: no bytes, no name or no such blob. -/
theorem getBlob_refused {t : GetBlobTask} {r : UInt32 × (Nat → UInt8)}
    (h : t.size = 0 ∨ t.blobName = [] ∨ w.c.blobs.find? (compositeKey t.tagId t.blobName) = none)
    (hrun : Runs S (getBlob t) w r w') : r.1 = 1 ∧ w' = w := by
  unfold getBlob at hrun
  by_cases hsize : t.size = 0
  · rw [if_pos hsize] at hrun
    exact ⟨congrArg Prod.fst hrun.1, hrun.2⟩
  rw [if_neg hsize] at hrun
  by_cases hname : t.blobName.isEmpty = true
  · rw [if_pos hname] at hrun
    exact ⟨congrArg Prod.fst hrun.1, hrun.2⟩
  rw [if_neg hname] at hrun
  have hname' : t.blobName.isEmpty = false := by simpa using hname
  have hnone := (h.resolve_left hsize).resolve_left fun hnil => hname (by rw [hnil]; rfl)
  simp only [bind_eq, pure_eq, runs_bind, runs_checkBlobExists hname'] at hrun
  obtain ⟨found, w₁, ⟨hfound, hw₁⟩, hrun⟩ := hrun
  subst hw₁
  subst hfound
  rw [hnone] at hrun
  exact ⟨congrArg Prod.fst hrun.1, hrun.2⟩

/-- A get is refused, or it reads the blocks of its blob. -/
theorem runs_getBlob_stages {t : GetBlobTask} {r : UInt32 × (Nat → UInt8)}
    (h : Runs S (getBlob t) w r w') : (r.1 = 1 ∧ w' = w) ∨
      ∃ node, w.c.blobs.find? (compositeKey t.tagId t.blobName) = some node ∧
        Runs S (readData node.info.blocks t.blobData t.size t.offset) w r w' := by
  by_cases hrefused : t.size = 0 ∨ t.blobName = [] ∨
      w.c.blobs.find? (compositeKey t.tagId t.blobName) = none
  · exact .inl (getBlob_refused hrefused h)
  · obtain ⟨hsize, hname, hsome⟩ := (not_or.trans (and_congr_right' not_or)).mp hrefused
    obtain ⟨node, hfind⟩ := Option.ne_none_iff_exists'.mp hsome
    exact .inr ⟨node, hfind, (runs_getBlob_found hsize (by simpa using hname) hfind).mp h⟩

end

variable {S : Request → Devices → Reply → Devices → Prop} {w w' : World Container Devices}

/-- A read leaves the devices as they are. -/
theorem serve_read {q : Request} {d d' : Devices} {r : Reply} {block : Block} {length : UInt64}
    (hs : ServesAny q d r d') (hop : q.op = .read block length) : d' = d := by
  obtain ⟨e, hserve⟩ := hs
  unfold Devices.serve at hserve
  cases hdev : d.devs.find? q.pool with
  | none =>
    rw [hdev, Prod.mk.injEq] at hserve
    exact hserve.2.symm
  | some dev =>
    rw [hdev, hop, Prod.mk.injEq] at hserve
    rw [← hserve.2]
    show (⟨d.devs.insertOrAssign q.pool dev, Function.update d.granted q.pool
      (d.granted q.pool)⟩ : Devices) = d
    rw [AMap.insertOrAssign_of_find hdev, Function.update_eq_self]

section

variable (hS : ∀ q d r d', S q d r d' → ServesAny q d r d')

include hS in
theorem runs_readData {blocks : List BlobBlock} {buffer : Nat → UInt8} {size offset : UInt64}
    {r : UInt32 × (Nat → UInt8)} (h : Runs S (readData blocks buffer size offset) w r w') :
    w' = w := by
  simp only [readData, bind_eq, pure_eq, runs_bind, runs_callAll, runs_ret] at h
  obtain ⟨rs, w₁, ⟨all, _, hserve, hc⟩, _, hw'⟩ := h
  have hd : w₁.d = w.d := by
    refine hserve.invariant (I := fun d => d = w.d) ?_ rfl
    intro q hq d r d₁ hd hs
    obtain ⟨p, _, hqp⟩ := List.mem_map.mp hq
    rw [serve_read (hS _ _ _ _ hs) (by rw [← hqp]; rfl), hd]
  obtain ⟨c₁, d₁⟩ := w₁
  simp only at hc hd
  rw [hw', hc, hd]

include hS in
theorem runs_getBlob {t : GetBlobTask} {r : UInt32 × (Nat → UInt8)}
    (h : Runs S (getBlob t) w r w') : w' = w := by
  obtain ⟨-, hw'⟩ | ⟨node, -, hread⟩ := runs_getBlob_stages h
  · exact hw'
  · exact runs_readData hS hread

end

/-- A complete read brings what the device holds. -/
theorem reply_of_read {q : Request} {d d' : Devices} {r : Reply} {block : Block} {length : UInt64}
    (hs : ServesAny q d r d') (hop : q.op = .read block length)
    (hfull : fullTransfer q r = true) :
    r.landed.toNat ≤ length.toNat ∧ (length ≠ 0 → r.landed = length ∧
      ∀ j, r.data j = d.byteAt q.pool (block.offset.toNat + j)) := by
  have hbytes : r.bytes = length := by
    rw [fullTransfer, hop] at hfull
    simpa using hfull
  obtain ⟨e, hserve⟩ := hs
  rcases serve_cases hserve with ⟨_, hr, _⟩ | ⟨dev, hdev, hr, _, _⟩
  · rw [hr] at hbytes ⊢
    exact ⟨Nat.zero_le _, fun hpos => absurd hbytes.symm hpos⟩
  · rw [hr, hop] at hbytes ⊢
    refine ⟨transfer_landed_le _ _ _ _, fun hpos => ⟨transfer_full hpos hbytes, ?_⟩⟩
    intro j
    rw [Devices.byteAt, hdev]
    rfl

/-- The buffer holds `v` at `k` once every reply that covers `k` brings `v` there. -/
theorem fillBuffer_at {k : Nat} {v : UInt8} (xs : List (Piece × Reply)) :
    ∀ {buffer : Nat → UInt8},
      (∀ x ∈ xs, x.1.bufferOffset.toNat ≤ k → k < x.1.bufferOffset.toNat + x.2.landed.toNat →
        x.2.data (k - x.1.bufferOffset.toNat) = v) →
      (buffer k = v ∨ ∃ x ∈ xs, x.1.bufferOffset.toNat ≤ k ∧
        k < x.1.bufferOffset.toNat + x.2.landed.toNat) →
      fillBuffer buffer xs k = v := by
  induction xs with
  | nil =>
    intro buffer _ h
    rcases h with h | ⟨x, hx, _⟩
    · exact h
    · simp at hx
  | cons x xs ih =>
    intro buffer hsame h
    obtain ⟨p, r⟩ := x
    rw [fillBuffer]
    refine ih (fun y hy => hsame y (List.mem_cons_of_mem _ hy)) ?_
    by_cases hcov : p.bufferOffset.toNat ≤ k ∧ k < p.bufferOffset.toNat + r.landed.toNat
    · left
      rw [Bdev.overlay, if_pos hcov]
      exact hsame (p, r) (by simp) hcov.1 hcov.2
    · rcases h with h | ⟨y, hy, hcov'⟩
      · left
        rw [Bdev.overlay, if_neg hcov]
        exact h
      · right
        rcases List.mem_cons.mp hy with hy | hy
        · rw [hy] at hcov'
          exact absurd hcov' hcov
        · exact ⟨y, hy, hcov'⟩

section

variable (hS : ∀ q d r d', S q d r d' → ServesAny q d r d')

include hS

/-- The reads of a batch are all answered from the same devices. -/
theorem served_reads {qs : List Request} {d d' : Devices} {rs : List Reply}
    (h : ServeAll S qs d rs d') (hreads : ∀ q ∈ qs, ∃ block length, q.op = .read block length) :
    ∀ x ∈ qs.zip rs, ServesAny x.1 d x.2 d := by
  induction h with
  | nil d =>
    intro x hx
    simp at hx
  | @pick qs₁ qs₂ q rs₁ rs₂ r d d₁ d₂ hserve hlen hrest ih =>
    obtain ⟨block, length, hop⟩ := hreads q (by simp)
    have hd₁ : d₁ = d := serve_read (hS _ _ _ _ hserve) hop
    have hmem : ∀ q', q' ∈ qs₁ ++ qs₂ → q' ∈ qs₁ ++ q :: qs₂ := by
      intro q' hq'
      rcases List.mem_append.mp hq' with hq' | hq'
      · exact List.mem_append_left _ hq'
      · exact List.mem_append_right _ (List.mem_cons_of_mem _ hq')
    have hothers := ih fun q' hq' => hreads q' (hmem q' hq')
    rw [hd₁] at hserve hothers
    rw [List.zip_append hlen.symm] at hothers
    intro x hx
    rw [List.zip_append hlen.symm, List.zip_cons_cons] at hx
    rcases List.mem_append.mp hx with hx | hx
    · exact hothers x (List.mem_append_left _ hx)
    · rcases List.mem_cons.mp hx with hx | hx
      · rw [hx]
        exact hS _ _ _ _ hserve
      · exact hothers x (List.mem_append_right _ hx)

/-- When the read is complete, the buffer holds the bytes of the blob. -/
theorem readData_reads {blocks : List BlobBlock} {buffer buffer' : Nat → UInt8}
    {size offset : UInt64} (hend : offset.toNat + size.toNat < 2 ^ 64)
    (hsized : byteLength blocks < 2 ^ 64)
    (hbounded : ∀ b ∈ blocks, b.targetOffset.toNat + b.size.toNat < 2 ^ 64)
    (h : Runs S (readData blocks buffer size offset) w (0, buffer') w') {k : Nat}
    (hk : k < size.toNat) (hin : offset.toNat + k < byteLength blocks) :
    readAt w.d.byteAt blocks (offset.toNat + k) = some (buffer' k) := by
  simp only [readData, bind_eq, pure_eq, runs_bind, runs_callAll, runs_ret, Prod.mk.injEq] at h
  obtain ⟨rs, w₁, ⟨all, hrs, hserve, _⟩, ⟨herr, hbuffer⟩, _⟩ := h
  have hsound := (plan_spec hend hsized).1
  obtain ⟨p, hp, hle, hlt⟩ := plan_covers hend hsized hk hin
  generalize ioPlan size offset blocks size 0 = pieces at *
  subst hrs
  have hfull := full_of_transferError herr.symm
  rw [awaited_of_all hserve.length hfull] at hbuffer
  have hserved := served_reads hS hserve (by
    intro q hq
    obtain ⟨p, _, hqp⟩ := List.mem_map.mp hq
    exact ⟨p.devBlock, p.size, by rw [← hqp]; rfl⟩)
  rw [List.zip_map_left] at hfull hserved
  -- What each piece brings, for the bytes it covers.
  have hbrings : ∀ x ∈ pieces.zip all, x.2.landed.toNat ≤ x.1.size.toNat ∧
      (x.1.size ≠ 0 → x.2.landed = x.1.size ∧
        ∀ j, x.2.data j = w.d.byteAt x.1.block.bdevClient (x.1.devBlock.offset.toNat + j)) := by
    intro x hx
    have hmem : (x.1.readRequest, x.2) ∈ (pieces.zip all).map (Prod.map Piece.readRequest id) :=
      List.mem_map.mpr ⟨x, hx, rfl⟩
    exact reply_of_read (hserved _ hmem) rfl (hfull _ hmem)
  obtain ⟨⟨pool, a⟩, hloc⟩ := Option.isSome_iff_exists.mp (locate_isSome.mpr hin)
  rw [readAt, hloc, Option.map_some, hbuffer, Option.some.injEq]
  symm
  refine fillBuffer_at _ ?_ (Or.inr ?_)
  · intro x hx hle hlt
    obtain ⟨hlanded, hdata⟩ := hbrings x hx
    have hpos : x.1.size ≠ 0 := by
      intro hzero
      rw [hzero, UInt64.toNat_zero] at hlanded
      omega
    have hexact := hsound x.1 (List.of_mem_zip hx).1
    have hoffset := hexact.devBlock_offset hbounded
    have hlocated := hexact.located (k - x.1.bufferOffset.toNat) (by omega)
    have hidx : offset.toNat + x.1.bufferOffset.toNat + (k - x.1.bufferOffset.toNat) - 0 =
        offset.toNat + k := by omega
    rw [hidx, hloc, Option.some.injEq, Prod.mk.injEq] at hlocated
    rw [(hdata hpos).2, hoffset, hlocated.1, hlocated.2]
  · obtain ⟨i, hi, hpi⟩ := List.mem_iff_getElem.mp hp
    have hlen : all.length = pieces.length := by
      have := hserve.length
      rwa [List.length_map] at this
    have hmem : (p, all[i]) ∈ pieces.zip all := by
      rw [List.mem_iff_getElem]
      refine ⟨i, by rw [List.length_zip]; omega, ?_⟩
      rw [List.getElem_zip, hpi]
    obtain ⟨_, hdata⟩ := hbrings _ hmem
    have hpos : p.size ≠ 0 := by
      intro hzero
      rw [hzero, UInt64.toNat_zero] at hlt
      omega
    refine ⟨_, hmem, by dsimp only; omega, ?_⟩
    rw [(hdata hpos).1]
    dsimp only
    omega

/-- **A get that succeeds returns the contents of the blob.** -/
theorem getBlob_reads {t : GetBlobTask} {node : BlobNode} {buffer : Nat → UInt8}
    (hfind : w.c.blobs.find? (compositeKey t.tagId t.blobName) = some node)
    (hlaid : Laid node.info.blocks) (hend : t.offset.toNat + t.size.toNat < 2 ^ 64)
    (h : Runs S (getBlob t) w (0, buffer) w') {k : Nat} (hk : k < t.size.toNat)
    (hin : t.offset.toNat + k < byteLength node.info.blocks) :
    contents w (compositeKey t.tagId t.blobName) (t.offset.toNat + k) = some (buffer k) := by
  obtain ⟨hrefused, -⟩ | ⟨node', hfind', hread⟩ := runs_getBlob_stages h
  · exact absurd hrefused (by simp)
  · obtain rfl := Option.some.inj (hfind.symm.trans hfind')
    rw [contents, Container.blocks?, hfind]
    exact readData_reads hS hend hlaid.sized hlaid.bounded hread hk hin

end

/-! ### Deleting -/

def delTxn (tagId : TagId) (blobName : Bytes) : Wal.Txn :=
  .delBlob ⟨tagId.major, tagId.minor, blobName⟩

/-- The container with the blob gone and its size off the total of its tag. -/
def Container.dropBlob (c : Container) (tagId : TagId) (blobName : Bytes) (blobSize : UInt64) :
    Container :=
  { c.dropFromTagTotal tagId blobSize with blobs := c.blobs.erase (compositeKey tagId blobName) }

theorem dropFromTagTotal_blobs (c : Container) (tagId : TagId) (blobSize : UInt64) :
    (c.dropFromTagTotal tagId blobSize).blobs = c.blobs := by
  unfold Container.dropFromTagTotal
  cases c.tagTotal? tagId with
  | none => rfl
  | some total => rfl

/-- The ways a delete can end. -/
inductive DelOutcome (S : Request → Devices → Reply → Devices → Prop) (tagId : TagId)
    (blobName : Bytes) (w : World Container Devices) : UInt32 → World Container Devices → Prop
  | absent : blobName.isEmpty = true ∨ w.c.blobs.find? (compositeKey tagId blobName) = none →
      DelOutcome S tagId blobName w 1 w
  | deleted {node : BlobNode} {targets : Targets} {worker : Nat} {d : Devices} :
      blobName.isEmpty = false → w.c.blobs.find? (compositeKey tagId blobName) = some node →
      SameLevels w.c.targets targets → FreesBlocks S node.info.blocks w.d d →
      DelOutcome S tagId blobName w 0
        ⟨(({ w.c with targets := targets }.setBlob ⟨compositeKey tagId blobName, node.addr⟩
          { node.info with blocks := [] }).dropBlob tagId blobName
            node.info.getTotalSize).logBlob worker (delTxn tagId blobName), d⟩

variable {rc : UInt32} {tagId : TagId} {cfg : Config} {level : Int}

/-- A delete finds nothing, or it frees the blocks of the blob and drops it. -/
theorem runs_delBlob_stages {blobName : Bytes} (h : Runs S (delBlob tagId blobName) w rc w') :
    ((blobName.isEmpty = true ∨ w.c.blobs.find? (compositeKey tagId blobName) = none) ∧
      rc = 1 ∧ w' = w) ∨
    ∃ node w₁ worker, blobName.isEmpty = false ∧
      w.c.blobs.find? (compositeKey tagId blobName) = some node ∧ rc = 0 ∧
      Runs S (freeAllBlobBlocks ⟨compositeKey tagId blobName, node.addr⟩) w 0 w₁ ∧
      w' = ⟨(w₁.c.dropBlob tagId blobName node.info.getTotalSize).logBlob worker
        (delTxn tagId blobName), w₁.d⟩ := by
  unfold delBlob at h
  by_cases hname : blobName.isEmpty = true
  · rw [if_pos hname] at h
    exact Or.inl ⟨Or.inl hname, h.1, h.2⟩
  rw [if_neg hname] at h
  have hname' : blobName.isEmpty = false := by simpa using hname
  simp only [bind_eq, pure_eq, runs_bind, runs_checkBlobExists hname'] at h
  obtain ⟨found, w₁, ⟨hfound, hw₁⟩, h⟩ := h
  subst hw₁
  subst hfound
  cases hfind : w₁.c.blobs.find? (compositeKey tagId blobName) with
  | none =>
    rw [hfind] at h
    exact Or.inl ⟨Or.inr rfl, h.1, h.2⟩
  | some node =>
    rw [hfind] at h
    have hptr := pointsTo_of_find hfind
    simp only [Option.map_some, runs_bind, runs_deref hptr, TaskResume.modifyContainer,
      runs_modify, runs_logBlobTxn, runs_ret] at h
    obtain ⟨got, w₂, ⟨hgot, hw₂⟩, rc', w₃, hfree, _, w₄, hw₄, _, w₅, hw₅, _, w₆,
      ⟨worker, hw₆⟩, hrc, hw'⟩ := h
    subst hgot
    subst hw₂
    obtain ⟨hrc', _⟩ := runs_freeAllBlobBlocks hptr hfree
    subst hrc'
    refine Or.inr ⟨node, w₃, worker, hname', rfl, hrc, hfree, ?_⟩
    rw [hw', hw₆, hw₅, hw₄]
    dsimp only
    rw [dropFromTagTotal_blobs]
    rfl

theorem runs_delBlob {blobName : Bytes}
    (h : Runs S (delBlob tagId blobName) w rc w') : DelOutcome S tagId blobName w rc w' := by
  rcases runs_delBlob_stages h with ⟨habsent, hrc, hw'⟩ | ⟨node, w₁, worker, hname, hfind, hrc,
    hfree, hw'⟩
  · rw [hrc, hw']
    exact .absent habsent
  · obtain ⟨_, targets, hlevels, hc, hfrees⟩ :=
      runs_freeAllBlobBlocks (pointsTo_of_find hfind) hfree
    rw [hrc, hw', hc]
    exact .deleted hname hfind hlevels hfrees

/-! ### Reorganizing -/

/-- The re-put of `ReorganizeBlob`. -/
def ReorganizeBlobTask.reput (t : ReorganizeBlobTask) (size : UInt64) (buffer : Nat → UInt8) :
    PutBlobTask :=
  ⟨t.tagId, t.blobName, 0, size, some buffer, t.newScore, default⟩

/-- The score is one a blob can have. -/
def ReorganizeBlobTask.ScoreInRange (t : ReorganizeBlobTask) : Prop :=
  (t.newScore.lt F32.zero || F32.one.lt t.newScore) = false

/-- `ReorganizeBlob` gets as far as the blob's data. -/
structure ReorganizeBlobTask.Moves (t : ReorganizeBlobTask) (cfg : Config) (c : Container)
    (node : BlobNode) : Prop where
  named : t.blobName.isEmpty = false
  scored : t.ScoreInRange
  found : c.blobs.find? (compositeKey t.tagId t.blobName) = some node
  apart : (t.newScore.sub node.info.score).abs.lt cfg.scoreDifferenceThreshold = false
  nonempty : node.info.getTotalSize ≠ 0
  buffer : cfg.bufferAvailable node.info.getTotalSize = true

/-- `ReorganizeBlob` stops before it reads, or it reads the whole blob and, where that
succeeds, puts it again. -/
theorem runs_reorganizeBlob_stages {δ : Type} {S : Request → δ → Reply → δ → Prop}
    {w w' : World Container δ} {t : ReorganizeBlobTask}
    (h : Runs S (reorganizeBlob cfg t) w rc w') :
    ((∀ node, ¬t.Moves cfg w.c node) ∧ w' = w) ∨
    ∃ node r w₁, t.Moves cfg w.c node ∧
      Runs S (getBlob ⟨t.tagId, t.blobName, 0, node.info.getTotalSize, cfg.freshBuffer⟩) w r w₁ ∧
      ((r.1 ≠ 0 ∧ rc = 6 ∧ w' = w₁) ∨ (r.1 = 0 ∧ ∃ putResult,
        Runs S (putBlob cfg (t.reput node.info.getTotalSize r.2)) w₁ putResult w' ∧
        rc = if putResult ≠ 0 then 7 else 0)) := by
  unfold reorganizeBlob at h
  by_cases hname : t.blobName.isEmpty = true
  · rw [if_pos hname] at h
    exact .inl ⟨fun node hmoves => by simp [hmoves.named] at hname, h.2⟩
  rw [if_neg hname] at h
  have hname' : t.blobName.isEmpty = false := by simpa using hname
  by_cases hscore : (t.newScore.lt F32.zero || F32.one.lt t.newScore) = true
  · rw [if_pos hscore] at h
    refine .inl ⟨fun node hmoves => ?_, h.2⟩
    rw [hmoves.scored] at hscore
    simp at hscore
  rw [if_neg hscore] at h
  simp only [bind_eq, pure_eq, runs_bind, runs_checkBlobExists hname'] at h
  obtain ⟨found, w₁, ⟨hfound, hw₁⟩, h⟩ := h
  subst hw₁
  subst hfound
  cases hfind : w₁.c.blobs.find? (compositeKey t.tagId t.blobName) with
  | none =>
    rw [hfind] at h
    refine .inl ⟨fun node hmoves => ?_, h.2⟩
    rw [hmoves.found] at hfind
    simp at hfind
  | some node =>
    rw [hfind] at h
    simp only [Option.map_some, runs_bind, runs_deref (pointsTo_of_find hfind)] at h
    obtain ⟨got, w₂, ⟨hgot, hw₂⟩, h⟩ := h
    subst hgot
    subst hw₂
    have hsame : ∀ node', t.Moves cfg w₂.c node' → node' = node := by
      intro node' hmoves
      rw [hmoves.found, Option.some.injEq] at hfind
      exact hfind
    by_cases hnear : (t.newScore.sub node.info.score).abs.lt cfg.scoreDifferenceThreshold = true
    · rw [if_pos hnear] at h
      refine .inl ⟨fun node' hmoves => ?_, h.2⟩
      rw [← hsame node' hmoves, hmoves.apart] at hnear
      simp at hnear
    rw [if_neg hnear] at h
    by_cases hzero : node.info.getTotalSize = 0
    · rw [if_pos hzero] at h
      refine .inl ⟨fun node' hmoves => ?_, h.2⟩
      rw [← hsame node' hmoves] at hzero
      exact hmoves.nonempty hzero
    rw [if_neg hzero] at h
    by_cases hbuffer : (!cfg.bufferAvailable node.info.getTotalSize) = true
    · rw [if_pos hbuffer] at h
      refine .inl ⟨fun node' hmoves => ?_, h.2⟩
      rw [← hsame node' hmoves, hmoves.buffer] at hbuffer
      simp at hbuffer
    rw [if_neg hbuffer] at h
    have hmoves : t.Moves cfg w₂.c node :=
      ⟨hname', by simpa [ReorganizeBlobTask.ScoreInRange] using hscore, hfind,
        by simpa using hnear, hzero, by simpa using hbuffer⟩
    simp only [runs_bind] at h
    obtain ⟨r, w₃, hget, h⟩ := h
    refine .inr ⟨node, r, w₃, hmoves, hget, ?_⟩
    by_cases hread : r.1 ≠ 0
    · rw [if_pos hread] at h
      exact .inl ⟨hread, h⟩
    · rw [if_neg hread] at h
      simp only [runs_bind] at h
      obtain ⟨putResult, w₄, hput, h⟩ := h
      have hend : rc = (if putResult ≠ 0 then 7 else 0) ∧ w' = w₄ := by
        by_cases hfail : putResult ≠ 0
        · rw [if_pos hfail] at h ⊢
          exact h
        · rw [if_neg hfail] at h ⊢
          exact h
      rw [hend.2]
      exact .inr ⟨by simpa using hread, putResult, hput, hend.1⟩

/-- The ways `ReorganizeBlob` can end. -/
inductive ReorganizeOutcome (S : Request → Devices → Reply → Devices → Prop) (cfg : Config)
    (t : ReorganizeBlobTask) (w : World Container Devices) :
    UInt32 → World Container Devices → Prop
  | stopped {rc : UInt32} : (∀ node, ¬t.Moves cfg w.c node) → ReorganizeOutcome S cfg t w rc w
  | unread {node : BlobNode} {r : UInt32 × (Nat → UInt8)} : t.Moves cfg w.c node →
      Runs S (getBlob ⟨t.tagId, t.blobName, 0, node.info.getTotalSize, cfg.freshBuffer⟩) w r w →
      r.1 ≠ 0 → ReorganizeOutcome S cfg t w 6 w
  | reput {node : BlobNode} {buffer : Nat → UInt8} {rc : UInt32} {w' : World Container Devices} :
      t.Moves cfg w.c node → PutOutcome S (t.reput node.info.getTotalSize buffer) w rc w' →
      ReorganizeOutcome S cfg t w (if rc ≠ 0 then 7 else 0) w'

theorem runs_reorganizeBlob (hS : ∀ q d r d', S q d r d' → ServesAny q d r d')
    {t : ReorganizeBlobTask} (h : Runs S (reorganizeBlob cfg t) w rc w') :
    ReorganizeOutcome S cfg t w rc w' := by
  obtain ⟨hstop, hw'⟩ | ⟨node, r, w₁, hmoves, hget, hrest⟩ := runs_reorganizeBlob_stages h
  · rw [hw']
    exact .stopped hstop
  · have hw₁ := runs_getBlob hS hget
    subst hw₁
    obtain ⟨hread, hrc, hw'⟩ | ⟨_, putResult, hput, hrc⟩ := hrest
    · rw [hrc, hw']
      exact .unread hmoves hget hread
    · rw [hrc]
      exact .reput hmoves (runs_putBlob hput)

/-! ### Flushing -/

/-- The put of `FlushData`. -/
def FlushEntry.reput (entry : FlushEntry) (level : Int) (buffer : Nat → UInt8) : PutBlobTask :=
  ⟨entry.tagId, entry.blobName, 0, entry.totalSize, some buffer, entry.score,
    { (default : Context) with minPersistenceLevel := level }⟩

/-- The ways `FlushData` can be done with one blob. -/
inductive FlushOutcome (S : Request → Devices → Reply → Devices → Prop) (level : Int)
    (entry : FlushEntry) (w : World Container Devices) : World Container Devices → Prop
  | kept : FlushOutcome S level entry w w
  | moved {node : BlobNode} {buffer : Nat → UInt8} {targets : Targets} {d : Devices} {rc : UInt32}
      {w' : World Container Devices} :
      w.c.blobs.find? entry.compositeKey = some node → SameLevels w.c.targets targets →
      FreesBlocks S (node.info.blocks.filter (w.c.isBelow level)) w.d d →
      PutOutcome S (entry.reput level buffer)
        ⟨{ w.c with targets := targets }.setBlob ⟨entry.compositeKey, node.addr⟩
          { node.info with blocks := node.info.blocks.filter fun b => !w.c.isBelow level b }, d⟩
        rc w' →
      FlushOutcome S level entry w w'

/-- The world once the blocks of a blob that lie below the level are freed. -/
def FlushFreed (S : Request → Devices → Reply → Devices → Prop) (level : Int) (key : Bytes)
    (node : BlobNode) (w w' : World Container Devices) : Prop :=
  ∃ targets d, SameLevels w.c.targets targets ∧
    FreesBlocks S (node.info.blocks.filter (w.c.isBelow level)) w.d d ∧
    w' = ⟨{ w.c with targets := targets }.setBlob ⟨key, node.addr⟩
      { node.info with blocks := node.info.blocks.filter fun b => !w.c.isBelow level b }, d⟩

/-- What `FlushData` does with one blob, and the return code of its put: the blob is left
alone before anything is freed, or it is read in full, its blocks below the level are freed
and it is put again. -/
inductive FlushStep (S : Request → Devices → Reply → Devices → Prop) (cfg : Config) (level : Int)
    (entry : FlushEntry) (w : World Container Devices) :
    Option UInt32 → World Container Devices → Prop
  | left : FlushStep S cfg level entry w none w
  | put {node : BlobNode} {buffer : Nat → UInt8} {rc : UInt32} {w₁ w' : World Container Devices} :
      w.c.blobs.find? entry.compositeKey = some node → entry.totalSize ≠ 0 →
      Runs S (readData node.info.blocks cfg.freshBuffer entry.totalSize 0) w (0, buffer) w →
      FlushFreed S level entry.compositeKey node w w₁ →
      Runs S (putBlob cfg (entry.reput level buffer)) w₁ rc w' →
      FlushStep S cfg level entry w (some rc) w'

/-- A blob counts as flushed when it was put again and the put returned 0. -/
theorem runs_flushOne_step (hS : ∀ q d r d', S q d r d' → ServesAny q d r d') {entry : FlushEntry} {flushed : Bool}
    (h : Runs S (flushOne cfg level entry) w flushed w') :
    ∃ put?, FlushStep S cfg level entry w put? w' ∧ flushed = (put? == some 0) := by
  have hleft : ∀ {w w' : World Container Devices}, flushed = false ∧ w' = w →
      ∃ put?, FlushStep S cfg level entry w put? w' ∧ flushed = (put? == some 0) := by
    rintro w w' ⟨hflushed, hw'⟩
    rw [hw']
    exact ⟨none, .left, hflushed⟩
  simp only [flushOne, bind_eq, pure_eq, runs_bind, TaskResume.readContainer, runs_read] at h
  obtain ⟨c, w₁, ⟨hc, hw₁⟩, h⟩ := h
  subst hw₁
  subst hc
  cases hfind : w₁.c.blobs.find? entry.compositeKey with
  | none =>
    rw [hfind] at h
    exact hleft h
  | some node =>
    rw [hfind] at h
    dsimp only at h
    by_cases hempty : node.info.blocks.isEmpty = true
    · rw [if_pos hempty] at h
      exact hleft h
    rw [if_neg hempty] at h
    by_cases hzero : entry.totalSize = 0
    · rw [if_pos hzero] at h
      exact hleft h
    rw [if_neg hzero] at h
    by_cases hbuffer : (!cfg.bufferAvailable entry.totalSize) = true
    · rw [if_pos hbuffer] at h
      exact hleft h
    rw [if_neg hbuffer] at h
    simp only [runs_bind] at h
    obtain ⟨⟨readError, buffer⟩, w₂, hread, h⟩ := h
    have hw₂ := runs_readData hS hread
    subst hw₂
    by_cases hfail : readError ≠ 0
    · rw [if_pos hfail] at h
      exact hleft h
    rw [if_neg hfail] at h
    rw [not_not] at hfail
    subst hfail
    have hptr := pointsTo_of_find hfind
    simp only [runs_bind, runs_deref hptr, runs_read, runs_ret] at h
    obtain ⟨got, w₃, ⟨hgot, hw₃⟩, c, w₄, ⟨hc, hw₄⟩, _, w₅, hfree, _, w₆, hupdate, rc, w₇, hput,
      hflushed, hw'⟩ := h
    subst hgot
    subst hw₄
    subst hw₃
    subst hc
    obtain ⟨targets, hlevels, hc₅, hfrees⟩ := runs_freeByPool hfree
    have hptr₅ : w₅.c.PointsTo ⟨entry.compositeKey, node.addr⟩ node.info := by
      rw [hc₅]
      exact hptr
    rw [runs_updateBlob hptr₅] at hupdate
    have hfreed : FlushFreed S level entry.compositeKey node w₄ w₆ := by
      refine ⟨targets, w₅.d, hlevels, hfrees, ?_⟩
      rw [hupdate, hc₅]
    rw [hw']
    exact ⟨some rc, .put hfind hzero hread hfreed hput, by rw [hflushed]; rfl⟩

theorem FlushStep.outcome {entry : FlushEntry} {put? : Option UInt32}
    (h : FlushStep S cfg level entry w put? w') : FlushOutcome S level entry w w' := by
  cases h with
  | left => exact .kept
  | put hfind _ _ hfreed hput =>
    obtain ⟨targets, d, hlevels, hfrees, hw₁⟩ := hfreed
    have houtcome := runs_putBlob hput
    rw [hw₁] at houtcome
    exact .moved hfind hlevels hfrees houtcome

/-- Blobs dealt with one after another, each with the return code of its put if there was
one. -/
abbrev FlushSteps (S : Request → Devices → Reply → Devices → Prop) (cfg : Config) (level : Int) :
    List (FlushEntry × Option UInt32) → World Container Devices → World Container Devices → Prop :=
  Along fun s w w' => FlushStep S cfg level s.1 w s.2 w'

/-- The puts that returned 0. -/
def flushedCount (steps : List (FlushEntry × Option UInt32)) : Nat :=
  steps.countP fun s => s.2 == some 0

/-- How a run of `FlushData` went: the blobs it dealt with, and the count of those that were
put again. -/
structure FlushTrace (S : Request → Devices → Reply → Devices → Prop) (cfg : Config) (level : Int)
    (steps : List (FlushEntry × Option UInt32)) (counts : UInt64 × UInt64)
    (w w' : World Container Devices) : Prop where
  entries : steps = [] ∨ ∃ order, order.Perm w.c.blobs.entries ∧
    steps.map Prod.fst = w.c.blobsToFlush level order
  runs : FlushSteps S cfg level steps w w'
  counted : counts.1 = UInt64.ofNat (flushedCount steps)

theorem runs_flushLoop_steps (hS : ∀ q d r d', S q d r d' → ServesAny q d r d') (entries : List FlushEntry) :
    ∀ {w : World Container Devices} {counts result : UInt64 × UInt64},
      Runs S (flushLoop cfg level entries counts) w result w' →
      ∃ steps, steps.map Prod.fst = entries ∧
        FlushSteps S cfg level steps w w' ∧
        result.1 = counts.1 + UInt64.ofNat (flushedCount steps) := by
  induction entries with
  | nil =>
    rintro w counts result ⟨hresult, hw'⟩
    refine ⟨[], rfl, hw', ?_⟩
    rw [hresult]
    simp [flushedCount]
  | cons entry rest ih =>
    intro w counts result h
    obtain ⟨blobs, bytes⟩ := counts
    simp only [flushLoop, bind_eq, runs_bind] at h
    obtain ⟨flushed, w₁, hone, h⟩ := h
    obtain ⟨put?, hstep, hflushed⟩ := runs_flushOne_step hS hone
    cases flushed with
    | true =>
      obtain ⟨steps, hfst, hruns, hcount⟩ := ih h
      refine ⟨(entry, put?) :: steps, by rw [List.map_cons, hfst], ⟨w₁, hstep, hruns⟩, ?_⟩
      have hone : flushedCount ((entry, put?) :: steps) = flushedCount steps + 1 :=
        List.countP_cons_of_pos hflushed.symm
      rw [hcount, hone, UInt64.ofNat_add, UInt64.add_assoc, UInt64.add_comm 1]
      rfl
    | false =>
      obtain ⟨steps, hfst, hruns, hcount⟩ := ih h
      refine ⟨(entry, put?) :: steps, by rw [List.map_cons, hfst], ⟨w₁, hstep, hruns⟩, ?_⟩
      have hsame : flushedCount ((entry, put?) :: steps) = flushedCount steps :=
        List.countP_cons_of_neg (by simp [← hflushed])
      rw [hcount, hsame]

theorem runs_flushData_steps (hS : ∀ q d r d', S q d r d' → ServesAny q d r d') {result : UInt64 × UInt64} (h : Runs S (flushData cfg level) w result w') :
    ∃ steps, FlushTrace S cfg level steps result w w' := by
  simp only [flushData, bind_eq, pure_eq, runs_bind, TaskResume.readContainer, runs_read] at h
  obtain ⟨c, w₁, ⟨hc, hw₁⟩, h⟩ := h
  subst hw₁
  subst hc
  by_cases hany : (w₁.c.targets.infos.any fun t => t.persistenceLevel.toInt ≥ level) = true
  · rw [if_pos hany] at h
    simp only [runs_bind] at h
    obtain ⟨entries, w₂, hshuffle, h⟩ := h
    obtain ⟨hperm, hw₂⟩ := runs_shuffle hshuffle
    subst hw₂
    obtain ⟨steps, hfst, hruns, hcount⟩ := runs_flushLoop_steps hS _ h
    refine ⟨steps, Or.inr ⟨entries, hperm, hfst⟩, hruns, ?_⟩
    rw [hcount, UInt64.zero_add]
  · rw [if_neg hany] at h
    refine ⟨[], Or.inl rfl, h.2, ?_⟩
    rw [h.1]
    rfl

/-- Blobs flushed one after another. -/
abbrev Flushes (S : Request → Devices → Reply → Devices → Prop) (level : Int) :
    List FlushEntry → World Container Devices → World Container Devices → Prop :=
  Along (FlushOutcome S level)

theorem FlushTrace.flushes {steps : List (FlushEntry × Option UInt32)} :
    ∀ {w : World Container Devices}, FlushSteps S cfg level steps w w' →
      Flushes S level (steps.map Prod.fst) w w' := by
  induction steps with
  | nil => exact id
  | cons s steps ih =>
    rintro w ⟨w₁, hstep, hrest⟩
    exact ⟨w₁, hstep.outcome, ih hrest⟩

/-- `FlushData` does nothing or flushes the blobs that have a block below the level. -/
theorem runs_flushData (hS : ∀ q d r d', S q d r d' → ServesAny q d r d') {result : UInt64 × UInt64} (h : Runs S (flushData cfg level) w result w') :
    w' = w ∨ ∃ entries, entries.Perm w.c.blobs.entries ∧
      Flushes S level (w.c.blobsToFlush level entries) w w' := by
  obtain ⟨steps, htrace⟩ := runs_flushData_steps hS h
  have hflushes := FlushTrace.flushes htrace.runs
  rcases htrace.entries with hnil | ⟨entries, hperm, hfst⟩
  · rw [hnil] at hflushes
    exact Or.inl hflushes
  · rw [hfst] at hflushes
    exact Or.inr ⟨entries, hperm, hflushes⟩

/-! ### Tags -/

/-- The ways `GetOrCreateTag` can end. -/
inductive CreateTagOutcome (cfg : Config) (tagName : Bytes) (preferredId : TagId)
    (w : World Container Devices) : TagId → World Container Devices → Prop
  /-- The id of another node, remembered if the name was new. -/
  | remembered : isRemoteTag cfg preferredId = true → w.c.tagNameToId.find? tagName = none →
      CreateTagOutcome cfg tagName preferredId w preferredId
        ⟨{ w.c with tagNameToId := w.c.tagNameToId.insertOrAssign tagName preferredId }, w.d⟩
  | known {id₀ id : TagId} : w.c.tagNameToId.find? tagName = some id₀ →
      CreateTagOutcome cfg tagName preferredId w id w
  | created {worker : Nat} : isRemoteTag cfg preferredId = false →
      w.c.tagNameToId.find? tagName = none →
      CreateTagOutcome cfg tagName preferredId w (w.c.newTagId cfg preferredId).1
        ⟨((w.c.newTagId cfg preferredId).2.putTag tagName (w.c.newTagId cfg preferredId).1 0).logTag
          worker (.createTag ⟨tagName, (w.c.newTagId cfg preferredId).1.major,
            (w.c.newTagId cfg preferredId).1.minor⟩), w.d⟩

theorem runs_getOrCreateTag {tagName : Bytes} {preferredId id : TagId}
    (h : Runs S (getOrCreateTag cfg tagName preferredId) w id w') :
    CreateTagOutcome cfg tagName preferredId w id w' := by
  unfold getOrCreateTag at h
  by_cases hremote : isRemoteTag cfg preferredId = true
  · rw [if_pos hremote] at h
    simp only [bind_eq, pure_eq, runs_bind, runs_ret, TaskResume.modifyContainer, runs_modify] at h
    obtain ⟨_, w₁, hw₁, hid, hw'⟩ := h
    rw [hid, hw', hw₁]
    cases hfind : w.c.tagNameToId.find? tagName with
    | none => exact .remembered hremote hfind
    | some id₀ => exact .known hfind
  · rw [if_neg hremote] at h
    simp only [getOrAssignTagId, bind_eq, pure_eq, runs_bind, TaskResume.readContainer,
      runs_read] at h
    obtain ⟨c, w₁, ⟨hc, hw₁⟩, h⟩ := h
    subst hw₁
    subst hc
    cases hfind : w₁.c.tagNameToId.find? tagName with
    | some id₀ =>
      rw [hfind] at h
      rw [h.2]
      exact .known hfind
    | none =>
      rw [hfind] at h
      simp only [runs_bind, runs_ret, TaskResume.modifyContainer, runs_modify,
        runs_logTagTxn] at h
      obtain ⟨_, w₂, hw₂, _, w₃, ⟨worker, hw₃⟩, hid, hw'⟩ := h
      rw [hid, hw', hw₃, hw₂]
      exact .created (by simpa using hremote) hfind

/-- Blobs deleted one after another. -/
abbrev Deletes (S : Request → Devices → Reply → Devices → Prop) (tagId : TagId) :
    List Bytes → World Container Devices → World Container Devices → Prop :=
  Along fun blobName w w' => ∃ rc, DelOutcome S tagId blobName w rc w'

theorem runs_delBlobs (blobNames : List Bytes) :
    ∀ {w : World Container Devices} {u : Unit}, Runs S (delBlobs tagId blobNames) w u w' →
      Deletes S tagId blobNames w w' := by
  induction blobNames with
  | nil =>
    rintro w u ⟨_, hw'⟩
    exact hw'
  | cons blobName rest ih =>
    intro w u h
    simp only [delBlobs, bind_eq, runs_bind] at h
    obtain ⟨rc, w₁, hdel, h⟩ := h
    exact ⟨w₁, ⟨rc, runs_delBlob hdel⟩, ih h⟩

/-- The names of the blobs of a tag. -/
def blobNamesOf (tagId : TagId) (entries : List (Bytes × BlobNode)) : List Bytes :=
  (entries.filter fun e => hasTagPrefix tagId e.1).map fun e => e.2.info.blobName

def delTagTxn (tagName : Bytes) (tagId : TagId) : Wal.Txn :=
  .delTag ⟨tagName, tagId.major, tagId.minor⟩

def Container.noteRace (c : Container) (tagId : TagId) (tagName : Bytes) : Container :=
  { c with raced := c.raced || c.tagChanged tagId tagName }

/-- The container without the tag. -/
def Container.dropTag (c : Container) (worker : Nat) (tagId : TagId) (tagName : Bytes) :
    Container :=
  { (c.forgetTag tagId).logTag worker (delTagTxn tagName tagId) with
    tagIdToInfo := (c.forgetTag tagId).tagIdToInfo.erase tagId }

theorem forgetTag_blobs (c : Container) (tagId : TagId) :
    (c.forgetTag tagId).blobs = c.blobs.filter fun key _ => !hasTagPrefix tagId key := by
  unfold Container.forgetTag
  dsimp only
  split
  · rfl
  · split
    · rfl
    · rfl

/-- The ways `DelTag` can end. -/
inductive DelTagOutcome (S : Request → Devices → Reply → Devices → Prop) (tagId : TagId)
    (tagName : Bytes) (w : World Container Devices) : UInt32 → World Container Devices → Prop
  | absent : DelTagOutcome S tagId tagName w 1 w
  | deleted {id : TagId} {info : TagInfo} {entries : List (Bytes × BlobNode)}
      {w₁ : World Container Devices} {worker : Nat} :
      w.c.resolveTag tagId tagName = some id → w.c.tagIdToInfo.find? id = some info →
      entries.Perm w.c.blobs.entries → Deletes S id (blobNamesOf id entries) w w₁ →
      DelTagOutcome S tagId tagName w 0
        ⟨(w₁.c.noteRace id info.tagName).dropTag worker id info.tagName, w₁.d⟩

theorem runs_delTag {tagName : Bytes}
    (h : Runs S (delTag tagId tagName) w rc w') : DelTagOutcome S tagId tagName w rc w' := by
  simp only [delTag, bind_eq, pure_eq, runs_bind, TaskResume.readContainer, runs_read] at h
  obtain ⟨c, w₁, ⟨hc, hw₁⟩, h⟩ := h
  subst hw₁
  subst hc
  cases hresolve : w₁.c.resolveTag tagId tagName with
  | none =>
    rw [hresolve] at h
    rw [h.1, h.2]
    exact .absent
  | some id =>
    rw [hresolve] at h
    dsimp only at h
    cases hinfo : w₁.c.tagIdToInfo.find? id with
    | none =>
      rw [hinfo] at h
      rw [h.1, h.2]
      exact .absent
    | some info =>
      rw [hinfo] at h
      simp only [runs_bind, runs_ret, TaskResume.modifyContainer, runs_modify,
        runs_logTagTxn] at h
      obtain ⟨entries, w₂, hshuffle, _, w₃, hdels, _, w₄, hw₄, _, w₅, hw₅, _, w₆,
        ⟨worker, hw₆⟩, _, w₇, hw₇, hrc, hw'⟩ := h
      obtain ⟨hperm, hw₂⟩ := runs_shuffle hshuffle
      subst hw₂
      rw [hrc, hw', hw₇, hw₆, hw₅, hw₄]
      exact .deleted hresolve hinfo hperm (runs_delBlobs _ hdels)

/-! ### Sequences of tasks -/

/-- The task runs from its start to its end. -/
def Ran (S : Request → Devices → Reply → Devices → Prop) (cfg : Config) (t : Task)
    (w w' : World Container Devices) : Prop :=
  ∃ rc, Runs S (t.resume cfg) w rc w'

/-- What became of the task, task by task. -/
inductive RanAs (S : Request → Devices → Reply → Devices → Prop) (cfg : Config)
    (w : World Container Devices) : Task → World Container Devices → Prop
  | getOrCreateTag {tagName : Bytes} {preferredId id : TagId} {w' : World Container Devices} :
      CreateTagOutcome cfg tagName preferredId w id w' →
      RanAs S cfg w (.getOrCreateTag tagName preferredId) w'
  | delTag {tagId : TagId} {tagName : Bytes} {rc : UInt32} {w' : World Container Devices} :
      DelTagOutcome S tagId tagName w rc w' → RanAs S cfg w (.delTag tagId tagName) w'
  | putBlob {t : PutBlobTask} {rc : UInt32} {w' : World Container Devices} :
      PutOutcome S t w rc w' → RanAs S cfg w (.putBlob t) w'
  | getBlob {t : GetBlobTask} : RanAs S cfg w (.getBlob t) w
  | delBlob {tagId : TagId} {blobName : Bytes} {rc : UInt32} {w' : World Container Devices} :
      DelOutcome S tagId blobName w rc w' → RanAs S cfg w (.delBlob tagId blobName) w'
  | reorganizeBlob {t : ReorganizeBlobTask} {rc : UInt32} {w' : World Container Devices} :
      ReorganizeOutcome S cfg t w rc w' → RanAs S cfg w (.reorganizeBlob t) w'
  | notFlushed {level : Int} : RanAs S cfg w (.flushData level) w
  | flushed {level : Int} {entries : List (Bytes × BlobNode)} {w' : World Container Devices} :
      entries.Perm w.c.blobs.entries → Flushes S level (w.c.blobsToFlush level entries) w w' →
      RanAs S cfg w (.flushData level) w'

theorem ranAs_of_ran (hS : ∀ q d r d', S q d r d' → ServesAny q d r d') {t : Task}
    (h : Ran S cfg t w w') : RanAs S cfg w t w' := by
  obtain ⟨rc, h⟩ := h
  cases t with
  | getOrCreateTag tagName preferredId =>
    simp only [Task.resume, bind_eq, pure_eq, runs_bind, runs_ret] at h
    obtain ⟨id, w₁, h, _, hw'⟩ := h
    rw [hw']
    exact .getOrCreateTag (runs_getOrCreateTag h)
  | delTag tagId tagName => exact .delTag (runs_delTag h)
  | putBlob t => exact .putBlob (runs_putBlob h)
  | getBlob t =>
    simp only [Task.resume, bind_eq, pure_eq, runs_bind, runs_ret] at h
    obtain ⟨r, w₁, h, _, hw'⟩ := h
    rw [hw', runs_getBlob hS h]
    exact .getBlob
  | delBlob tagId blobName => exact .delBlob (runs_delBlob h)
  | reorganizeBlob t => exact .reorganizeBlob (runs_reorganizeBlob hS h)
  | flushData level =>
    simp only [Task.resume, bind_eq, pure_eq, runs_bind, runs_ret] at h
    obtain ⟨counts, w₁, h, _, hw'⟩ := h
    rw [hw']
    rcases runs_flushData hS h with hw₁ | ⟨entries, hperm, hflushes⟩
    · rw [hw₁]
      exact .notFlushed
    · exact .flushed hperm hflushes

/-! ### A small engine to run tasks on -/

def ramPool : PoolId := ⟨512, 1⟩

/-- One RAM device of ten megabytes that two workers serve. -/
def smallRam : Devices where
  devs := ⟨[(ramPool, ⟨.ram, Allocator.init 2 10485760 4096, 10485760, fun _ => 0⟩)],
    List.nodup_singleton _⟩
  granted := fun _ _ => false

/-- The device as the only target. -/
def smallTargets : Targets where
  map := ⟨[(ramPool, ⟨ramPool, default, F32.one, 10485760, default, .volatile⟩)],
    List.nodup_singleton _⟩
  keyed := by decide

def smallConfig : Config := ⟨.random, F32.zero, 1, fun _ => true, fun _ => 0⟩

/-- The engine on that device, with one worker that logs. -/
def smallEngine : World Container Devices := ⟨Container.create smallTargets 1, smallRam⟩

/-- A put of `size` bytes, all of them `fill`, to a blob of tag 1.1. -/
def smallPut (blobName : Bytes) (offset size : UInt64) (fill : UInt8) : PutBlobTask :=
  ⟨⟨1, 1⟩, blobName, offset, size, some fun _ => fill, F32.one, default⟩

/-- Tasks one after another, with worker 0 everywhere and every transfer complete. -/
def runAll (cfg : Config) (ts : List Task) (w : World Container Devices) :
    World Container Devices :=
  ts.foldl (fun w t => (exec Devices.serve (t.resume cfg) [] [] w).2) w

/-- Every outcome in the run passes the check. -/
def checkAll (check : Outcome → Request → Devices → Bool) (cfg : Config) :
    List Task → World Container Devices → Bool
  | [], _ => true
  | t :: ts, w =>
    checkExec Devices.serve check (t.resume cfg) [] [] w &&
      checkAll check cfg ts (exec Devices.serve (t.resume cfg) [] [] w).2

/-- Any outcome will do. -/
def checkAny : Outcome → Request → Devices → Bool := fun _ _ _ => true

theorem servesAny_of_check (e : Outcome) (q : Request) (d : Devices) (_ : checkAny e q d = true) :
    ServesAny q d (Devices.serve e q d).1 (Devices.serve e q d).2 := ⟨e, rfl⟩

theorem along_runAll {check : Outcome → Request → Devices → Bool}
    (hS : ∀ e q d, check e q d = true →
      S q d (Devices.serve e q d).1 (Devices.serve e q d).2) (ts : List Task) :
    ∀ {w : World Container Devices}, checkAll check cfg ts w = true →
      Along (Ran S cfg) ts w (runAll cfg ts w) := by
  induction ts with
  | nil =>
    intro w _
    rfl
  | cons t ts ih =>
    intro w h
    rw [checkAll, Bool.and_eq_true] at h
    exact ⟨_, ⟨_, runs_exec hS (t.resume cfg) [] [] w h.1⟩, ih h.2⟩

/-- The last task of such a run, with its return code. -/
theorem runs_runAll {check : Outcome → Request → Devices → Bool} (hS : ∀ e q d, check e q d = true →
      S q d (Devices.serve e q d).1 (Devices.serve e q d).2) (ts : List Task)
    (t : Task) (w : World Container Devices)
    (hcheck : checkExec Devices.serve check (t.resume cfg) [] [] (runAll cfg ts w) = true)
    (hrc : (exec Devices.serve (t.resume cfg) [] [] (runAll cfg ts w)).1 = rc) :
    Runs S (t.resume cfg) (runAll cfg ts w) rc (runAll cfg (ts ++ [t]) w) := by
  have hrun := runs_exec hS (t.resume cfg) [] [] (runAll cfg ts w) hcheck
  have hlast : runAll cfg (ts ++ [t]) w =
      (exec Devices.serve (t.resume cfg) [] [] (runAll cfg ts w)).2 := by
    simp only [runAll, List.foldl_append, List.foldl_cons, List.foldl_nil]
  rw [hrc] at hrun
  rw [hlast]
  exact hrun

end Cte
end IowarpCore
