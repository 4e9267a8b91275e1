/-
What the helpers of the blob operations do when their task runs alone.

One statement for each helper: which requests it sends and what it leaves in the
container, with the replies taken from any relation `S`.  A pointer is good while the
helper runs, because no other task runs, so everything is said about the entry
`PointsTo` names.  The three points at which the operations differ from what their
names promise are visible here already: `clearBlob` clears whenever the offset is 0,
`allocateFromTarget` takes the first block of a reply and forgets the others, and what
it takes is not taken off the target's remaining space.

A put that runs alone gets what it needs from one target or gets nothing: placement
only selects targets with room for all of it (`runs_extendBlob`).
-/
import IowarpCore.Cte.Contents

namespace IowarpCore
namespace Cte

open Bdev (Request Reply Block)
open Co

variable {δ : Type} {S : Request → δ → Reply → δ → Prop} {w w' : World Container δ}

/-! ### Pointers -/

/-- The pointer is good and its blob is `info`. -/
def Container.PointsTo (c : Container) (ptr : BlobPtr) (info : BlobInfo) : Prop :=
  c.blobs.find? ptr.key = some ⟨ptr.addr, info⟩

/-- The container with another value behind the pointer. -/
def Container.setBlob (c : Container) (ptr : BlobPtr) (info : BlobInfo) : Container :=
  { c with blobs := c.blobs.insertOrAssign ptr.key ⟨ptr.addr, info⟩ }

variable {c : Container} {info : BlobInfo} {ptr : BlobPtr} {u : Unit} {blobScore : F32}
  {offset size : UInt64} {sel targets : List TargetInfo} {cfg : Config} {t : TargetInfo}
  {level : Int}

theorem deref?_of_pointsTo (h : c.PointsTo ptr info) : c.deref? ptr = some info := by
  unfold Container.PointsTo at h
  simp [Container.deref?, h]

theorem pointsTo_of_deref? (h : c.deref? ptr = some info) : c.PointsTo ptr info := by
  unfold Container.deref? at h
  cases hfind : c.blobs.find? ptr.key with
  | none =>
    rw [hfind] at h
    simp at h
  | some node =>
    rw [hfind] at h
    dsimp only at h
    by_cases haddr : node.addr = ptr.addr
    · rw [if_pos haddr, Option.some.injEq] at h
      rw [Container.PointsTo, hfind, ← haddr, ← h]
    · rw [if_neg haddr] at h
      simp at h

theorem updateBlob_of_pointsTo (h : c.PointsTo ptr info) (f : BlobInfo → BlobInfo) :
    c.updateBlob ptr f = c.setBlob ptr (f info) := by
  simp [Container.updateBlob, deref?_of_pointsTo h, Container.setBlob]

theorem pointsTo_setBlob (c : Container) (ptr : BlobPtr) (info : BlobInfo) :
    (c.setBlob ptr info).PointsTo ptr info :=
  AMap.find?_insertOrAssign_self _ _ _

theorem runs_deref {got : BlobInfo} (h : w.c.PointsTo ptr info) :
    Runs S (deref ptr) w got w' ↔ got = info ∧ w' = w := by
  simp only [deref, TaskResume.readContainer, bind_eq, pure_eq, runs_bind, runs_read]
  refine ⟨?_, ?_⟩
  · rintro ⟨c, w₁, ⟨hc, hw⟩, hrun⟩
    subst hw
    subst hc
    rw [deref?_of_pointsTo h] at hrun
    exact hrun
  · intro hgot
    refine ⟨w.c, w, ⟨rfl, rfl⟩, ?_⟩
    rw [deref?_of_pointsTo h]
    exact hgot

theorem runs_updateBlob {f : BlobInfo → BlobInfo} (h : w.c.PointsTo ptr info) :
    Runs S (updateBlob ptr f) w u w' ↔ w' = ⟨w.c.setBlob ptr (f info), w.d⟩ := by
  rw [updateBlob, TaskResume.modifyContainer, runs_modify, updateBlob_of_pointsTo h]

theorem runs_checkBlobExists {blobName : Bytes} {tagId : TagId} {r : Option BlobPtr}
    (hname : blobName.isEmpty = false) :
    Runs S (checkBlobExists blobName tagId) w r w' ↔
      r = (w.c.blobs.find? (compositeKey tagId blobName)).map
        (fun node => ⟨compositeKey tagId blobName, node.addr⟩) ∧ w' = w := by
  simp [checkBlobExists, hname, TaskResume.readContainer, And.comm]

/-- The pointer a lookup returns points to what it found. -/
theorem pointsTo_of_find {key : Bytes} {node : BlobNode}
    (h : c.blobs.find? key = some node) : c.PointsTo ⟨key, node.addr⟩ node.info := h

/-! ### Logging -/

/-- The container after a record went to the blob log of a worker. -/
def Container.logBlob (c : Container) (worker : Nat) (t : Wal.Txn) : Container :=
  { c with
    blobTxnLogs := Container.appendLog c.blobTxnLogs worker t
    ordered := c.ordered && Container.appendsInOrder c.blobTxnLogs worker t }

/-- The container after a record went to the tag log of a worker. -/
def Container.logTag (c : Container) (worker : Nat) (t : Wal.Txn) : Container :=
  { c with
    tagTxnLogs := Container.appendLog c.tagTxnLogs worker t
    ordered := c.ordered && Container.appendsInOrder c.tagTxnLogs worker t }

theorem runs_logBlobTxn {t : Wal.Txn} :
    Runs S (logBlobTxn t) w u w' ↔ ∃ worker, w' = ⟨w.c.logBlob worker t, w.d⟩ := by
  simp [logBlobTxn, TaskResume.modifyContainer, Container.logBlob]

theorem runs_logTagTxn {t : Wal.Txn} :
    Runs S (logTagTxn t) w u w' ↔ ∃ worker, w' = ⟨w.c.logTag worker t, w.d⟩ := by
  simp [logTagTxn, TaskResume.modifyContainer, Container.logTag]

/-! ### Freeing -/

/-- The same targets on the same persistence levels; only the remaining space may differ. -/
def SameLevels (t t' : Targets) : Prop :=
  ∀ p, (t'.find? p).map TargetInfo.persistenceLevel = (t.find? p).map TargetInfo.persistenceLevel

theorem SameLevels.refl (t : Targets) : SameLevels t t := fun _ => rfl

theorem SameLevels.trans {t t' t'' : Targets} (h : SameLevels t t') (h' : SameLevels t' t'') :
    SameLevels t t'' := fun p => (h' p).trans (h p)

theorem sameLevels_addRemaining (t : Targets) (p : PoolId) (bytes : UInt64) :
    SameLevels t (t.addRemaining p bytes) := by
  intro q
  unfold Targets.find? Targets.addRemaining
  simp only [AMap.find?_mapVal, Option.map_map]
  congr 1
  funext info
  by_cases hq : q = p
  · simp [hq]
  · simp [hq]

/-- `FreeBlocks` requests for the groups, one after another. -/
def FreesAll (S : Request → δ → Reply → δ → Prop) :
    List (PoolId × PoolQuery × List Block) → δ → δ → Prop
  | [], d, d' => d' = d
  | (pool, query, blocks) :: rest, d, d' =>
    ∃ r d₁, S ⟨pool, query, .freeBlocks blocks⟩ d r d₁ ∧ FreesAll S rest d₁ d'

theorem runs_freeLoop (groups : List (PoolId × PoolQuery × List Block)) :
    ∀ {w : World Container δ} {u : Unit}, Runs S (freeLoop groups) w u w' →
      ∃ t, SameLevels w.c.targets t ∧ w'.c = { w.c with targets := t } ∧
        FreesAll S groups w.d w'.d := by
  induction groups with
  | nil =>
    rintro w u ⟨_, hw⟩
    subst hw
    exact ⟨_, SameLevels.refl _, rfl, rfl⟩
  | cons g rest ih =>
    intro w u h
    obtain ⟨pool, query, blocks⟩ := g
    simp only [freeLoop, TaskResume.modifyContainer, bind_eq, runs_bind, runs_call] at h
    obtain ⟨r, w₁, ⟨hserve, hc₁⟩, h⟩ := h
    by_cases hr : r.returnCode = 0
    · simp only [hr, if_true, runs_bind, runs_modify] at h
      obtain ⟨_, w₂, hw₂, h⟩ := h
      subst hw₂
      obtain ⟨t, ht, hc, hfree⟩ := ih h
      refine ⟨t, ?_, ?_, r, w₁.d, hserve, hfree⟩
      · have hsame := sameLevels_addRemaining w.c.targets pool
          (blocks.foldl (fun total b => total + b.size) 0)
        simp only [hc₁] at ht
        exact hsame.trans ht
      · rw [hc, hc₁]
    · simp only [hr, if_false] at h
      obtain ⟨t, ht, hc, hfree⟩ := ih h
      rw [hc₁] at ht hc
      exact ⟨t, ht, hc, r, w₁.d, hserve, hfree⟩

/-- The blocks of all groups are freed, the groups in some order. -/
def FreesBlocks (S : Request → δ → Reply → δ → Prop) (blocks : List BlobBlock)
    (d d' : δ) : Prop :=
  ∃ groups, groups.Perm (groupByPool blocks).entries ∧ FreesAll S groups d d'

theorem FreesBlocks.mono {T : Request → δ → Reply → δ → Prop}
    (hST : ∀ q d r d', S q d r d' → T q d r d') {blocks : List BlobBlock} {d d' : δ}
    (h : FreesBlocks S blocks d d') : FreesBlocks T blocks d d' := by
  obtain ⟨groups, hperm, hfrees⟩ := h
  refine ⟨groups, hperm, ?_⟩
  clear hperm
  induction groups generalizing d with
  | nil => exact hfrees
  | cons g rest ih =>
    obtain ⟨r, d₁, hserve, hrest⟩ := hfrees
    exact ⟨r, d₁, hST _ _ _ _ hserve, ih hrest⟩

/-- What every free preserves. -/
theorem FreesBlocks.invariant {I : δ → Prop} {blocks : List BlobBlock} {d d' : δ}
    (h : FreesBlocks S blocks d d')
    (step : ∀ pool query bs d r d', I d → S ⟨pool, query, .freeBlocks bs⟩ d r d' → I d') :
    I d → I d' := by
  obtain ⟨groups, hperm, hfrees⟩ := h
  clear hperm
  induction groups generalizing d with
  | nil =>
    intro hd
    rw [hfrees]
    exact hd
  | cons g rest ih =>
    obtain ⟨r, d₁, hserve, hrest⟩ := hfrees
    exact fun hd => ih hrest (step _ _ _ _ _ _ hd hserve)

theorem runs_freeByPool {blocks : List BlobBlock} (h : Runs S (freeByPool blocks) w u w') :
    ∃ t, SameLevels w.c.targets t ∧ w'.c = { w.c with targets := t } ∧
      FreesBlocks S blocks w.d w'.d := by
  simp only [freeByPool, bind_eq, runs_bind] at h
  obtain ⟨groups, w₁, hshuffle, h⟩ := h
  obtain ⟨hperm, hw₁⟩ := runs_shuffle hshuffle
  subst hw₁
  obtain ⟨t, ht, hc, hfree⟩ := runs_freeLoop groups h
  exact ⟨t, ht, hc, groups, hperm, hfree⟩

theorem runs_freeAllBlobBlocks {rc : UInt32}
    (hptr : w.c.PointsTo ptr info) (h : Runs S (freeAllBlobBlocks ptr) w rc w') :
    rc = 0 ∧ ∃ t, SameLevels w.c.targets t ∧
      w'.c = { w.c with targets := t }.setBlob ptr { info with blocks := [] } ∧
      FreesBlocks S info.blocks w.d w'.d := by
  simp only [freeAllBlobBlocks, bind_eq, pure_eq, runs_bind, runs_deref hptr, runs_ret] at h
  obtain ⟨got, w₁, ⟨hgot, hw₁⟩, _, w₂, hfree, _, w₃, hupdate, hrc, hw'⟩ := h
  subst hgot
  subst hw₁
  subst hw'
  obtain ⟨t, ht, hc, hblocks⟩ := runs_freeByPool hfree
  have hptr₂ : w₂.c.PointsTo ptr got := by rw [hc]; exact hptr
  rw [runs_updateBlob hptr₂] at hupdate
  subst hupdate
  refine ⟨hrc, t, ht, ?_, hblocks⟩
  rw [hc]

/-- The put replaces the blob: its blocks are freed first. -/
def Clears (blobScore : F32) (offset : UInt64) (info : BlobInfo) : Prop :=
  (blobScore.lt F32.zero || F32.one.lt blobScore) = false ∧ offset = 0 ∧ info.getTotalSize ≠ 0

/-- `clearBlob` either leaves the blob alone or frees its blocks. -/
theorem runs_clearBlob_stages {cleared : Bool} (hptr : w.c.PointsTo ptr info)
    (h : Runs S (clearBlob ptr blobScore offset size) w cleared w') :
    (¬Clears blobScore offset info ∧ cleared = false ∧ w' = w) ∨
    (Clears blobScore offset info ∧ cleared = true ∧ Runs S (freeAllBlobBlocks ptr) w 0 w') := by
  unfold clearBlob at h
  by_cases hscore : (blobScore.lt F32.zero || F32.one.lt blobScore) = true
  · rw [if_pos hscore] at h
    refine Or.inl ⟨?_, h.1, h.2⟩
    intro hclears
    rw [hclears.1] at hscore
    simp at hscore
  · rw [if_neg hscore] at h
    simp only [bind_eq, pure_eq, runs_bind, runs_deref hptr] at h
    obtain ⟨got, w₁, ⟨hgot, hw₁⟩, h⟩ := h
    subst hgot
    subst hw₁
    by_cases hcond : offset ≠ 0 ∨ got.getTotalSize = 0
    · rw [if_pos hcond] at h
      refine Or.inl ⟨?_, h.1, h.2⟩
      intro hclears
      rcases hcond with hoff | htotal
      · exact hoff hclears.2.1
      · exact hclears.2.2 htotal
    · rw [if_neg hcond] at h
      simp only [runs_bind, runs_ret] at h
      obtain ⟨rc, w₂, hfree, hcleared, hw'⟩ := h
      subst hw'
      obtain ⟨hrc, _⟩ := runs_freeAllBlobBlocks hptr hfree
      subst hrc
      rw [not_or, not_not] at hcond
      exact Or.inr ⟨⟨by simpa using hscore, hcond.1, hcond.2⟩, hcleared, hfree⟩

/-! ### Placement -/

/-- Both groups together are the targets with room. -/
theorem partitionTargets_perm (targets : List TargetInfo) (blobScore : F32) (dataSize : UInt64) :
    ((partitionTargets targets blobScore dataSize).1 ++
      (partitionTargets targets blobScore dataSize).2).Perm
        (targets.filter fun t => t.remainingSpace ≥ dataSize) := by
  rw [partitionTargets, List.partition_eq_filter_filter]
  exact List.filter_append_perm _ _

theorem runs_sortTargets {before : TargetInfo → TargetInfo → Bool}
    (h : Runs S (sortTargets before targets) w sel w') : sel.Perm targets ∧ w' = w := by
  simp only [sortTargets, bind_eq, pure_eq, runs_bind, runs_ret] at h
  obtain ⟨shuffled, w₁, hshuffle, hsel, hw'⟩ := h
  obtain ⟨hperm, hw₁⟩ := runs_shuffle hshuffle
  rw [hsel, hw', hw₁]
  exact ⟨(List.mergeSort_perm _ _).trans hperm, rfl⟩

theorem rotateBy_perm (counter : UInt32) (targets : List TargetInfo) :
    (rotateBy counter targets).Perm targets := by
  unfold rotateBy List.rotateLeft
  dsimp only
  split
  · exact List.Perm.refl _
  · exact List.perm_append_comm.trans (List.Perm.of_eq (List.take_append_drop _ _))

/-- Placement selects the targets that have room for all of the data, in some order, and
leaves nothing behind but the round-robin counter. -/
theorem runs_selectTargets_perm
    {dataSize : UInt64} (h : Runs S (selectTargets cfg targets blobScore dataSize) w sel w') :
    sel.Perm (targets.filter fun t => t.remainingSpace ≥ dataSize) ∧
      ∃ n, w' = ⟨{ w.c with roundRobinCounter := n }, w.d⟩ := by
  have hboth := partitionTargets_perm targets blobScore dataSize
  unfold selectTargets at h
  cases hdpe : cfg.dpeType with
  | random =>
    rw [hdpe] at h
    simp only [selectRandom, bind_eq, pure_eq, runs_bind, runs_ret] at h
    obtain ⟨low, w₁, hlow, high, w₂, hhigh, hsel, hw'⟩ := h
    obtain ⟨hperm₁, hw₁⟩ := runs_shuffle hlow
    obtain ⟨hperm₂, hw₂⟩ := runs_shuffle hhigh
    rw [hsel]
    exact ⟨(hperm₁.append hperm₂).trans hboth, w.c.roundRobinCounter, by rw [hw', hw₂, hw₁]⟩
  | roundRobin =>
    rw [hdpe] at h
    unfold selectRoundRobin at h
    simp only at h
    by_cases hempty : targets.isEmpty = true
    · rw [if_pos hempty] at h
      obtain ⟨hsel, hw'⟩ := h
      rw [hsel, hw', List.isEmpty_iff.mp hempty]
      exact ⟨List.Perm.refl _, w.c.roundRobinCounter, rfl⟩
    · rw [if_neg hempty] at h
      simp only [bind_eq, pure_eq, runs_bind, runs_ret, TaskResume.readContainer, runs_read,
        TaskResume.modifyContainer, runs_modify] at h
      obtain ⟨c, w₁, ⟨hc, hw₁⟩, _, w₂, hw₂, hsel, hw'⟩ := h
      rw [hsel]
      exact ⟨((rotateBy_perm _ _).append (rotateBy_perm _ _)).trans hboth,
        w.c.roundRobinCounter + 1, by rw [hw', hw₂, hw₁]⟩
  | maxBw =>
    rw [hdpe] at h
    simp only [selectMaxBw, bind_eq, pure_eq, runs_bind, runs_ret] at h
    obtain ⟨low, w₁, hlow, high, w₂, hhigh, hsel, hw'⟩ := h
    obtain ⟨hperm₁, hw₁⟩ := runs_sortTargets hlow
    obtain ⟨hperm₂, hw₂⟩ := runs_sortTargets hhigh
    rw [hsel]
    exact ⟨(hperm₁.append hperm₂).trans hboth, w.c.roundRobinCounter, by rw [hw', hw₂, hw₁]⟩

/-- Every target that placement selects has room for all of the data. -/
theorem runs_selectTargets
    {dataSize : UInt64} (h : Runs S (selectTargets cfg targets blobScore dataSize) w sel w') :
    (∀ t ∈ sel, t ∈ targets ∧ dataSize ≤ t.remainingSpace) ∧
      ∃ n, w' = ⟨{ w.c with roundRobinCounter := n }, w.d⟩ := by
  obtain ⟨hperm, hw'⟩ := runs_selectTargets_perm h
  refine ⟨?_, hw'⟩
  intro t ht
  obtain ⟨hmem, hroom⟩ := List.mem_filter.mp (hperm.mem_iff.mp ht)
  exact ⟨hmem, by simpa using hroom⟩

/-! ### Allocating -/

/-- Any number of allocations of one size that were all refused. -/
def AllocsFail (S : Request → δ → Reply → δ → Prop) (size : UInt64) :
    δ → δ → Prop :=
  Relation.ReflTransGen fun d d' =>
    ∃ pool query r, S ⟨pool, query, .allocateBlocks size⟩ d r d' ∧ r.blocks = []

/-- What every refused allocation preserves. -/
theorem AllocsFail.invariant {I : δ → Prop} {d d' : δ} (h : AllocsFail S size d d')
    (step : ∀ pool query d r d', I d → S ⟨pool, query, .allocateBlocks size⟩ d r d' →
      r.blocks = [] → I d') : I d → I d' := by
  intro hd
  induction h with
  | refl => exact hd
  | tail _ hstep ih =>
    obtain ⟨pool, query, r, hserve, hnil⟩ := hstep
    exact step _ _ _ _ _ ih hserve hnil

/-- Some target granted the allocation, after others may have refused it. -/
def Grants (S : Request → δ → Reply → δ → Prop) (size : UInt64) (new : BlobBlock)
    (d d' : δ) : Prop :=
  ∃ d₁ pool query r b rest, AllocsFail S size d d₁ ∧
    S ⟨pool, query, .allocateBlocks size⟩ d₁ r d' ∧ r.blocks = b :: rest ∧
    new = ⟨pool, query, b.offset, size⟩

theorem runs_allocateFromTarget {target : TargetInfo} {r : Option UInt64}
    (hroom : size ≤ target.remainingSpace)
    (h : Runs S (allocateFromTarget target size) w r w') :
    ∃ reply, S ⟨target.bdevClient, target.targetQuery, .allocateBlocks size⟩ w.d reply w'.d ∧
      w'.c = w.c ∧ r = reply.blocks.head?.map Block.offset := by
  unfold allocateFromTarget at h
  rw [if_neg (UInt64.not_lt.mpr hroom)] at h
  simp only [bind_eq, pure_eq, runs_bind, runs_call, runs_ret] at h
  obtain ⟨reply, w₁, ⟨hserve, hc⟩, hr, hw'⟩ := h
  subst hw'
  exact ⟨reply, hserve, hc, hr⟩

/-- One turn of the loop at a target that has room for all that is needed: refused, it goes
on as if the target had not been there; granted, that was all. -/
theorem runs_allocateLoop_cons {remaining left : UInt64} {rest : List TargetInfo} (hpos : remaining ≠ 0) (hptr : w.c.PointsTo ptr info)
    (hfind : w.c.targets.find? t.bdevClient = some t) (hroom : remaining ≤ t.remainingSpace)
    (h : Runs S (allocateLoop ptr (t :: rest) remaining) w left w') :
    ∃ reply w₂, S ⟨t.bdevClient, t.targetQuery, .allocateBlocks remaining⟩ w.d reply w₂.d ∧
      w₂.c = w.c ∧
      ((reply.blocks = [] ∧ Runs S (allocateLoop ptr rest remaining) w₂ left w') ∨
        ∃ b more, reply.blocks = b :: more ∧ left = 0 ∧ w'.d = w₂.d ∧
          w'.c = w.c.setBlob ptr { info with
            blocks := info.blocks ++ [⟨t.bdevClient, t.targetQuery, b.offset, remaining⟩] }) := by
  have hmin : min remaining t.remainingSpace = remaining := by
    rw [UInt64.le_iff_toNat_le] at hroom
    rw [← UInt64.toNat_inj, UInt64.toNat_min]
    omega
  unfold allocateLoop at h
  rw [if_neg hpos] at h
  simp only [bind_eq, runs_bind, TaskResume.readContainer, runs_read] at h
  obtain ⟨c, w₁, ⟨hc, hw₁⟩, h⟩ := h
  subst hw₁
  subst hc
  rw [hfind] at h
  simp only [hmin, hpos, if_false, runs_bind] at h
  obtain ⟨r, w₂, halloc, h⟩ := h
  obtain ⟨reply, hserve, hc₂, hr⟩ := runs_allocateFromTarget hroom halloc
  refine ⟨reply, w₂, hserve, hc₂, ?_⟩
  cases hblocks : reply.blocks with
  | nil =>
    rw [hblocks] at hr
    simp only [List.head?_nil, Option.map_none] at hr
    subst hr
    exact Or.inl ⟨rfl, h⟩
  | cons b more =>
    rw [hblocks] at hr
    simp only [List.head?_cons, Option.map_some] at hr
    subst hr
    have hptr₂ : w₂.c.PointsTo ptr info := by rw [hc₂]; exact hptr
    simp only [runs_bind, runs_updateBlob hptr₂] at h
    obtain ⟨_, w₃, hw₃, h⟩ := h
    have hzero : remaining - remaining = 0 := by simp
    rw [hzero] at h
    have hdone : left = 0 ∧ w' = w₃ := by
      cases rest with
      | nil => exact h
      | cons t' rest' =>
        unfold allocateLoop at h
        rw [if_pos rfl] at h
        exact h
    obtain ⟨hleft, hw'⟩ := hdone
    rw [hw₃] at hw'
    rw [hw', ← hc₂]
    exact Or.inr ⟨b, more, rfl, hleft, rfl, rfl⟩

/-- Over targets that each have room for all that is needed, the loop ends with the first
that grants it, or with nothing done. -/
theorem runs_allocateLoop {remaining left : UInt64}
    (hpos : remaining ≠ 0) (ordered : List TargetInfo) :
    ∀ {w : World Container δ}, w.c.PointsTo ptr info →
      (∀ t ∈ ordered, w.c.targets.find? t.bdevClient = some t ∧ remaining ≤ t.remainingSpace) →
      Runs S (allocateLoop ptr ordered remaining) w left w' →
      (left = remaining ∧ w'.c = w.c ∧ AllocsFail S remaining w.d w'.d) ∨
      (left = 0 ∧ ∃ new, w'.c = w.c.setBlob ptr { info with blocks := info.blocks ++ [new] } ∧
        Grants S remaining new w.d w'.d) := by
  induction ordered with
  | nil =>
    rintro w hptr hts ⟨hleft, hw'⟩
    subst hw'
    exact Or.inl ⟨hleft, rfl, Relation.ReflTransGen.refl⟩
  | cons t rest ih =>
    intro w hptr hts h
    obtain ⟨hfind, hroom⟩ := hts t (by simp)
    obtain ⟨reply, w₂, hserve, hc₂, ⟨hblocks, h⟩ | ⟨b, more, hblocks, hleft, hd, hc'⟩⟩ :=
      runs_allocateLoop_cons hpos hptr hfind hroom h
    · have hptr₂ : w₂.c.PointsTo ptr info := by rw [hc₂]; exact hptr
      have hts₂ : ∀ t' ∈ rest, w₂.c.targets.find? t'.bdevClient = some t' ∧
          remaining ≤ t'.remainingSpace := by
        rw [hc₂]
        intro t' ht'
        exact hts t' (List.mem_cons_of_mem _ ht')
      have hfail : AllocsFail S remaining w.d w₂.d :=
        Relation.ReflTransGen.single ⟨_, _, reply, hserve, hblocks⟩
      rcases ih hptr₂ hts₂ h with ⟨hleft, hc', hfails⟩ | ⟨hleft, new, hc', hgrants⟩
      · exact Or.inl ⟨hleft, hc'.trans hc₂, hfail.trans hfails⟩
      · obtain ⟨d₁, pool, query, r, b, more, hfails, hs, hb, hnew⟩ := hgrants
        refine Or.inr ⟨hleft, new, ?_, ⟨d₁, pool, query, r, b, more, hfail.trans hfails, hs, hb,
          hnew⟩⟩
        rw [hc', hc₂]
    · rw [← hd] at hserve
      exact Or.inr ⟨hleft, _, hc', w.d, _, _, reply, b, more, Relation.ReflTransGen.refl, hserve,
        hblocks, rfl⟩

/-- The ways `extendBlob` can end on a blob `info`. -/
inductive Extended (S : Request → δ → Reply → δ → Prop) (w : World Container δ)
    (ptr : BlobPtr) (info : BlobInfo) (required : UInt64) :
    UInt32 → World Container δ → Prop
  /-- There is room in the blocks the blob has. -/
  | fits : required ≤ info.getTotalSize → Extended S w ptr info required 0 w
  /-- No target gave the space; the blob is as it was. -/
  | failed {err : UInt32} {n : UInt32} {d : δ} : ¬required ≤ info.getTotalSize →
      err = 1 ∨ err = 2 ∨ err = 3 → AllocsFail S (required - info.getTotalSize) w.d d →
      Extended S w ptr info required err ⟨{ w.c with roundRobinCounter := n }, d⟩
  /-- One block of all that was missing. -/
  | grown {n : UInt32} {d : δ} {new : BlobBlock} : ¬required ≤ info.getTotalSize →
      Grants S (required - info.getTotalSize) new w.d d →
      Extended S w ptr info required 0
        ⟨{ w.c with roundRobinCounter := n }.setBlob ptr
          { info with blocks := info.blocks ++ [new] }, d⟩

theorem infos_find {t : Targets} {info : TargetInfo} (h : info ∈ t.infos) :
    t.find? info.bdevClient = some info := by
  obtain ⟨⟨p, info'⟩, hmem, hinfo⟩ := List.mem_map.mp h
  simp only at hinfo
  subst hinfo
  have hkey := t.keyed _ hmem
  simp only at hkey
  rw [Targets.find?, hkey, AMap.find?_eq_some_iff]
  exact hmem

/-- The targets the persistence filter of `extendBlob` lets through. -/
def atLevel (level : Int) (targets : List TargetInfo) : List TargetInfo :=
  if level > 0 then targets.filter fun t => !(t.persistenceLevel.toInt < level) else targets

theorem atLevel_subset (h : t ∈ atLevel level targets) : t ∈ targets := by
  unfold atLevel at h
  by_cases hlevel : level > 0
  · rw [if_pos hlevel] at h
    exact (List.mem_filter.mp h).1
  · rw [if_neg hlevel] at h
    exact h

theorem mem_atLevel_filter {p : TargetInfo → Bool} :
    t ∈ atLevel level (targets.filter p) ↔ t ∈ atLevel level targets ∧ p t = true := by
  unfold atLevel
  by_cases hlevel : level > 0
  · rw [if_pos hlevel, if_pos hlevel, List.mem_filter, List.mem_filter, List.mem_filter]
    exact ⟨fun h => ⟨⟨h.1.1, h.2⟩, h.1.2⟩, fun h => ⟨⟨h.1.1, h.2⟩, h.1.2⟩⟩
  · rw [if_neg hlevel, if_neg hlevel, List.mem_filter]

theorem atLevel_perm {ts ts' : List TargetInfo} (h : ts.Perm ts') :
    (atLevel level ts).Perm (atLevel level ts') := by
  unfold atLevel
  by_cases hlevel : level > 0
  · rw [if_pos hlevel, if_pos hlevel]
    exact h.filter _
  · rw [if_neg hlevel, if_neg hlevel]
    exact h

/-- What is missing when the blob is too small. -/
theorem missing_ne_zero {required total : UInt64} (h : ¬required ≤ total) :
    required - total ≠ 0 := by
  intro hzero
  have hsub := congrArg UInt64.toNat hzero
  rw [UInt64.toNat_sub_of_le _ _ (UInt64.le_of_lt (UInt64.not_le.mp h)), UInt64.toNat_zero] at hsub
  rw [UInt64.le_iff_toNat_le] at h
  omega

/-- An extension that needs space: it has nowhere to ask, or it asks the targets that have
room for all of it and that the filter lets through. -/
theorem runs_extendBlob_stages {err : UInt32}
    (hptr : w.c.PointsTo ptr info) (hfits : ¬offset + size ≤ info.getTotalSize)
    (h : Runs S (extendBlob cfg ptr offset size blobScore level) w err w') :
    ∃ ordered n, ordered.Perm (atLevel level (w.c.targets.infos.filter fun t =>
        t.remainingSpace ≥ offset + size - info.getTotalSize)) ∧
      ((ordered = [] ∧ (err = 1 ∨ err = 2) ∧ w' = ⟨{ w.c with roundRobinCounter := n }, w.d⟩) ∨
        (ordered ≠ [] ∧ ∃ left,
          Runs S (allocateLoop ptr ordered (offset + size - info.getTotalSize))
            ⟨{ w.c with roundRobinCounter := n }, w.d⟩ left w' ∧
          err = if left > 0 then 3 else 0)) := by
  simp only [extendBlob, bind_eq, pure_eq, runs_bind, runs_deref hptr] at h
  obtain ⟨got, w₀, ⟨hgot, hw₀⟩, h⟩ := h
  subst hgot
  subst hw₀
  rw [if_neg hfits] at h
  simp only [runs_bind, TaskResume.readContainer, runs_read] at h
  obtain ⟨c, w₁, ⟨hc, hw₁⟩, available, w₂, hshuffle, h⟩ := h
  subst hw₁
  subst hc
  obtain ⟨hperm, hw₂⟩ := runs_shuffle hshuffle
  subst hw₂
  by_cases hnone : available.isEmpty = true
  · rw [if_pos hnone] at h
    obtain ⟨herr, hw'⟩ := h
    rw [List.isEmpty_iff.mp hnone] at hperm
    refine ⟨[], w₂.c.roundRobinCounter, ?_, Or.inl ⟨rfl, Or.inl herr, hw'⟩⟩
    simp [← hperm.nil_eq, atLevel]
  rw [if_neg hnone] at h
  simp only [runs_bind] at h
  obtain ⟨selected, w₃, hselect, h⟩ := h
  obtain ⟨hsel, n, hw₃⟩ := runs_selectTargets_perm hselect
  subst hw₃
  refine ⟨atLevel level selected, n, atLevel_perm (hsel.trans (hperm.filter _)), ?_⟩
  by_cases hempty : (atLevel level selected).isEmpty = true
  · rw [atLevel] at hempty
    rw [if_pos hempty] at h
    obtain ⟨herr, hw'⟩ := h
    exact Or.inl ⟨List.isEmpty_iff.mp hempty, Or.inr herr, hw'⟩
  · have hne : atLevel level selected ≠ [] := fun hnil => hempty (by rw [hnil]; rfl)
    rw [atLevel] at hempty
    rw [if_neg hempty] at h
    simp only [runs_bind] at h
    obtain ⟨left, w₄, hloop, h⟩ := h
    refine Or.inr ⟨hne, left, ?_⟩
    by_cases hleft : left > 0
    · rw [if_pos hleft] at h
      obtain ⟨herr, hw'⟩ := h
      rw [if_pos hleft, hw']
      exact ⟨hloop, herr⟩
    · rw [if_neg hleft] at h
      obtain ⟨herr, hw'⟩ := h
      rw [if_neg hleft, hw']
      exact ⟨hloop, herr⟩

theorem runs_extendBlob {err : UInt32} (hptr : w.c.PointsTo ptr info)
    (h : Runs S (extendBlob cfg ptr offset size blobScore level) w err w') :
    Extended S w ptr info (offset + size) err w' := by
  by_cases hfits : offset + size ≤ info.getTotalSize
  · simp only [extendBlob, bind_eq, pure_eq, runs_bind, runs_deref hptr] at h
    obtain ⟨got, w₀, ⟨hgot, hw₀⟩, h⟩ := h
    subst hgot
    subst hw₀
    rw [if_pos hfits] at h
    obtain ⟨herr, hw'⟩ := h
    rw [herr, hw']
    exact .fits hfits
  have hpos := missing_ne_zero hfits
  obtain ⟨ordered, n, hperm, ⟨_, herr, hw'⟩ | ⟨_, left, hloop, herr⟩⟩ :=
    runs_extendBlob_stages hptr hfits h
  · rw [hw']
    exact .failed hfits (herr.imp id Or.inl) Relation.ReflTransGen.refl
  -- The loop sees the targets as they were when it started.
  have hts : ∀ t ∈ ordered, w.c.targets.find? t.bdevClient = some t ∧
      offset + size - info.getTotalSize ≤ t.remainingSpace := by
    intro t ht
    obtain ⟨hmem, hroom⟩ := List.mem_filter.mp (atLevel_subset (hperm.mem_iff.mp ht))
    exact ⟨infos_find hmem, by simpa using hroom⟩
  have hptr₃ : { w.c with roundRobinCounter := n }.PointsTo ptr info := hptr
  obtain ⟨c', d'⟩ := w'
  rcases runs_allocateLoop hpos ordered (w := ⟨{ w.c with roundRobinCounter := n }, w.d⟩)
    hptr₃ hts hloop with ⟨hleft, hc, hfails⟩ | ⟨hleft, new, hc, hgrants⟩
  · rw [hleft, if_pos (UInt64.pos_iff_ne_zero.mpr hpos)] at herr
    simp only at hc
    rw [herr, hc]
    exact .failed hfits (by decide) hfails
  · rw [hleft] at herr
    simp only at hc
    rw [herr, hc]
    exact .grown hfits hgrants

end Cte
end IowarpCore
