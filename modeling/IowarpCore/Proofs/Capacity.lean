/-
Whether a target's remaining space is what its capacity leaves.

It is, until the first allocation.  `AllocateFromTarget` takes what it allocates off a copy
of the target, so the counter in the map never falls, and every free adds to it: from the
first block on, counter and blocks together are more than the capacity.  Hence a run of puts
and deletes keeps the balance in all its states exactly if no device ever granted a block
(`balanced_iff_refused`).

Both directions rest on the states the balance leaves possible (`Idle`): no blob has a
block, so nothing is ever freed, and a put changes the balance only by a grant.
-/
import IowarpCore.Proofs.Space
import Mathlib.Algebra.Order.BigOperators.Group.List

namespace IowarpCore
namespace Cte

open Bdev (Request Reply Block Devices)
open Co

variable {S : Request → Devices → Reply → Devices → Prop} {w w' : World Container Devices}

/-- The bytes of all blobs in blocks on the target. -/
def Container.usedOn (c : Container) (p : PoolId) : Nat :=
  ((c.allBlocks.filter fun b => b.bdevClient = p).map fun b => b.size.toNat).sum

/-- Remaining space and blocks of every target add up to its capacity, the space that
remained when it was registered. -/
def Balanced (registered : Targets) (c : Container) : Prop :=
  ∀ p info, registered.find? p = some info → ∃ info', c.targets.find? p = some info' ∧
    info'.remainingSpace.toNat + c.usedOn p = info.remainingSpace.toNat

/-- As `ServesAny`, where no allocation is granted. -/
def Refuses (q : Request) (d : Devices) (r : Reply) (d' : Devices) : Prop :=
  ServesAny q d r d' ∧ ∀ size, q.op = .allocateBlocks size → r.blocks = []

/-- The request is no allocation. -/
def NotAllocate (q : Request) : Prop := ∀ size, q.op ≠ .allocateBlocks size

theorem refuses_of_notAllocate {q : Request} {d d' : Devices} {r : Reply} (hq : NotAllocate q)
    (h : ServesAny q d r d') : Refuses q d r d' :=
  ⟨h, fun size hop => absurd hop (hq size)⟩

/-! ### Programs that allocate nothing -/

theorem sendsOnly_deref (P : Request → Prop) (ptr : BlobPtr) : SendsOnly P (deref ptr) := by
  intro c
  simp only [Co.bind]
  cases c.deref? ptr with
  | some info => trivial
  | none => exact fun _ => trivial

theorem sendsOnly_freeLoop (groups : List (PoolId × PoolQuery × List Block)) :
    SendsOnly NotAllocate (freeLoop groups) := by
  induction groups with
  | nil => trivial
  | cons g rest ih =>
    obtain ⟨pool, query, blocks⟩ := g
    unfold freeLoop
    refine sendsOnly_bind ⟨?_, fun _ => trivial⟩ ?_
    · intro q hq size hop
      rw [List.mem_singleton.mp hq] at hop
      simp at hop
    · intro reply
      by_cases hrc : reply.returnCode = 0
      · simp only [hrc, if_true]
        exact fun _ => ih
      · simp only [hrc, if_false]
        exact ih

theorem sendsOnly_freeAllBlobBlocks (ptr : BlobPtr) :
    SendsOnly NotAllocate (freeAllBlobBlocks ptr) := by
  unfold freeAllBlobBlocks freeByPool
  refine sendsOnly_bind (sendsOnly_deref _ _) fun info => ?_
  refine sendsOnly_bind (sendsOnly_bind (sendsOnly_shuffle _) sendsOnly_freeLoop) fun _ => ?_
  exact fun _ => trivial

theorem sendsOnly_putClear (t : PutBlobTask) (blobScore : F32) (ptr : BlobPtr) :
    SendsOnly NotAllocate (putClear t blobScore ptr) := by
  have hclear : SendsOnly NotAllocate (clearBlob ptr blobScore t.offset t.size) := by
    unfold clearBlob
    by_cases hscore : (blobScore.lt F32.zero || F32.one.lt blobScore) = true
    · rw [if_pos hscore]
      trivial
    · rw [if_neg hscore]
      refine sendsOnly_bind (sendsOnly_deref _ _) fun info => ?_
      by_cases hcond : t.offset ≠ 0 ∨ info.getTotalSize = 0
      · rw [if_pos hcond]
        trivial
      · rw [if_neg hcond]
        exact sendsOnly_bind (sendsOnly_freeAllBlobBlocks ptr) fun _ => trivial
  unfold putClear
  refine sendsOnly_bind hclear fun cleared => ?_
  cases cleared with
  | true => exact fun _ _ => trivial
  | false => exact sendsOnly_bind (sendsOnly_deref _ _) fun _ => trivial

theorem sendsOnly_delBlob (tagId : TagId) (blobName : Bytes) :
    SendsOnly NotAllocate (delBlob tagId blobName) := by
  unfold delBlob
  by_cases hname : blobName.isEmpty = true
  · rw [if_pos hname]
    trivial
  rw [if_neg hname]
  have hcheck : SendsOnly NotAllocate (checkBlobExists blobName tagId) := by
    unfold checkBlobExists
    rw [if_neg hname]
    exact fun _ => trivial
  refine sendsOnly_bind hcheck fun found => ?_
  cases found with
  | none => trivial
  | some ptr =>
    refine sendsOnly_bind (sendsOnly_deref _ _) fun info => ?_
    refine sendsOnly_bind (sendsOnly_freeAllBlobBlocks ptr) fun _ => ?_
    exact fun _ _ _ => fun _ => trivial

theorem sendsOnly_selectTargets (P : Request → Prop) (cfg : Config) (targets : List TargetInfo)
    (blobScore : F32) (dataSize : UInt64) :
    SendsOnly P (selectTargets cfg targets blobScore dataSize) := by
  have hsort : ∀ before l, SendsOnly P (sortTargets before l) := by
    intro before l
    exact sendsOnly_bind (sendsOnly_shuffle l) fun _ => trivial
  unfold selectTargets
  cases cfg.dpeType with
  | random =>
    exact sendsOnly_bind (sendsOnly_shuffle _) fun _ =>
      sendsOnly_bind (sendsOnly_shuffle _) fun _ => trivial
  | roundRobin =>
    dsimp only
    unfold selectRoundRobin
    by_cases hempty : targets.isEmpty = true
    · rw [if_pos hempty]
      trivial
    · rw [if_neg hempty]
      exact fun _ _ => trivial
  | maxBw =>
    exact sendsOnly_bind (hsort _ _) fun _ => sendsOnly_bind (hsort _ _) fun _ => trivial

/-! ### A grant stays visible -/

/-- A block that was granted: there is one on a registered target, or a task lost its
pointer. -/
def Granted (c : Container) : Prop :=
  c.dangling = true ∨ ∃ key blocks b, c.blocks? key = some blocks ∧ b ∈ blocks ∧
    (c.targets.find? b.bdevClient).isSome = true ∧ b.size ≠ 0

/-- The blobs keep their blocks, and the targets stay. -/
structure Grows (w w' : World Container Devices) : Prop where
  dangling : w.c.dangling = true → w'.c.dangling = true
  blocks : ∀ key blocks, w.c.blocks? key = some blocks →
    ∃ more, w'.c.blocks? key = some (blocks ++ more)
  targets : w'.c.targets = w.c.targets

theorem Grows.trans (w₁ w₂ w₃ : World Container Devices) (h : Grows w₁ w₂) (h' : Grows w₂ w₃) :
    Grows w₁ w₃ := by
  refine ⟨fun hd => h'.dangling (h.dangling hd), ?_, h'.targets.trans h.targets⟩
  intro key blocks hblocks
  obtain ⟨more, hmore⟩ := h.blocks key blocks hblocks
  obtain ⟨more', hmore'⟩ := h'.blocks key _ hmore
  exact ⟨more ++ more', by rw [hmore', List.append_assoc]⟩

theorem Grows.granted (h : Grows w w') (hgranted : Granted w.c) : Granted w'.c := by
  rcases hgranted with hd | ⟨key, blocks, b, hblocks, hb, htarget, hsize⟩
  · exact Or.inl (h.dangling hd)
  · obtain ⟨more, hmore⟩ := h.blocks key blocks hblocks
    refine Or.inr ⟨key, blocks ++ more, b, hmore, List.mem_append_left _ hb, ?_, hsize⟩
    rw [h.targets]
    exact htarget

/-- The same blobs and targets, and no pointer regained. -/
theorem Grows.of_same (hblobs : w'.c.blobs = w.c.blobs) (htargets : w'.c.targets = w.c.targets)
    (hdangling : w.c.dangling = true → w'.c.dangling = true) : Grows w w' := by
  refine ⟨hdangling, ?_, htargets⟩
  intro key blocks h
  refine ⟨[], ?_⟩
  rw [List.append_nil, Container.blocks?, hblobs]
  exact h

theorem Grows.refl (w : World Container Devices) : Grows w w := .of_same rfl rfl id

/-- A change through a pointer that appends blocks, if any. -/
theorem grows_updateBlob {ptr : BlobPtr} {f : BlobInfo → BlobInfo}
    (hf : ∀ info, ∃ more, (f info).blocks = info.blocks ++ more) :
    Keeps S Grows (updateBlob ptr f) := by
  intro w u w' h
  rw [updateBlob, TaskResume.modifyContainer, runs_modify] at h
  subst h
  cases hderef : w.c.deref? ptr with
  | none =>
    have hupdate : w.c.updateBlob ptr f = { w.c with dangling := true } := by
      rw [Container.updateBlob, hderef]
    rw [hupdate]
    exact .of_same rfl rfl fun _ => rfl
  | some info =>
    have hptr := pointsTo_of_deref? hderef
    rw [updateBlob_of_pointsTo hptr]
    refine ⟨id, ?_, rfl⟩
    intro key blocks hblocks
    by_cases hkey : key = ptr.key
    · obtain ⟨more, hmore⟩ := hf info
      subst hkey
      have hold : blocks = info.blocks := by
        rw [Container.blocks?, hptr, Option.map_some, Option.some.injEq] at hblocks
        exact hblocks.symm
      refine ⟨more, ?_⟩
      rw [Container.blocks?, pointsTo_setBlob, Option.map_some, hmore, hold]
    · refine ⟨[], ?_⟩
      rw [List.append_nil, Container.blocks?, Container.setBlob]
      dsimp only
      rw [AMap.find?_insertOrAssign_of_ne _ _ hkey]
      exact hblocks

theorem grows_deref (ptr : BlobPtr) : Keeps S Grows (deref ptr) := by
  intro w info w' h
  simp only [deref, TaskResume.readContainer, bind_eq, pure_eq, runs_bind, runs_read] at h
  obtain ⟨c, w₁, ⟨hc, hw₁⟩, h⟩ := h
  subst hw₁
  subst hc
  cases hderef : w₁.c.deref? ptr with
  | some info' =>
    rw [hderef] at h
    rw [h.2]
    exact Grows.refl _
  | none =>
    rw [hderef] at h
    simp only [TaskResume.modifyContainer, runs_bind, runs_modify, runs_ret] at h
    obtain ⟨_, w₂, hw₂, _, hw'⟩ := h
    rw [hw', hw₂]
    exact .of_same rfl rfl fun _ => rfl

theorem grows_allocateFromTarget (target : TargetInfo) (size : UInt64) :
    Keeps S Grows (allocateFromTarget target size) := by
  unfold allocateFromTarget
  by_cases hroom : target.remainingSpace < size
  · rw [if_pos hroom]
    exact keeps_ret Grows.refl _
  · rw [if_neg hroom]
    refine keeps_bind Grows.trans ?_ fun _ => keeps_ret Grows.refl _
    intro w r w' h
    rw [runs_call] at h
    exact .of_same (by rw [h.2]) (by rw [h.2]) (by rw [h.2]; exact id)

theorem grows_allocateLoop (ptr : BlobPtr) (ordered : List TargetInfo) :
    ∀ remaining, Keeps S Grows (allocateLoop ptr ordered remaining) := by
  induction ordered with
  | nil => exact fun _ => keeps_ret Grows.refl _
  | cons selected rest ih =>
    intro remaining
    unfold allocateLoop
    by_cases hzero : remaining = 0
    · rw [if_pos hzero]
      exact keeps_ret Grows.refl _
    rw [if_neg hzero]
    intro w left w' h
    simp only [bind_eq, runs_bind, TaskResume.readContainer, runs_read] at h
    obtain ⟨c, w₁, ⟨_, hw₁⟩, h⟩ := h
    subst hw₁
    cases hfind : c.targets.find? selected.bdevClient with
    | none =>
      rw [hfind] at h
      exact ih _ _ _ _ h
    | some target =>
      rw [hfind] at h
      dsimp only at h
      by_cases hsize : min remaining target.remainingSpace = 0
      · rw [if_pos hsize] at h
        exact ih _ _ _ _ h
      rw [if_neg hsize] at h
      simp only [runs_bind] at h
      obtain ⟨r, w₂, halloc, h⟩ := h
      have hgrows := grows_allocateFromTarget _ _ _ _ _ halloc
      cases r with
      | none => exact hgrows.trans _ _ _ (ih _ _ _ _ h)
      | some offset =>
        simp only [runs_bind] at h
        obtain ⟨_, w₃, hupdate, h⟩ := h
        have happends := grows_updateBlob (fun info => ⟨_, rfl⟩) _ _ _ hupdate
        exact hgrows.trans _ _ _ (happends.trans _ _ _ (ih _ _ _ _ h))

/-- An allocation that brings nothing was refused. -/
theorem refused_allocateFromTarget {target : TargetInfo} {size : UInt64}
    (h : Runs ServesAny (allocateFromTarget target size) w none w') :
    Runs Refuses (allocateFromTarget target size) w none w' := by
  unfold allocateFromTarget at h ⊢
  by_cases hroom : target.remainingSpace < size
  · rw [if_pos hroom] at h ⊢
    exact h
  · rw [if_neg hroom] at h ⊢
    simp only [bind_eq, pure_eq, runs_bind, runs_call, runs_ret] at h ⊢
    obtain ⟨reply, w₁, ⟨hserve, hc⟩, hr, hw'⟩ := h
    have hnil : reply.blocks = [] := by
      cases hblocks : reply.blocks with
      | nil => rfl
      | cons b rest =>
        rw [hblocks] at hr
        simp at hr
    exact ⟨reply, w₁, ⟨⟨hserve, fun _ _ => hnil⟩, hc⟩, hr, hw'⟩

/-- A block appended through a pointer is there, or the pointer is lost. -/
theorem granted_updateBlob {ptr : BlobPtr} {new : BlobBlock} {c : Container}
    (htarget : (c.targets.find? new.bdevClient).isSome = true) (hsize : new.size ≠ 0) :
    Granted (c.updateBlob ptr fun info => { info with blocks := info.blocks ++ [new] }) := by
  cases hderef : c.deref? ptr with
  | none =>
    rw [Container.updateBlob, hderef]
    exact Or.inl rfl
  | some info =>
    rw [updateBlob_of_pointsTo (pointsTo_of_deref? hderef)]
    refine Or.inr ⟨ptr.key, info.blocks ++ [new], new, ?_, by simp, htarget, hsize⟩
    rw [Container.blocks?, pointsTo_setBlob]
    rfl

theorem tells_allocateLoop (ptr : BlobPtr) (ordered : List TargetInfo) : ∀ remaining,
    Tells ServesAny Refuses (fun w => Granted w.c) (allocateLoop ptr ordered remaining) := by
  induction ordered with
  | nil => exact fun _ _ _ _ h => Or.inr h
  | cons selected rest ih =>
    intro remaining w left w' h
    unfold allocateLoop at h ⊢
    by_cases hzero : remaining = 0
    · rw [if_pos hzero] at h ⊢
      exact Or.inr h
    rw [if_neg hzero] at h ⊢
    simp only [bind_eq, runs_bind, TaskResume.readContainer, runs_read] at h ⊢
    obtain ⟨c, w₁, ⟨hc, hw₁⟩, h⟩ := h
    subst hw₁
    subst hc
    cases hfind : w₁.c.targets.find? selected.bdevClient with
    | none =>
      rw [hfind] at h
      refine (ih _ _ _ _ h).imp id fun hrun => ⟨w₁.c, w₁, ⟨rfl, rfl⟩, ?_⟩
      rw [hfind]
      exact hrun
    | some target =>
      rw [hfind] at h
      dsimp only at h
      by_cases hsize : min remaining target.remainingSpace = 0
      · rw [if_pos hsize] at h
        refine (ih _ _ _ _ h).imp id fun hrun => ⟨w₁.c, w₁, ⟨rfl, rfl⟩, ?_⟩
        rw [hfind]
        dsimp only
        rw [if_pos hsize]
        exact hrun
      rw [if_neg hsize] at h
      simp only [runs_bind] at h
      obtain ⟨r, w₂, halloc, h⟩ := h
      cases r with
      | none =>
        refine (ih _ _ _ _ h).imp id fun hrun => ⟨w₁.c, w₁, ⟨rfl, rfl⟩, ?_⟩
        rw [hfind]
        dsimp only
        rw [if_neg hsize]
        simp only [runs_bind]
        exact ⟨none, w₂, refused_allocateFromTarget halloc, hrun⟩
      | some offset =>
        -- Granted: the block is there at once and stays.
        simp only [runs_bind] at h
        obtain ⟨_, w₃, hupdate, h⟩ := h
        left
        refine (grows_allocateLoop ptr rest _ _ _ _ h).granted ?_
        rw [updateBlob, TaskResume.modifyContainer, runs_modify] at hupdate
        rw [hupdate]
        refine granted_updateBlob ?_ hsize
        have hkey : target.bdevClient = selected.bdevClient :=
          w₁.c.targets.keyed _ (AMap.find?_eq_some_iff.mp hfind)
        show (w₂.c.targets.find? target.bdevClient).isSome = true
        rw [(grows_allocateFromTarget _ _ _ _ _ halloc).targets, hkey, hfind]
        rfl

theorem tells_extendBlob (cfg : Config) (ptr : BlobPtr) (offset size : UInt64) (blobScore : F32)
    (level : Int) : Tells ServesAny Refuses (fun w => Granted w.c)
      (extendBlob cfg ptr offset size blobScore level) := by
  have hST : ∀ q d r d', NotAllocate q → ServesAny q d r d' → Refuses q d r d' :=
    fun _ _ _ _ => refuses_of_notAllocate
  unfold extendBlob
  refine tells_bind_of_sendsOnly hST (sendsOnly_deref _ _) fun info => ?_
  dsimp only
  split
  · exact tells_of_sendsOnly hST trivial
  refine tells_bind_of_sendsOnly hST (fun _ => trivial) fun c => ?_
  refine tells_bind_of_sendsOnly hST (sendsOnly_shuffle _) fun available => ?_
  split
  · exact tells_of_sendsOnly hST trivial
  refine tells_bind_of_sendsOnly hST (sendsOnly_selectTargets _ _ _ _ _) fun selected => ?_
  generalize (if level > 0 then
    selected.filter (fun t => !(t.persistenceLevel.toInt < level)) else selected) = ordered
  split
  · exact tells_of_sendsOnly hST trivial
  refine tells_bind (tells_allocateLoop _ _ _) (fun left => ?_) fun left => ?_
  · split
    · exact tells_of_sendsOnly hST trivial
    · exact tells_of_sendsOnly hST trivial
  · split
    · exact keeps_ret (fun _ => id) _
    · exact keeps_ret (fun _ => id) _

theorem sendsOnly_logBlocks (P : Request → Prop) (t : PutBlobTask) (ptr : BlobPtr) :
    SendsOnly P (logBlocks t ptr) := by
  refine sendsOnly_bind (sendsOnly_deref _ _) fun info => ?_
  split
  · trivial
  · exact fun _ _ => trivial

theorem grows_logBlocks (t : PutBlobTask) (ptr : BlobPtr) : Keeps S Grows (logBlocks t ptr) := by
  refine keeps_bind Grows.trans (grows_deref ptr) fun info => ?_
  split
  · exact keeps_ret Grows.refl _
  · intro w u w' h
    obtain ⟨worker, hw'⟩ := runs_logBlobTxn.mp h
    rw [hw']
    exact .of_same rfl rfl id

theorem sendsOnly_modifyExistingData (blocks : List BlobBlock) (data : Nat → UInt8)
    (size offset : UInt64) :
    SendsOnly NotAllocate (modifyExistingData blocks data size offset) := by
  refine sendsOnly_bind ⟨?_, fun _ => trivial⟩ fun _ => trivial
  intro q hq n hop
  obtain ⟨p, _, hqp⟩ := List.mem_map.mp hq
  rw [← hqp] at hop
  simp [Piece.writeRequest] at hop

theorem grows_modifyExistingData (blocks : List BlobBlock) (data : Nat → UInt8)
    (size offset : UInt64) : Keeps S Grows (modifyExistingData blocks data size offset) := by
  refine keeps_bind Grows.trans ?_ fun _ => keeps_ret Grows.refl _
  intro w rs w' h
  obtain ⟨_, _, _, hc⟩ := runs_callAll.mp h
  exact .of_same (by rw [hc]) (by rw [hc]) (by rw [hc]; exact id)

theorem changeTagTotal_frame (c : Container) (tagId : TagId) (newSize oldSize : UInt64) :
    (c.changeTagTotal tagId newSize oldSize).targets = c.targets ∧
      (c.changeTagTotal tagId newSize oldSize).dangling = c.dangling := by
  unfold Container.changeTagTotal
  split
  · exact ⟨rfl, rfl⟩
  · dsimp only
    split
    · exact ⟨rfl, rfl⟩
    · exact ⟨rfl, rfl⟩

theorem dropFromTagTotal_frame (c : Container) (tagId : TagId) (blobSize : UInt64) :
    (c.dropFromTagTotal tagId blobSize).targets = c.targets ∧
      (c.dropFromTagTotal tagId blobSize).dangling = c.dangling := by
  unfold Container.dropFromTagTotal
  split
  · exact ⟨rfl, rfl⟩
  · exact ⟨rfl, rfl⟩

theorem logExtend_targets (c : Container) (worker : Nat) (t : PutBlobTask)
    (blocks : List BlobBlock) : (c.logExtend worker t blocks).targets = c.targets := by
  unfold Container.logExtend
  split
  · rfl
  · rfl

theorem logExtend_dangling (c : Container) (worker : Nat) (t : PutBlobTask)
    (blocks : List BlobBlock) : (c.logExtend worker t blocks).dangling = c.dangling := by
  unfold Container.logExtend
  split
  · rfl
  · rfl

theorem grows_putFinish (t : PutBlobTask) (blobScore : F32) (ptr : BlobPtr) (old : UInt64) :
    Keeps S Grows (putFinish t blobScore ptr old) := by
  refine keeps_bind Grows.trans (grows_updateBlob fun info => ⟨[], by simp⟩) fun _ => ?_
  refine keeps_bind Grows.trans (grows_deref ptr) fun info => ?_
  intro w u w' h
  rw [TaskResume.modifyContainer, runs_modify] at h
  subst h
  obtain ⟨htargets, hdangling⟩ := changeTagTotal_frame w.c t.tagId info.getTotalSize old
  exact .of_same (changeTagTotal_blobs _ _ _ _) htargets fun hd => hdangling.trans hd

theorem tells_putStore (cfg : Config) (t : PutBlobTask) (data : Nat → UInt8) (blobScore : F32)
    (ptr : BlobPtr) (old : UInt64) :
    Tells ServesAny Refuses (fun w => Granted w.c) (putStore cfg t data blobScore ptr old) := by
  have hST : ∀ q d r d', NotAllocate q → ServesAny q d r d' → Refuses q d r d' :=
    fun _ _ _ _ => refuses_of_notAllocate
  unfold putStore
  refine tells_bind (tells_extendBlob _ _ _ _ _ _) (fun err => ?_) fun err => ?_
  · refine tells_of_sendsOnly hST ?_
    split
    · trivial
    refine sendsOnly_bind (sendsOnly_logBlocks _ _ _) fun _ => ?_
    refine sendsOnly_bind (sendsOnly_deref _ _) fun info => ?_
    refine sendsOnly_bind (sendsOnly_modifyExistingData _ _ _ _) fun werr => ?_
    split
    · trivial
    · refine sendsOnly_bind (sendsOnly_bind (fun _ => trivial) fun _ => ?_) fun _ => trivial
      exact sendsOnly_bind (sendsOnly_deref _ _) fun _ _ => trivial
  · have hgrows : Keeps ServesAny Grows (if err ≠ 0 then pure (10 + err) else do
        logBlocks t ptr
        let info ← deref ptr
        let writeResult ← modifyExistingData info.blocks data t.size t.offset
        if writeResult ≠ 0 then return 20 + writeResult
        else do
          putFinish t blobScore ptr old
          return 0) := by
      split
      · exact keeps_ret Grows.refl _
      refine keeps_bind Grows.trans (grows_logBlocks _ _) fun _ => ?_
      refine keeps_bind Grows.trans (grows_deref _) fun info => ?_
      refine keeps_bind Grows.trans (grows_modifyExistingData _ _ _ _) fun werr => ?_
      split
      · exact keeps_ret Grows.refl _
      · exact keeps_bind Grows.trans (grows_putFinish _ _ _ _) fun _ => keeps_ret Grows.refl _
    exact fun w a w' h => (hgrows w a w' h).granted

/-- A put whose allocation was not refused leaves a block. -/
theorem tells_putBlob (cfg : Config) (t : PutBlobTask) :
    Tells ServesAny Refuses (fun w => Granted w.c) (putBlob cfg t) := by
  have hST : ∀ q d r d', NotAllocate q → ServesAny q d r d' → Refuses q d r d' :=
    fun _ _ _ _ => refuses_of_notAllocate
  unfold putBlob
  split
  · exact tells_of_sendsOnly hST trivial
  cases t.blobData with
  | none => exact tells_of_sendsOnly hST trivial
  | some data =>
    dsimp only
    split
    · exact tells_of_sendsOnly hST trivial
    rename_i hname
    have hcheck : SendsOnly NotAllocate (checkBlobExists t.blobName t.tagId) := by
      unfold checkBlobExists
      rw [if_neg hname]
      exact fun _ => trivial
    refine tells_bind_of_sendsOnly hST hcheck fun found => ?_
    have hscore : SendsOnly NotAllocate (resolveScore t.score found) := by
      unfold resolveScore
      split
      · cases found with
        | some ptr => exact sendsOnly_bind (sendsOnly_deref _ _) fun _ => trivial
        | none => trivial
      · trivial
    refine tells_bind_of_sendsOnly hST hscore fun blobScore => ?_
    split
    · exact tells_of_sendsOnly hST trivial
    cases found with
    | some ptr =>
      exact tells_bind_of_sendsOnly hST (sendsOnly_putClear _ _ _) fun old =>
        tells_putStore _ _ _ _ _ _
    | none =>
      have hcreate : SendsOnly NotAllocate (createNewBlob t.blobName t.tagId blobScore) := by
        unfold createNewBlob
        rw [if_neg hname]
        exact fun _ _ => fun _ _ => trivial
      refine tells_bind_of_sendsOnly hST hcreate fun r => ?_
      cases r with
      | none => exact tells_of_sendsOnly hST trivial
      | some ptr => exact tells_putStore _ _ _ _ _ _

/-! ### States without blocks -/

/-- Targets as they were registered, and no blob with a block. -/
structure Idle (registered : Targets) (c : Container) : Prop where
  blocks : ∀ key blocks, c.blocks? key = some blocks → blocks = []
  targets : c.targets = registered
  dangling : c.dangling = false

section

variable {registered : Targets} {c c' : Container}

theorem Idle.usedOn (h : Idle registered c) (p : PoolId) : c.usedOn p = 0 := by
  have hnil : c.allBlocks = [] := by
    rw [Container.allBlocks, blocksOf, List.flatMap_eq_nil_iff]
    intro e he
    refine h.blocks e.1 _ ?_
    rw [Container.blocks?, AMap.find?_eq_some_iff.mpr he]
    rfl
  rw [Container.usedOn, hnil]
  rfl

theorem Idle.balanced (h : Idle registered c) : Balanced registered c := by
  intro p info hinfo
  rw [h.targets, h.usedOn p]
  exact ⟨info, hinfo, rfl⟩

/-- The sum over a list is at least each of its members. -/
theorem size_le_usedOn {key : Bytes} {blocks : List BlobBlock} {b : BlobBlock}
    (hblocks : c.blocks? key = some blocks) (hb : b ∈ blocks) :
    b.size.toNat ≤ c.usedOn b.bdevClient := by
  obtain ⟨node, hfind, hnode⟩ := Option.map_eq_some_iff.mp hblocks
  have hmem : b ∈ c.allBlocks := mem_blocksOf hfind (by rw [hnode]; exact hb)
  refine List.le_sum_of_mem ?_
  exact List.mem_map.mpr ⟨b, List.mem_filter.mpr ⟨hmem, by simp⟩, rfl⟩

/-- In a balance that nothing was taken from, no block can be seen. -/
theorem not_granted_of_balanced (htargets : c.targets = registered) (hdangling : c.dangling = false)
    (h : Balanced registered c) : ¬Granted c := by
  rintro (hd | ⟨key, blocks, b, hblocks, hb, htarget, hsize⟩)
  · rw [hdangling] at hd
    simp at hd
  · obtain ⟨info, hinfo⟩ := Option.isSome_iff_exists.mp htarget
    rw [htargets] at hinfo
    obtain ⟨info', hfind, hsum⟩ := h _ info hinfo
    rw [htargets, hinfo, Option.some.injEq] at hfind
    subst hfind
    have hle := size_le_usedOn hblocks hb
    apply hsize
    rw [← UInt64.toNat_inj]
    show b.size.toNat = 0
    omega

theorem Idle.of_same (h : Idle registered c) (hblobs : c'.blobs = c.blobs)
    (htargets : c'.targets = c.targets) (hdangling : c'.dangling = c.dangling) :
    Idle registered c' := by
  refine ⟨?_, htargets.trans h.targets, hdangling.trans h.dangling⟩
  intro key blocks hblocks
  rw [Container.blocks?, hblobs] at hblocks
  exact h.blocks key blocks hblocks

theorem Idle.assign (h : Idle registered c) {key : Bytes} {node : BlobNode}
    (hnode : node.info.blocks = []) (hblobs : c'.blobs = c.blobs.insertOrAssign key node)
    (htargets : c'.targets = c.targets) (hdangling : c'.dangling = c.dangling) :
    Idle registered c' := by
  refine ⟨?_, htargets.trans h.targets, hdangling.trans h.dangling⟩
  intro k blocks hblocks
  rw [Container.blocks?, hblobs] at hblocks
  by_cases hk : k = key
  · rw [hk, AMap.find?_insertOrAssign_self, Option.map_some, Option.some.injEq] at hblocks
    rw [← hblocks, hnode]
  · rw [AMap.find?_insertOrAssign_of_ne _ _ hk] at hblocks
    exact h.blocks k blocks hblocks

theorem Idle.nil_of_pointsTo (h : Idle registered c) {ptr : BlobPtr} {info : BlobInfo}
    (hptr : c.PointsTo ptr info) : info.blocks = [] := by
  refine h.blocks ptr.key _ ?_
  rw [Container.blocks?, hptr]
  rfl

/-- A blob without blocks is never cleared. -/
theorem not_clears_of_nil {s : F32} {offset : UInt64} {info : BlobInfo} (h : info.blocks = []) :
    ¬Clears s offset info := by
  intro hclears
  apply hclears.2.2
  rw [BlobInfo.getTotalSize, h]
  rfl

end

section

variable {registered : Targets}

variable {info : BlobInfo} {ptr : BlobPtr} {t : PutBlobTask} {rc : UInt32}

theorem Prepared.idle {s : F32} {old : UInt64}
    (h : Idle registered w.c) (hprep : Prepared S t s w ptr info old w') :
    Idle registered w'.c := by
  cases hprep with
  | kept _ _ => exact h
  | cleared hfind hclears _ _ =>
    exact absurd hclears (not_clears_of_nil (h.nil_of_pointsTo (pointsTo_of_find hfind)))
  | created _ => exact h.assign rfl rfl rfl rfl

theorem Extended.idle {required : UInt64} {err : UInt32}
    (h : Idle registered w.c) (hext : Extended Refuses w ptr info required err w') :
    Idle registered w'.c := by
  cases hext with
  | fits _ => exact h
  | failed _ _ _ => exact h.of_same rfl rfl rfl
  | grown _ hgrants =>
    obtain ⟨_, _, _, r, b, rest, _, hserve, hblocks, _⟩ := hgrants
    rw [hserve.2 _ rfl] at hblocks
    simp at hblocks

theorem PutOutcome.idle (h : Idle registered w.c)
    (hput : PutOutcome Refuses t w rc w') : Idle registered w'.c := by
  cases hput with
  | rejected _ _ => exact h
  | @worked data ptr info old w₁ _ _ _ _ hprep hstored =>
    have h₁ := hprep.idle h
    cases hstored with
    | noSpace _ hext => exact hext.idle h₁
    | @short info₁ w₂ worker err d hext hptr _ _ =>
      exact (hext.idle h₁).of_same (logExtend_blobs _ _ _ _) (logExtend_targets _ _ _ _)
        (logExtend_dangling _ _ _ _)
    | @done info₁ w₂ worker d hext hptr _ =>
      have h₂ := hext.idle h₁
      obtain ⟨htargets, hdangling⟩ := changeTagTotal_frame
        ((w₂.c.logExtend worker t info₁.blocks).setBlob _ (finishedBlob t _ info₁)) t.tagId
        info₁.getTotalSize _
      have hnil : info₁.blocks = [] := h₂.nil_of_pointsTo hptr
      refine @Idle.assign _ _ _ h₂ ptr.key ⟨ptr.addr, finishedBlob t
        (t.scoreFor (w.c.blobs.find? t.key)) info₁⟩ hnil ?_ ?_ ?_
      · rw [changeTagTotal_blobs, Container.setBlob, logExtend_blobs]
      · exact htargets.trans (logExtend_targets _ _ _ _)
      · exact hdangling.trans (logExtend_dangling _ _ _ _)

theorem Extended.frame {required : UInt64} {err : UInt32}
    (hext : Extended S w ptr info required err w') :
    w'.c.targets = w.c.targets ∧ w'.c.dangling = w.c.dangling := by
  cases hext with
  | fits _ => exact ⟨rfl, rfl⟩
  | failed _ _ _ => exact ⟨rfl, rfl⟩
  | grown _ _ => exact ⟨rfl, rfl⟩

/-- A put that clears nothing leaves the targets alone. -/
theorem PutOutcome.targets (h : Idle registered w.c)
    (hput : PutOutcome S t w rc w') : w'.c.targets = registered ∧ w'.c.dangling = false := by
  cases hput with
  | rejected _ _ => exact ⟨h.targets, h.dangling⟩
  | worked _ _ hprep hstored =>
    have h₁ := hprep.idle h
    cases hstored with
    | noSpace _ hext =>
      obtain ⟨ht, hd⟩ := hext.frame
      exact ⟨ht.trans h₁.targets, hd.trans h₁.dangling⟩
    | short hext _ _ _ =>
      obtain ⟨ht, hd⟩ := hext.frame
      exact ⟨(logExtend_targets _ _ _ _).trans (ht.trans h₁.targets),
        (logExtend_dangling _ _ _ _).trans (hd.trans h₁.dangling)⟩
    | @done info₁ w₂ worker d hext _ _ =>
      obtain ⟨ht, hd⟩ := hext.frame
      obtain ⟨htargets, hdangling⟩ := changeTagTotal_frame
        ((w₂.c.logExtend worker t info₁.blocks).setBlob _ (finishedBlob t _ info₁)) t.tagId
        info₁.getTotalSize _
      exact ⟨htargets.trans ((logExtend_targets _ _ _ _).trans (ht.trans h₁.targets)),
        hdangling.trans ((logExtend_dangling _ _ _ _).trans (hd.trans h₁.dangling))⟩

/-- Nothing is freed of a blob without blocks. -/
theorem runs_freeAllBlobBlocks_nil (hptr : w.c.PointsTo ptr info) (hnil : info.blocks = [])
    (h : Runs S (freeAllBlobBlocks ptr) w rc w') :
    w' = ⟨w.c.setBlob ptr { info with blocks := [] }, w.d⟩ := by
  simp only [freeAllBlobBlocks, bind_eq, pure_eq, runs_bind, runs_deref hptr, runs_ret,
    freeByPool] at h
  obtain ⟨got, w₁, ⟨hgot, hw₁⟩, _, w₂, ⟨groups, w₃, hshuffle, hfree⟩, _, w₄, hupdate, _, hw'⟩ := h
  subst hgot
  subst hw₁
  obtain ⟨hperm, hw₃⟩ := runs_shuffle hshuffle
  rw [hnil] at hperm
  have hgroups : groups = [] := List.perm_nil.mp hperm
  subst hgroups
  have hw₂ : w₂ = w₃ := hfree.2
  rw [hw₂, hw₃, runs_updateBlob hptr] at hupdate
  rw [hw', hupdate]

theorem idle_delBlob {tagId : TagId} {blobName : Bytes}
    (h : Idle registered w.c) (hdel : Runs S (delBlob tagId blobName) w rc w') :
    Idle registered w'.c := by
  unfold delBlob at hdel
  by_cases hname : blobName.isEmpty = true
  · rw [if_pos hname] at hdel
    rw [hdel.2]
    exact h
  rw [if_neg hname] at hdel
  have hname' : blobName.isEmpty = false := by simpa using hname
  simp only [bind_eq, pure_eq, runs_bind, runs_checkBlobExists hname'] at hdel
  obtain ⟨found, w₁, ⟨hfound, hw₁⟩, hdel⟩ := hdel
  subst hw₁
  subst hfound
  cases hfind : w₁.c.blobs.find? (compositeKey tagId blobName) with
  | none =>
    rw [hfind] at hdel
    rw [hdel.2]
    exact h
  | some node =>
    rw [hfind] at hdel
    have hptr := pointsTo_of_find hfind
    simp only [Option.map_some, runs_bind, runs_deref hptr, TaskResume.modifyContainer,
      runs_modify, runs_logBlobTxn, runs_ret] at hdel
    obtain ⟨got, w₂, ⟨hgot, hw₂⟩, rc', w₃, hfree, _, w₄, hw₄, _, w₅, hw₅, _, w₆,
      ⟨worker, hw₆⟩, _, hw'⟩ := hdel
    subst hgot
    subst hw₂
    have hw₃ := runs_freeAllBlobBlocks_nil hptr (h.nil_of_pointsTo hptr) hfree
    have h₃ : Idle registered w₃.c := by
      rw [hw₃]
      exact h.assign rfl rfl rfl rfl
    obtain ⟨htargets, hdangling⟩ := dropFromTagTotal_frame w₃.c tagId node.info.getTotalSize
    have hblobs := dropFromTagTotal_blobs w₃.c tagId node.info.getTotalSize
    rw [hw', hw₆, hw₅, hw₄]
    refine ⟨?_, htargets.trans h₃.targets, hdangling.trans h₃.dangling⟩
    intro key blocks hblocks
    by_cases hkey : key = compositeKey tagId blobName
    · simp only [Container.blocks?, Container.logBlob, hkey, AMap.find?_erase_self,
        Option.map_none] at hblocks
      simp at hblocks
    · simp only [Container.blocks?, Container.logBlob, AMap.find?_erase_of_ne _ hkey,
        hblobs] at hblocks
      exact h₃.blocks key blocks hblocks

end

/-! ### The balance over a run -/

/-- The tasks the balance is about. -/
def Task.PutsOrDeletes : Task → Prop
  | .putBlob _ => True
  | .delBlob _ _ => True
  | _ => False

section

variable {registered : Targets} {cfg : Config} {t : Task}

/-- A step that keeps the balance was refused what it asked for. -/
theorem refused_of_balanced (hidle : Idle registered w.c) (ht : t.PutsOrDeletes)
    (hran : Ran ServesAny cfg t w w') (hbalanced : Balanced registered w'.c) :
    Ran Refuses cfg t w w' := by
  obtain ⟨rc, hrun⟩ := hran
  cases t with
  | putBlob t =>
    refine ⟨rc, ?_⟩
    have hout := (runs_putBlob hrun).targets hidle
    refine (tells_putBlob cfg t _ _ _ hrun).resolve_left ?_
    exact not_granted_of_balanced hout.1 hout.2 hbalanced
  | delBlob tagId blobName =>
    exact ⟨rc, hrun.restrict (fun _ _ _ _ => refuses_of_notAllocate)
      (sendsOnly_delBlob tagId blobName)⟩
  | getOrCreateTag tagName preferredId => exact ht.elim
  | delTag tagId tagName => exact ht.elim
  | getBlob t => exact ht.elim
  | reorganizeBlob t => exact ht.elim
  | flushData level => exact ht.elim

/-- A step that is refused what it asks for leaves no block. -/
theorem idle_of_refused (hidle : Idle registered w.c) (ht : t.PutsOrDeletes)
    (hran : Ran Refuses cfg t w w') : Idle registered w'.c := by
  obtain ⟨rc, hrun⟩ := hran
  cases t with
  | putBlob t => exact (runs_putBlob hrun).idle hidle
  | delBlob tagId blobName => exact idle_delBlob hidle hrun
  | getOrCreateTag tagName preferredId => exact ht.elim
  | delTag tagId tagName => exact ht.elim
  | getBlob t => exact ht.elim
  | reorganizeBlob t => exact ht.elim
  | flushData level => exact ht.elim

end

/-- A check that refuses the allocations of a scripted run. -/
def checkRefused (e : Bdev.Outcome) (q : Request) (d : Devices) : Bool :=
  match q.op with
  | .allocateBlocks _ => (Devices.serve e q d).1.blocks.isEmpty
  | _ => true

theorem refuses_of_check (e : Bdev.Outcome) (q : Request) (d : Devices)
    (h : checkRefused e q d = true) :
    Refuses q d (Devices.serve e q d).1 (Devices.serve e q d).2 := by
  refine ⟨⟨e, rfl⟩, ?_⟩
  intro size hop
  rw [checkRefused, hop] at h
  exact List.isEmpty_iff.mp h

/-- No blob has a block yet, and every target has all of its capacity. -/
theorem idle_create (targets : Targets) (numLogs : Nat) :
    Idle targets (Container.create targets numLogs) := by
  refine ⟨?_, rfl, rfl⟩
  intro key blocks h
  simp [Container.create, Container.blocks?, AMap.empty, AMap.find?] at h

/--
**The balance holds exactly as long as nothing is allocated.**  A run of puts and deletes on
newly registered targets keeps remaining space and blocks of every target equal to its
capacity in all its states if and only if the devices refused every allocation in it.
-/
theorem balanced_iff_refused {cfg : Config} {targets : Targets} {numLogs : Nat} {d : Devices}
    {ts : List Task} (hts : ∀ t ∈ ts, t.PutsOrDeletes) :
    Along (fun t v v' => Ran ServesAny cfg t v v' ∧ Balanced targets v'.c) ts
        ⟨Container.create targets numLogs, d⟩ w' ↔
      Along (Ran Refuses cfg) ts ⟨Container.create targets numLogs, d⟩ w' := by
  have hiff : ∀ {ts : List Task} {w : World Container Devices}, (∀ t ∈ ts, t.PutsOrDeletes) →
      Idle targets w.c →
      (Along (fun t v v' => Ran ServesAny cfg t v v' ∧ Balanced targets v'.c) ts w w' ↔
        Along (Ran Refuses cfg) ts w w') := by
    intro ts
    induction ts with
    | nil => exact fun _ _ => Iff.rfl
    | cons t ts ih =>
      intro w hts hidle
      have ht := hts t (by simp)
      have hrest := fun t' ht' => hts t' (List.mem_cons_of_mem t ht')
      refine ⟨?_, ?_⟩
      · rintro ⟨v, ⟨hran, hbalanced⟩, halong⟩
        have hrefused := refused_of_balanced hidle ht hran hbalanced
        exact ⟨v, hrefused, (ih hrest (idle_of_refused hidle ht hrefused)).mp halong⟩
      · rintro ⟨v, hrefused, halong⟩
        have hidle' := idle_of_refused hidle ht hrefused
        refine ⟨v, ⟨?_, hidle'.balanced⟩, (ih hrest hidle').mpr halong⟩
        obtain ⟨rc, hrun⟩ := hrefused
        exact ⟨rc, hrun.mono fun _ _ _ _ hs => hs.1⟩
  exact hiff hts (idle_create targets numLogs)

/-- A put of more than the device holds is refused and leaves the balance. -/
theorem balanced_iff_refused_tooLong :
    Balanced smallTargets
      (runAll smallConfig [.putBlob (smallPut [1] 0 20971520 2)] smallEngine).c := by
  have hrun := (@balanced_iff_refused
    (runAll smallConfig [.putBlob (smallPut [1] 0 20971520 2)] smallEngine) smallConfig
    smallTargets 1 smallRam [.putBlob (smallPut [1] 0 20971520 2)] (by simp [Task.PutsOrDeletes])).mpr
    (along_runAll refuses_of_check _ (by decide +kernel))
  obtain ⟨v, ⟨_, hbalanced⟩, hv⟩ := hrun
  rw [hv]
  exact hbalanced

/-- After one put of five bytes the target claims to have all its capacity left. -/
theorem unbalanced_put :
    ∃ w', Along (Ran ServesAny smallConfig) [.putBlob (smallPut [1] 0 5 7)] smallEngine w' ∧
      ¬Balanced smallTargets w'.c := by
  refine ⟨_, along_runAll servesAny_of_check _ (by decide +kernel), ?_⟩
  intro hbalanced
  obtain ⟨info', hfind, hsum⟩ := hbalanced ramPool
    ⟨ramPool, default, F32.one, 10485760, default, .volatile⟩ rfl
  have hsame : (runAll smallConfig [.putBlob (smallPut [1] 0 5 7)] smallEngine).c.targets.find?
      ramPool = some ⟨ramPool, default, F32.one, 10485760, default, .volatile⟩ := by
    decide +kernel
  have hused : (runAll smallConfig [.putBlob (smallPut [1] 0 5 7)] smallEngine).c.usedOn ramPool =
      5 := by decide +kernel
  rw [hsame, Option.some.injEq] at hfind
  rw [← hfind, hused] at hsum
  exact absurd hsum (by decide)

end Cte
end IowarpCore
