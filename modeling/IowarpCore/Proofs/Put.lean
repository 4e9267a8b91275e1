/-
A put from its start to its end.

A put that is not rejected goes through three stages, and `PutOutcome` says for each way
it can end which stages it went through and what it left behind.  `Prepared` is the
blob as the put starts to work on it: kept, cleared or new.  `Extended` is what became
of the allocation.  Then the data is written, and only a put whose writes were all
complete updates the metadata.

Everything later about puts is read off `runs_putBlob`.
-/
import IowarpCore.Proofs.Programs

namespace IowarpCore
namespace Cte

open Bdev (Request Reply)
open Co

variable {δ : Type} {S : Request → δ → Reply → δ → Prop} {w w' : World Container δ}

/-! ### The blob a put works on -/

def PutBlobTask.key (t : PutBlobTask) : Bytes := compositeKey t.tagId t.blobName

/-- The score a put goes by, given the blob it finds. -/
def PutBlobTask.scoreFor (t : PutBlobTask) (found : Option BlobNode) : F32 :=
  if t.score.lt F32.zero then (found.map fun node => node.info.score).getD F32.one else t.score

/-- What a put does not even look at. -/
def PutBlobTask.Rejected (t : PutBlobTask) (c : Container) : Prop :=
  t.size = 0 ∨ t.blobData = none ∨ t.blobName.isEmpty = true ∨
    F32.one.lt (t.scoreFor (c.blobs.find? t.key)) = true

/-- The entry of a blob that was just created. -/
def newBlob (blobName : Bytes) (blobScore : F32) : BlobInfo :=
  { (default : BlobInfo) with blobName := blobName, score := blobScore }

/-- The container with a new, empty blob. -/
def Container.addBlob (c : Container) (key : Bytes) (info : BlobInfo) : Container :=
  { c with blobs := c.blobs.insertOrAssign key ⟨c.nextAddr, info⟩, nextAddr := c.nextAddr + 1 }

def clearTxn (t : PutBlobTask) : Wal.Txn := .clearBlob ⟨t.tagId.major, t.tagId.minor, t.blobName⟩

def createTxn (t : PutBlobTask) (blobScore : F32) : Wal.Txn :=
  .createNewBlob ⟨t.tagId.major, t.tagId.minor, t.blobName, blobScore⟩

def extendTxn (t : PutBlobTask) (blocks : List BlobBlock) : Wal.Txn :=
  .extendBlob ⟨t.tagId.major, t.tagId.minor, t.blobName, blocks.map blockTxn⟩

/-- The stage before the allocation: the blob, the size that counts as its old size, and
the world. -/
inductive Prepared (S : Request → δ → Reply → δ → Prop) (t : PutBlobTask)
    (blobScore : F32) (w : World Container δ) :
    BlobPtr → BlobInfo → UInt64 → World Container δ → Prop
  | kept {node : BlobNode} : w.c.blobs.find? t.key = some node →
      ¬Clears blobScore t.offset node.info →
      Prepared S t blobScore w ⟨t.key, node.addr⟩ node.info node.info.getTotalSize w
  | cleared {node : BlobNode} {targets : Targets} {worker : Nat} {d : δ} :
      w.c.blobs.find? t.key = some node → Clears blobScore t.offset node.info →
      SameLevels w.c.targets targets → FreesBlocks S node.info.blocks w.d d →
      Prepared S t blobScore w ⟨t.key, node.addr⟩ { node.info with blocks := [] } 0
        ⟨({ w.c with targets := targets }.setBlob ⟨t.key, node.addr⟩
          { node.info with blocks := [] }).logBlob worker (clearTxn t), d⟩
  | created {worker : Nat} : w.c.blobs.find? t.key = none →
      Prepared S t blobScore w ⟨t.key, w.c.nextAddr⟩ (newBlob t.blobName blobScore) 0
        ⟨(w.c.addBlob t.key (newBlob t.blobName blobScore)).logBlob worker
          (createTxn t blobScore), w.d⟩

variable {blobScore : F32} {info : BlobInfo} {old : UInt64} {ptr : BlobPtr} {t : PutBlobTask}
  {data : Nat → UInt8} {cfg : Config} {rc : UInt32}

theorem Prepared.pointsTo (h : Prepared S t blobScore w ptr info old w') : w'.c.PointsTo ptr info := by
  cases h with
  | kept hfind _ => exact hfind
  | cleared _ _ _ _ => exact AMap.find?_insertOrAssign_self _ _ _
  | created _ => exact AMap.find?_insertOrAssign_self _ _ _

theorem Prepared.key (h : Prepared S t blobScore w ptr info old w') : ptr.key = t.key := by
  cases h <;> rfl

theorem runs_createNewBlob {blobName : Bytes} {tagId : TagId}
    {r : Option BlobPtr} (hname : blobName.isEmpty = false)
    (hfind : w.c.blobs.find? (compositeKey tagId blobName) = none)
    (h : Runs S (createNewBlob blobName tagId blobScore) w r w') :
    r = some ⟨compositeKey tagId blobName, w.c.nextAddr⟩ ∧
      ∃ worker, w' = ⟨(w.c.addBlob (compositeKey tagId blobName)
        (newBlob blobName blobScore)).logBlob worker
          (.createNewBlob ⟨tagId.major, tagId.minor, blobName, blobScore⟩), w.d⟩ := by
  unfold createNewBlob at h
  rw [if_neg (by simp [hname])] at h
  simp only [bind_eq, pure_eq, runs_bind, runs_ret, TaskResume.readContainer, runs_read,
    TaskResume.modifyContainer, runs_modify, runs_logBlobTxn] at h
  obtain ⟨c, w₁, ⟨hc, hw₁⟩, _, w₂, hw₂, _, w₃, ⟨worker, hw₃⟩, hr, hw'⟩ := h
  subst hw₁
  subst hc
  have hassign : w₁.c.assignBlob (compositeKey tagId blobName)
      { (default : BlobInfo) with blobName := blobName, score := blobScore } =
      (⟨compositeKey tagId blobName, w₁.c.nextAddr⟩,
        w₁.c.addBlob (compositeKey tagId blobName) (newBlob blobName blobScore)) := by
    unfold Container.assignBlob
    rw [hfind]
    rfl
  rw [hassign] at hw₂ hr
  exact ⟨hr, worker, by rw [hw', hw₃, hw₂]⟩

theorem runs_resolveScore {s : F32} (h : Runs S (resolveScore t.score ((w.c.blobs.find? t.key).map
      fun node => ⟨t.key, node.addr⟩)) w s w') :
    s = t.scoreFor (w.c.blobs.find? t.key) ∧ w' = w := by
  unfold resolveScore at h
  unfold PutBlobTask.scoreFor
  by_cases hneg : t.score.lt F32.zero = true
  · rw [if_pos hneg] at h ⊢
    cases hfind : w.c.blobs.find? t.key with
    | none =>
      rw [hfind] at h
      exact h
    | some node =>
      rw [hfind] at h
      simp only [Option.map_some, bind_eq, pure_eq, runs_bind, runs_ret,
        runs_deref (pointsTo_of_find hfind)] at h
      obtain ⟨got, w₁, ⟨hgot, hw₁⟩, hs, hw'⟩ := h
      subst hgot
      exact ⟨hs, hw'.trans hw₁⟩
  · rw [if_neg hneg] at h ⊢
    exact h

/-- The first step of a put on a blob that exists. -/
theorem runs_putClear_stages (hptr : w.c.PointsTo ptr info)
    (h : Runs S (putClear t blobScore ptr) w old w') :
    (¬Clears blobScore t.offset info ∧ old = info.getTotalSize ∧ w' = w) ∨
    (Clears blobScore t.offset info ∧ old = 0 ∧ ∃ w₁ worker,
      Runs S (freeAllBlobBlocks ptr) w 0 w₁ ∧ w' = ⟨w₁.c.logBlob worker (clearTxn t), w₁.d⟩) := by
  simp only [putClear, bind_eq, pure_eq, runs_bind] at h
  obtain ⟨cleared, w₁, hclear, h⟩ := h
  rcases runs_clearBlob_stages hptr hclear with ⟨hnot, hfalse, hw₁⟩ | ⟨hclears, htrue, hfree⟩
  · subst hfalse
    subst hw₁
    simp only [Bool.false_eq_true, if_false, runs_bind, runs_ret, runs_deref hptr] at h
    obtain ⟨got, w₂, ⟨hgot, hw₂⟩, hold, hw'⟩ := h
    subst hgot
    subst hw₂
    exact Or.inl ⟨hnot, hold, hw'⟩
  · subst htrue
    simp only [if_true, runs_bind, runs_ret, runs_logBlobTxn] at h
    obtain ⟨_, w₂, ⟨worker, hw₂⟩, hold, hw'⟩ := h
    rw [hw']
    exact Or.inr ⟨hclears, hold, w₁, worker, hfree, hw₂⟩

theorem runs_putClear {node : BlobNode} (hfind : w.c.blobs.find? t.key = some node)
    (h : Runs S (putClear t blobScore ⟨t.key, node.addr⟩) w old w') :
    ∃ info, Prepared S t blobScore w ⟨t.key, node.addr⟩ info old w' := by
  have hptr := pointsTo_of_find hfind
  rcases runs_putClear_stages hptr h with ⟨hnot, hold, hw'⟩ | ⟨hclears, hold, w₁, worker, hfree, hw'⟩
  · rw [hold, hw']
    exact ⟨_, .kept hfind hnot⟩
  · obtain ⟨_, targets, hlevels, hc, hfrees⟩ := runs_freeAllBlobBlocks hptr hfree
    rw [hold, hw', hc]
    exact ⟨_, .cleared hfind hclears hlevels hfrees⟩

/-! ### Writing and the end -/

/-- The writes of a put into the blocks. -/
def PutBlobTask.writes (t : PutBlobTask) (data : Nat → UInt8) (blocks : List BlobBlock) :
    List Request :=
  (ioPlan t.size t.offset blocks t.size 0).map (Piece.writeRequest data)

/-- The writes are served, in any order, and the put sees the error code `err`. -/
def Writes (S : Request → δ → Reply → δ → Prop) (qs : List Request) (err : UInt32)
    (d d' : δ) : Prop :=
  ∃ all, ServeAll S qs d all d' ∧ err = transferError qs (awaited fullTransfer qs all)

theorem runs_modifyExistingData {blocks : List BlobBlock}
    {err : UInt32} (h : Runs S (modifyExistingData blocks data t.size t.offset) w err w') :
    Writes S (t.writes data blocks) err w.d w'.d ∧ w'.c = w.c := by
  simp only [modifyExistingData, bind_eq, pure_eq, runs_bind, runs_callAll, runs_ret] at h
  obtain ⟨rs, w₁, ⟨all, hrs, hserve, hc⟩, herr, hw'⟩ := h
  subst hw'
  subst hrs
  exact ⟨⟨all, hserve, herr⟩, hc⟩

/-- The container after the record of all blocks, which is left out for an empty blob. -/
def Container.logExtend (c : Container) (worker : Nat) (t : PutBlobTask) (blocks : List BlobBlock) :
    Container :=
  if blocks.isEmpty then c else c.logBlob worker (extendTxn t blocks)

theorem runs_logBlocks {u : Unit}
    (hptr : w.c.PointsTo ptr info) (h : Runs S (logBlocks t ptr) w u w') :
    ∃ worker, w' = ⟨w.c.logExtend worker t info.blocks, w.d⟩ := by
  simp only [logBlocks, bind_eq, pure_eq, runs_bind, runs_deref hptr] at h
  obtain ⟨got, w₁, ⟨hgot, hw₁⟩, h⟩ := h
  subst hgot
  subst hw₁
  unfold Container.logExtend
  by_cases hempty : got.blocks.isEmpty = true
  · simp only [hempty, if_true, runs_ret] at h ⊢
    exact ⟨0, h.2⟩
  · simp only [hempty, Bool.false_eq_true, if_false, runs_logBlobTxn] at h ⊢
    exact h

/-- The entry of the blob when the put is done. -/
def finishedBlob (t : PutBlobTask) (blobScore : F32) (info : BlobInfo) : BlobInfo :=
  { info with
    compressLib := t.context.compressLib
    compressPreset := t.context.compressPreset
    traceKey := t.context.traceKey
    score := blobScore }

theorem runs_putFinish {u : Unit} (hptr : w.c.PointsTo ptr info)
    (h : Runs S (putFinish t blobScore ptr old) w u w') :
    w' = ⟨(w.c.setBlob ptr (finishedBlob t blobScore info)).changeTagTotal t.tagId
      info.getTotalSize old, w.d⟩ := by
  simp only [putFinish, bind_eq, runs_bind, runs_updateBlob hptr, TaskResume.modifyContainer,
    runs_modify] at h
  obtain ⟨_, w₁, hw₁, got, w₂, hderef, hw'⟩ := h
  subst hw₁
  rw [runs_deref (pointsTo_setBlob w.c ptr _)] at hderef
  obtain ⟨hgot, hw₂⟩ := hderef
  subst hw₂
  subst hgot
  exact hw'

/-- How the stages behind the preparation can end. -/
inductive Stored (S : Request → δ → Reply → δ → Prop) (t : PutBlobTask)
    (data : Nat → UInt8) (blobScore : F32) (ptr : BlobPtr) (info : BlobInfo) (old : UInt64)
    (w : World Container δ) : UInt32 → World Container δ → Prop
  | noSpace {err : UInt32} {w₁ : World Container δ} : err ≠ 0 →
      Extended S w ptr info (t.offset + t.size) err w₁ →
      Stored S t data blobScore ptr info old w (10 + err) w₁
  | short {info₁ : BlobInfo} {w₁ : World Container δ} {worker : Nat} {err : UInt32}
      {d : δ} : Extended S w ptr info (t.offset + t.size) 0 w₁ → w₁.c.PointsTo ptr info₁ →
      err ≠ 0 → Writes S (t.writes data info₁.blocks) err w₁.d d →
      Stored S t data blobScore ptr info old w (20 + err)
        ⟨w₁.c.logExtend worker t info₁.blocks, d⟩
  | done {info₁ : BlobInfo} {w₁ : World Container δ} {worker : Nat} {d : δ} :
      Extended S w ptr info (t.offset + t.size) 0 w₁ → w₁.c.PointsTo ptr info₁ →
      Writes S (t.writes data info₁.blocks) 0 w₁.d d →
      Stored S t data blobScore ptr info old w 0
        ⟨((w₁.c.logExtend worker t info₁.blocks).setBlob ptr
          (finishedBlob t blobScore info₁)).changeTagTotal t.tagId info₁.getTotalSize old, d⟩

/-- After a successful extension the pointer points to the blob, grown or not. -/
theorem Extended.pointsTo {err : UInt32} {required : UInt64} (hptr : w.c.PointsTo ptr info)
    (h : Extended S w ptr info required err w') : ∃ info₁, w'.c.PointsTo ptr info₁ := by
  cases h with
  | fits _ => exact ⟨info, hptr⟩
  | failed _ _ _ => exact ⟨info, hptr⟩
  | grown _ _ => exact ⟨_, AMap.find?_insertOrAssign_self _ _ _⟩

theorem logExtend_blobs (c : Container) (worker : Nat) (t : PutBlobTask)
    (blocks : List BlobBlock) : (c.logExtend worker t blocks).blobs = c.blobs := by
  unfold Container.logExtend
  by_cases h : blocks.isEmpty = true
  · rw [if_pos h]
  · rw [if_neg h]
    rfl

theorem logExtend_frame (c : Container) (worker : Nat) (t : PutBlobTask)
    (blocks : List BlobBlock) : (c.logExtend worker t blocks).tagIdToInfo = c.tagIdToInfo ∧
      (c.logExtend worker t blocks).wrapped = c.wrapped := by
  unfold Container.logExtend
  by_cases h : blocks.isEmpty = true
  · rw [if_pos h]
    exact ⟨rfl, rfl⟩
  · rw [if_neg h]
    exact ⟨rfl, rfl⟩

/-- The stages behind the preparation, as they run: the blob is extended, its blocks are
logged and the data is written, and then the metadata is updated. -/
theorem runs_putStore_stages
    (hptr : w.c.PointsTo ptr info) (h : Runs S (putStore cfg t data blobScore ptr old) w rc w') :
    ∃ err w₁, Runs S (extendBlob cfg ptr t.offset t.size blobScore t.context.minPersistenceLevel)
        w err w₁ ∧
      ((err ≠ 0 ∧ rc = 10 + err ∧ w' = w₁) ∨
        (err = 0 ∧ ∃ info₁ worker werr d, w₁.c.PointsTo ptr info₁ ∧
          Writes S (t.writes data info₁.blocks) werr w₁.d d ∧
          ((werr ≠ 0 ∧ rc = 20 + werr ∧ w' = ⟨w₁.c.logExtend worker t info₁.blocks, d⟩) ∨
            (werr = 0 ∧ rc = 0 ∧ w' = ⟨((w₁.c.logExtend worker t info₁.blocks).setBlob ptr
              (finishedBlob t blobScore info₁)).changeTagTotal t.tagId info₁.getTotalSize old,
              d⟩)))) := by
  simp only [putStore, bind_eq, pure_eq, runs_bind] at h
  obtain ⟨err, w₁, hextend, h⟩ := h
  refine ⟨err, w₁, hextend, ?_⟩
  by_cases herr : err = 0
  · subst herr
    obtain ⟨info₁, hptr₁⟩ := (runs_extendBlob hptr hextend).pointsTo hptr
    simp only [ne_eq, not_true_eq_false, if_false, runs_bind] at h
    obtain ⟨_, w₂, hlog, got, w₃, hderef, werr, w₄, hwrite, h⟩ := h
    obtain ⟨worker, hw₂⟩ := runs_logBlocks hptr₁ hlog
    have hptr₂ : w₂.c.PointsTo ptr info₁ := by
      rw [hw₂, Container.PointsTo, logExtend_blobs]
      exact hptr₁
    rw [runs_deref hptr₂] at hderef
    obtain ⟨hgot, hw₃⟩ := hderef
    subst hw₃
    subst hgot
    obtain ⟨hwrites, hc₄⟩ := runs_modifyExistingData hwrite
    obtain ⟨c₄, d₄⟩ := w₄
    simp only at hc₄
    rw [hw₂] at hwrites hc₄
    refine Or.inr ⟨rfl, got, worker, werr, d₄, hptr₁, hwrites, ?_⟩
    by_cases hwerr : werr = 0
    · subst hwerr
      simp only [not_true_eq_false, if_false, runs_bind, runs_ret] at h
      obtain ⟨_, w₅, hfinish, hrc, hw'⟩ := h
      have hptr₄ : (⟨c₄, d₄⟩ : World Container δ).c.PointsTo ptr got := by
        rw [hc₄, Container.PointsTo, logExtend_blobs]
        exact hptr₁
      have hw₅ := runs_putFinish hptr₄ hfinish
      exact Or.inr ⟨rfl, hrc, by rw [hw', hw₅, hc₄]⟩
    · rw [if_pos hwerr] at h
      obtain ⟨hrc, hw'⟩ := h
      exact Or.inl ⟨hwerr, hrc, by rw [hw', hc₄]⟩
  · rw [if_pos herr] at h
    obtain ⟨hrc, hw'⟩ := h
    exact Or.inl ⟨herr, hrc, hw'⟩

theorem runs_putStore (hptr : w.c.PointsTo ptr info)
    (h : Runs S (putStore cfg t data blobScore ptr old) w rc w') :
    Stored S t data blobScore ptr info old w rc w' := by
  obtain ⟨err, w₁, hextend, ⟨herr, hrc, hw'⟩ | ⟨herr, info₁, worker, werr, d, hptr₁, hwrites, hend⟩⟩ :=
    runs_putStore_stages hptr h
  · have hext := runs_extendBlob hptr hextend
    rw [hrc, hw']
    exact .noSpace herr hext
  · subst herr
    have hext := runs_extendBlob hptr hextend
    rcases hend with ⟨hwerr, hrc, hw'⟩ | ⟨hwerr, hrc, hw'⟩
    · rw [hrc, hw']
      exact .short hext hptr₁ hwerr hwrites
    · subst hwerr
      rw [hrc, hw']
      exact .done hext hptr₁ hwrites

/-! ### The whole put -/

/-- The ways a put can end. -/
inductive PutOutcome (S : Request → δ → Reply → δ → Prop) (t : PutBlobTask)
    (w : World Container δ) : UInt32 → World Container δ → Prop
  | rejected {rc : UInt32} : t.Rejected w.c → rc ≠ 0 → PutOutcome S t w rc w
  | worked {data : Nat → UInt8} {ptr : BlobPtr} {info : BlobInfo} {old : UInt64}
      {w₁ w' : World Container δ} {rc : UInt32} : ¬t.Rejected w.c → t.blobData = some data →
      Prepared S t (t.scoreFor (w.c.blobs.find? t.key)) w ptr info old w₁ →
      Stored S t data (t.scoreFor (w.c.blobs.find? t.key)) ptr info old w₁ rc w' →
      PutOutcome S t w rc w'

/-- The stage before the allocation, as it runs: the blob is found and perhaps cleared, or
it is created. -/
inductive Begins (S : Request → δ → Reply → δ → Prop) (t : PutBlobTask)
    (blobScore : F32) (w : World Container δ) :
    BlobPtr → UInt64 → World Container δ → Prop
  | found {node : BlobNode} {old : UInt64} {w₁ : World Container δ} :
      w.c.blobs.find? t.key = some node →
      Runs S (putClear t blobScore ⟨t.key, node.addr⟩) w old w₁ →
      Begins S t blobScore w ⟨t.key, node.addr⟩ old w₁
  | created {worker : Nat} : w.c.blobs.find? t.key = none →
      Begins S t blobScore w ⟨t.key, w.c.nextAddr⟩ 0
        ⟨(w.c.addBlob t.key (newBlob t.blobName blobScore)).logBlob worker
          (createTxn t blobScore), w.d⟩

theorem Begins.prepared
    (h : Begins S t blobScore w ptr old w') : ∃ info, Prepared S t blobScore w ptr info old w' := by
  cases h with
  | found hfind hclear => exact runs_putClear hfind hclear
  | created hfind => exact ⟨_, .created hfind⟩

/-- A put is rejected, or it begins and then stores its data. -/
theorem runs_putBlob_stages (h : Runs S (putBlob cfg t) w rc w') :
    (t.Rejected w.c ∧ rc ≠ 0 ∧ w' = w) ∨
    ∃ data ptr old w₁, ¬t.Rejected w.c ∧ t.blobData = some data ∧
      Begins S t (t.scoreFor (w.c.blobs.find? t.key)) w ptr old w₁ ∧
      Runs S (putStore cfg t data (t.scoreFor (w.c.blobs.find? t.key)) ptr old) w₁ rc w' := by
  unfold putBlob at h
  by_cases hsize : t.size = 0
  · rw [if_pos hsize] at h
    rw [h.1]
    exact Or.inl ⟨Or.inl hsize, by decide, h.2⟩
  rw [if_neg hsize] at h
  cases hdata : t.blobData with
  | none =>
    rw [hdata] at h
    rw [h.1]
    exact Or.inl ⟨Or.inr (Or.inl hdata), by decide, h.2⟩
  | some data =>
    rw [hdata] at h
    dsimp only at h
    by_cases hname : t.blobName.isEmpty = true
    · rw [if_pos hname] at h
      rw [h.1]
      exact Or.inl ⟨Or.inr (Or.inr (Or.inl hname)), by decide, h.2⟩
    rw [if_neg hname] at h
    have hname' : t.blobName.isEmpty = false := by simpa using hname
    simp only [bind_eq, pure_eq, runs_bind, runs_checkBlobExists hname'] at h
    obtain ⟨found, w₁, ⟨hfound, hw₁⟩, s, w₂, hscore, h⟩ := h
    subst hw₁
    subst hfound
    obtain ⟨hs, hw₂⟩ := runs_resolveScore hscore
    subst hw₂
    rw [hs] at h
    by_cases hbig : F32.one.lt (t.scoreFor (w₂.c.blobs.find? t.key)) = true
    · rw [if_pos hbig] at h
      rw [h.1]
      exact Or.inl ⟨Or.inr (Or.inr (Or.inr hbig)), by decide, h.2⟩
    rw [if_neg hbig] at h
    have hok : ¬t.Rejected w₂.c := by
      intro hrej
      rcases hrej with hrej | hrej | hrej | hrej
      · exact hsize hrej
      · rw [hdata] at hrej
        simp at hrej
      · exact hname hrej
      · exact hbig hrej
    have hkey : compositeKey t.tagId t.blobName = t.key := rfl
    rw [hkey] at h
    cases hfind : w₂.c.blobs.find? t.key with
    | some node =>
      rw [hfind] at h
      simp only [Option.map_some, runs_bind] at h
      obtain ⟨old, w₃, hclear, h⟩ := h
      exact Or.inr ⟨data, _, old, w₃, hok, rfl, .found hfind hclear, h⟩
    | none =>
      rw [hfind] at h
      simp only [Option.map_none, runs_bind] at h
      obtain ⟨r, w₃, hcreate, h⟩ := h
      obtain ⟨hr, worker, hw₃⟩ := runs_createNewBlob hname' hfind hcreate
      subst hr
      simp only at h
      have hbegins : Begins S t (t.scoreFor none) w₂ ⟨t.key, w₂.c.nextAddr⟩ 0 w₃ := by
        rw [hw₃]
        exact .created hfind
      exact Or.inr ⟨data, _, 0, w₃, hok, rfl, hbegins, h⟩

theorem runs_putBlob (h : Runs S (putBlob cfg t) w rc w') : PutOutcome S t w rc w' := by
  rcases runs_putBlob_stages h with ⟨hrej, hrc, hw'⟩ | ⟨data, ptr, old, w₁, hok, hdata, hbegins,
    hstore⟩
  · rw [hw']
    exact .rejected hrej hrc
  · obtain ⟨info, hprep⟩ := hbegins.prepared
    exact .worked hok hdata hprep (runs_putStore hprep.pointsTo hstore)

end Cte
end IowarpCore
