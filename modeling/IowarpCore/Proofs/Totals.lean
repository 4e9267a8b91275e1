/-
The total of a tag is the sum of its blobs, as long as no task throws blocks away.

`tagBytes` is the sum the totals stand for.  A put adds the difference between the size
it found and the size it leaves, and a delete takes the size it found off, so both keep
the totals right (`Stored.totals`, `DelOutcome.totals`).  Two things put them wrong.  A put that clears the
blob counts its old size as 0 while the total still holds it, and every move of
`ReorganizeBlob` and `FlushData` contains such a put.  And a put that grew the blob and
then failed to write it returns without touching the total.
`Accounted` names the tasks that do neither.  A reorganization or a flush is one of them where
the devices fail to give back what it would move.
-/
import IowarpCore.Proofs.Keys
import IowarpCore.Proofs.Atomicity
import IowarpCore.Cte.Metadata

namespace IowarpCore
namespace Cte

open Bdev (Request Reply Devices)
open Co

variable {S : Request → Devices → Reply → Devices → Prop} {w w' : World Container Devices}

/-! ### The sum over the blobs of a tag -/

/-- What an entry counts for a tag. -/
def share (tagId : TagId) (e : Bytes × BlobNode) : Nat :=
  if hasTagPrefix tagId e.1 then e.2.info.getTotalSize.toNat else 0

/-- The bytes of the blobs whose key carries the tag. -/
def tagBytes (m : AMap Bytes BlobNode) (tagId : TagId) : Nat := (m.entries.map (share tagId)).sum

section

variable {m : AMap Bytes BlobNode} {key : Bytes} {node : BlobNode} {tagId : TagId}

theorem tagBytes_of_find (h : m.find? key = some node) :
    tagBytes m tagId = share tagId (key, node) + tagBytes (m.erase key) tagId := by
  unfold tagBytes
  rw [((AMap.entries_perm_of_find h).map (share tagId)).sum_nat, List.map_cons, List.sum_cons]

theorem tagBytes_insertOrAssign :
    tagBytes (m.insertOrAssign key node) tagId =
      share tagId (key, node) + tagBytes (m.erase key) tagId := by
  unfold tagBytes
  rw [((AMap.insertOrAssign_perm m key node).map (share tagId)).sum_nat, List.map_cons,
    List.sum_cons]

theorem tagBytes_erase_of_find_none (h : m.find? key = none) :
    tagBytes (m.erase key) tagId = tagBytes m tagId := by
  rw [tagBytes, AMap.erase_entries_of_find_none h]
  rfl

theorem share_compositeKey (id : TagId) (blobName : Bytes) (node : BlobNode) :
    share id (compositeKey tagId blobName, node) =
      if id = tagId then node.info.getTotalSize.toNat else 0 := by
  unfold share
  by_cases h : id = tagId
  · rw [if_pos ((hasTagPrefix_compositeKey id tagId blobName).mpr h), if_pos h]
  · have hnot : ¬hasTagPrefix id (compositeKey tagId blobName) = true := fun hc =>
      h ((hasTagPrefix_compositeKey id tagId blobName).mp hc)
    rw [if_neg hnot, if_neg h]

end

/-- The sum the replay computes is this one, in 64 bits. -/
theorem blobTotal_toNat (c : Container) (tagId : TagId) :
    (c.blobTotal tagId).toNat = tagBytes c.blobs tagId % 2 ^ 64 := by
  have hfold : ∀ (es : List (Bytes × BlobNode)) (start : UInt64),
      (es.foldl (fun total e => if hasTagPrefix tagId e.1 then total + e.2.info.getTotalSize
        else total) start).toNat = (start.toNat + (es.map (share tagId)).sum) % 2 ^ 64 := by
    intro es
    induction es with
    | nil =>
      intro start
      have := start.toNat_lt
      rw [List.foldl_nil, List.map_nil, List.sum_nil]
      omega
    | cons e es ih =>
      intro start
      rw [List.foldl_cons, ih, List.map_cons, List.sum_cons, share]
      by_cases hp : hasTagPrefix tagId e.1 = true
      · rw [if_pos hp, if_pos hp, UInt64.toNat_add]
        omega
      · rw [if_neg hp, if_neg hp]
        omega
  have h := hfold c.blobs.entries 0
  rw [UInt64.toNat_zero, Nat.zero_add] at h
  exact h

/-! ### The invariant -/

/-- Every total is the sum, and no subtraction went below zero. -/
structure TotalsInv (c : Container) : Prop where
  totals : ∀ id info, c.tagIdToInfo.find? id = some info →
    info.totalSize.toNat = tagBytes c.blobs id
  wrapped : c.wrapped = false

variable {c c' : Container} {info : BlobInfo} {required : UInt64} {ptr : BlobPtr} {rc : UInt32}

/-- A step that leaves the sums, the tags and the flag alone. -/
theorem TotalsInv.frame (h : TotalsInv c)
    (hbytes : ∀ id, tagBytes c'.blobs id = tagBytes c.blobs id)
    (htags : c'.tagIdToInfo = c.tagIdToInfo) (hwrapped : c'.wrapped = c.wrapped) :
    TotalsInv c' where
  totals id info hfind := by
    rw [hbytes]
    rw [htags] at hfind
    exact h.totals id info hfind
  wrapped := by
    rw [hwrapped]
    exact h.wrapped

/-- A step that gives the total of one tag a new value, which is its new sum. -/
theorem TotalsInv.setTotal (tagId : TagId) (total : UInt64) (h : TotalsInv c)
    (htags : c'.tagIdToInfo = c.tagIdToInfo.mapVal fun id info =>
      if id = tagId then { info with totalSize := total } else info)
    (hwrapped : c'.wrapped = false)
    (hsame : ∀ id, id ≠ tagId → tagBytes c'.blobs id = tagBytes c.blobs id)
    (htotal : total.toNat = tagBytes c'.blobs tagId) : TotalsInv c' where
  totals id info hfind := by
    rw [htags, AMap.find?_mapVal] at hfind
    obtain ⟨info₀, hfind₀, hinfo⟩ := Option.map_eq_some_iff.mp hfind
    rw [← hinfo]
    by_cases hid : id = tagId
    · rw [if_pos hid, hid]
      exact htotal
    · rw [if_neg hid, hsame id hid]
      exact h.totals id info₀ hfind₀
  wrapped := hwrapped

/-- A put that grew a blob adds what it grew by. -/
theorem TotalsInv.changeTagTotal {tagId : TagId} {newSize oldSize : UInt64}
    (h : TotalsInv c) (htags : c'.tagIdToInfo = c.tagIdToInfo) (hwrapped : c'.wrapped = c.wrapped)
    (hle : oldSize.toNat ≤ newSize.toNat)
    (hsame : ∀ id, id ≠ tagId → tagBytes c'.blobs id = tagBytes c.blobs id)
    (hgrown : tagBytes c'.blobs tagId =
      tagBytes c.blobs tagId + (newSize.toNat - oldSize.toNat))
    (hbound : tagBytes c'.blobs tagId < 2 ^ 63) :
    TotalsInv (c'.changeTagTotal tagId newSize oldSize) := by
  unfold Container.changeTagTotal Container.tagTotal?
  cases hfind : c'.tagIdToInfo.find? tagId with
  | none =>
    refine ⟨?_, by rw [Option.map_none]; exact hwrapped.trans h.wrapped⟩
    intro id info hinfo
    rw [Option.map_none] at hinfo ⊢
    have hid : id ≠ tagId := by
      intro hc
      rw [hc, hfind] at hinfo
      simp at hinfo
    rw [hsame id hid]
    rw [htags] at hinfo
    exact h.totals id info hinfo
  | some info =>
    rw [Option.map_some]
    have hold : info.totalSize.toNat = tagBytes c.blobs tagId := by
      rw [htags] at hfind
      exact h.totals tagId info hfind
    have hchange : (newSize - oldSize).toNat = newSize.toNat - oldSize.toNat :=
      UInt64.toNat_sub_of_le _ _ (UInt64.le_iff_toNat_le.mpr hle)
    have hsmall : newSize - oldSize < 0x8000000000000000 := by
      rw [UInt64.lt_iff_toNat_lt, hchange]
      show _ < 2 ^ 63
      omega
    dsimp only
    rw [if_pos hsmall]
    refine TotalsInv.setTotal tagId (info.totalSize + (newSize - oldSize)) h ?_ ?_ hsame ?_
    · rw [← htags]
      rfl
    · exact hwrapped.trans h.wrapped
    · show _ = tagBytes c'.blobs tagId
      rw [UInt64.toNat_add, hchange, hold, hgrown]
      omega

/-! ### Puts -/

theorem getTotalSize_grown {new : BlobBlock} (hnew : new.size = required - info.getTotalSize) :
    BlobInfo.getTotalSize { info with blocks := info.blocks ++ [new] } = required := by
  have happend : totalSizeOf (info.blocks ++ [new]) = totalSizeOf info.blocks + new.size := by
    unfold totalSizeOf
    rw [List.foldl_append]
    rfl
  show totalSizeOf (info.blocks ++ [new]) = required
  rw [happend, hnew, UInt64.add_comm]
  exact UInt64.sub_add_cancel _ _

/-- The sums when a blob of a tag has got a new entry. -/
theorem tagBytes_assigned {m : AMap Bytes BlobNode} {tagId : TagId} {blobName : Bytes}
    {node : BlobNode} (node' : BlobNode)
    (hfind : m.find? (compositeKey tagId blobName) = some node) :
    (∀ id, id ≠ tagId →
      tagBytes (m.insertOrAssign (compositeKey tagId blobName) node') id = tagBytes m id) ∧
    tagBytes (m.insertOrAssign (compositeKey tagId blobName) node') tagId +
      node.info.getTotalSize.toNat = tagBytes m tagId + node'.info.getTotalSize.toNat := by
  refine ⟨?_, ?_⟩
  · intro id hid
    rw [tagBytes_insertOrAssign, tagBytes_of_find hfind, share_compositeKey, share_compositeKey,
      if_neg hid, if_neg hid]
  · rw [tagBytes_insertOrAssign, tagBytes_of_find hfind, share_compositeKey, share_compositeKey,
      if_pos rfl, if_pos rfl]
    omega

/-- What an extension does to the size of its blob. -/
theorem Extended.totalSize {info₁ : BlobInfo}
    (hptr : w.c.PointsTo ptr info) (hext : Extended S w ptr info required 0 w')
    (hptr₁ : w'.c.PointsTo ptr info₁) :
    info.getTotalSize.toNat ≤ info₁.getTotalSize.toNat ∧
      info₁.getTotalSize.toNat ≤ max info.getTotalSize.toNat required.toNat := by
  obtain ⟨-, rfl⟩ | ⟨hnot, new, hsize, rfl⟩ := hext.info_cases hptr hptr₁
  · omega
  · rw [getTotalSize_grown hsize]
    rw [UInt64.not_le, UInt64.lt_iff_toNat_lt] at hnot
    omega

/-- The blobs when a put is done: the entry of its blob is new and the others are as before. -/
theorem Extended.blobs_assign {err : UInt32}
    (hext : Extended S w ptr info required err w') (node : BlobNode) :
    ((w'.c.blobs.insertOrAssign ptr.key node).entries).Perm
      ((w.c.blobs.insertOrAssign ptr.key node).entries) ∧
      w'.c.tagIdToInfo = w.c.tagIdToInfo ∧ w'.c.wrapped = w.c.wrapped := by
  cases hext with
  | fits _ => exact ⟨List.Perm.refl _, rfl, rfl⟩
  | failed _ _ _ => exact ⟨List.Perm.refl _, rfl, rfl⟩
  | grown _ _ =>
    refine ⟨?_, rfl, rfl⟩
    refine (AMap.insertOrAssign_perm _ _ _).trans ?_
    refine List.Perm.trans ?_ (AMap.insertOrAssign_perm _ _ _).symm
    exact (AMap.erase_insertOrAssign_entries_perm _ _ _).cons _

/-- No byte of the put's blob was added without being counted: it did not grow, or its
writes were complete. -/
def CountsGrowth (S : Request → Devices → Reply → Devices → Prop) (info : BlobInfo)
    (required : UInt64) : Prop :=
  required ≤ info.getTotalSize ∨ ∀ q d r d', S q d r d' → ServesFully q d r d'

theorem Stored.totals {t : PutBlobTask} {data : Nat → UInt8} {s : F32} (h : TotalsInv w.c) (hptr : w.c.PointsTo ptr info)
    (hkey : ptr.key = t.key)
    (hbound : tagBytes w.c.blobs t.tagId + (t.offset + t.size).toNat < 2 ^ 63)
    (hcounts : CountsGrowth S info (t.offset + t.size))
    (hstored : Stored S t data s ptr info info.getTotalSize w rc w') : TotalsInv w'.c := by
  cases hstored with
  | noSpace herr hext =>
    cases hext with
    | fits _ => exact h
    | failed _ _ _ => exact h.frame (fun _ => rfl) rfl rfl
    | grown _ _ => exact absurd rfl herr
  | @short info₁ w₁ worker err d hext hptr₁ herr hwrites =>
    have hsame : w₁.c = w.c := by
      cases hext with
      | fits _ => rfl
      | failed _ hcode _ => simp at hcode
      | grown hnot _ =>
        rcases hcounts with hfits | hfull
        · exact absurd hfits hnot
        · obtain ⟨all, hserve, hcode⟩ := hwrites
          rw [transferError_of_full (hserve.mono hfull)] at hcode
          exact absurd hcode herr
    obtain ⟨htags, hwrapped⟩ := logExtend_frame w₁.c worker t info₁.blocks
    refine h.frame ?_ (htags.trans (by rw [hsame])) (hwrapped.trans (by rw [hsame]))
    intro id
    show tagBytes (w₁.c.logExtend worker t info₁.blocks).blobs id = _
    rw [logExtend_blobs, hsame]
  | @done info₁ w₁ worker d hext hptr₁ hwrites =>
    obtain ⟨hgrew, hlimit⟩ := hext.totalSize hptr hptr₁
    obtain ⟨hperm, htags₁, hwrapped₁⟩ := hext.blobs_assign ⟨ptr.addr, finishedBlob t s info₁⟩
    obtain ⟨htags, hwrapped⟩ := logExtend_frame w₁.c worker t info₁.blocks
    have hbytes : ∀ id, tagBytes ((w₁.c.logExtend worker t info₁.blocks).setBlob ptr
        (finishedBlob t s info₁)).blobs id =
        tagBytes (w.c.blobs.insertOrAssign t.key ⟨ptr.addr, finishedBlob t s info₁⟩) id := by
      intro id
      show tagBytes ((w₁.c.logExtend worker t info₁.blocks).blobs.insertOrAssign ptr.key _) id = _
      rw [logExtend_blobs, ← hkey]
      exact (hperm.map (share id)).sum_nat
    have hfind : w.c.blobs.find? t.key = some ⟨ptr.addr, info⟩ := by
      rw [← hkey]
      exact hptr
    obtain ⟨hothers, hown⟩ := tagBytes_assigned ⟨ptr.addr, finishedBlob t s info₁⟩ hfind
    have hsize : (finishedBlob t s info₁).getTotalSize = info₁.getTotalSize := rfl
    have hcontrib : info.getTotalSize.toNat ≤ tagBytes w.c.blobs t.tagId := by
      rw [tagBytes_of_find hfind, PutBlobTask.key, share_compositeKey, if_pos rfl]
      exact Nat.le_add_right _ _
    simp only [hsize] at hown
    have hsum := hbytes t.tagId
    rw [PutBlobTask.key] at hsum
    refine h.changeTagTotal (htags.trans htags₁) (hwrapped.trans hwrapped₁) hgrew ?_ ?_ ?_
    · intro id hid
      rw [hbytes id]
      exact hothers id hid
    · omega
    · omega

/-- The put needs no more space than its blob has. -/
def PutBlobTask.Fits (t : PutBlobTask) (c : Container) : Prop :=
  ∃ node, c.blobs.find? t.key = some node ∧ t.offset + t.size ≤ node.info.getTotalSize

/-- A put keeps the totals right if it clears nothing and counts what it grows. -/
theorem PutOutcome.totals {t : PutBlobTask} (h : TotalsInv w.c)
    (hkeeps : ∀ node, w.c.blobs.find? t.key = some node →
      ¬Clears (t.scoreFor (w.c.blobs.find? t.key)) t.offset node.info)
    (hbound : tagBytes w.c.blobs t.tagId + (t.offset + t.size).toNat < 2 ^ 63)
    (hcounts : t.Fits w.c ∨ ∀ q d r d', S q d r d' → ServesFully q d r d')
    (hput : PutOutcome S t w rc w') : TotalsInv w'.c := by
  cases hput with
  | rejected _ _ => exact h
  | worked _ _ hprep hstored =>
    generalize t.scoreFor (w.c.blobs.find? t.key) = s at hprep hstored hkeeps
    have hptr := hprep.pointsTo
    cases hprep with
    | @kept node hfind _ =>
      refine hstored.totals h hptr rfl hbound ?_
      rcases hcounts with ⟨node', hfind', hfits⟩ | hfull
      · rw [hfind, Option.some.injEq] at hfind'
        subst hfind'
        exact Or.inl hfits
      · exact Or.inr hfull
    | cleared hfind hclears _ _ => exact absurd hclears (hkeeps _ hfind)
    | @created worker hfind =>
      -- A new blob counts for nothing yet.
      have hbytes : ∀ id, tagBytes (w.c.blobs.insertOrAssign t.key
          ⟨w.c.nextAddr, newBlob t.blobName s⟩) id = tagBytes w.c.blobs id := by
        intro id
        have hzero : share id (t.key, ⟨w.c.nextAddr, newBlob t.blobName s⟩) = 0 := by
          unfold share
          split
          · rfl
          · rfl
        rw [tagBytes_insertOrAssign, hzero, Nat.zero_add, tagBytes_erase_of_find_none hfind]
      have h₁ : TotalsInv ((w.c.addBlob t.key (newBlob t.blobName s)).logBlob worker
          (createTxn t s)) := h.frame hbytes rfl rfl
      refine Stored.totals h₁ hptr rfl ?_ ?_ hstored
      · show tagBytes (w.c.blobs.insertOrAssign t.key _) t.tagId + _ < _
        rw [hbytes]
        exact hbound
      · rcases hcounts with ⟨node, hfind', _⟩ | hfull
        · rw [hfind] at hfind'
          simp at hfind'
        · exact Or.inr hfull

/-! ### Deletes -/

theorem DelOutcome.totals {tagId : TagId} {blobName : Bytes} (h : TotalsInv w.c)
    (hdel : DelOutcome S tagId blobName w rc w') : TotalsInv w'.c := by
  cases hdel with
  | absent _ => exact h
  | @deleted node targets worker d hname hfind _ _ =>
    -- The entry is emptied and then erased; what is left is the map without it.
    have hbytes : ∀ id, tagBytes ((w.c.blobs.insertOrAssign (compositeKey tagId blobName)
        ⟨node.addr, { node.info with blocks := [] }⟩).erase (compositeKey tagId blobName)) id =
          tagBytes (w.c.blobs.erase (compositeKey tagId blobName)) id := by
      intro id
      exact ((AMap.erase_insertOrAssign_entries_perm _ _ _).map (share id)).sum_nat
    have hsum : ∀ id, tagBytes w.c.blobs id =
        (if id = tagId then node.info.getTotalSize.toNat else 0) +
          tagBytes (w.c.blobs.erase (compositeKey tagId blobName)) id := by
      intro id
      rw [tagBytes_of_find hfind, share_compositeKey]
    unfold Container.dropBlob Container.dropFromTagTotal
    have hsetTags : ({ w.c with targets := targets }.setBlob
        ⟨compositeKey tagId blobName, node.addr⟩ { node.info with blocks := [] }).tagTotal? tagId =
          w.c.tagTotal? tagId := rfl
    rw [hsetTags]
    unfold Container.tagTotal?
    cases htag : w.c.tagIdToInfo.find? tagId with
    | none =>
      refine ⟨?_, h.wrapped⟩
      intro id info hinfo
      have hinfo' : w.c.tagIdToInfo.find? id = some info := hinfo
      have hid : id ≠ tagId := by
        intro hc
        rw [hc, htag] at hinfo'
        simp at hinfo'
      show info.totalSize.toNat = tagBytes ((w.c.blobs.insertOrAssign _ _).erase _) id
      rw [hbytes, h.totals id info hinfo', hsum id, if_neg hid, Nat.zero_add]
    | some info =>
      have hold := h.totals tagId info htag
      rw [hsum tagId, if_pos rfl] at hold
      have hle : node.info.getTotalSize ≤ info.totalSize := by
        rw [UInt64.le_iff_toNat_le]
        omega
      rw [Option.map_some]
      refine TotalsInv.setTotal tagId (info.totalSize - node.info.getTotalSize) h ?_ h.wrapped ?_ ?_
      · dsimp only
        rw [if_pos hle]
        rfl
      · intro id hid
        show tagBytes ((w.c.blobs.insertOrAssign _ _).erase _) id = _
        rw [hbytes, hsum id, if_neg hid, Nat.zero_add]
      · show _ = tagBytes ((w.c.blobs.insertOrAssign _ _).erase _) tagId
        rw [hbytes, UInt64.toNat_sub_of_le _ _ hle]
        omega

/-! ### Whole runs -/

/-- The container before the first blob, with totals to match. -/
structure NoBlobs (c : Container) : Prop where
  blobs : c.blobs = AMap.empty
  totals : ∀ id info, c.tagIdToInfo.find? id = some info → info.totalSize = 0
  wrapped : c.wrapped = false

theorem NoBlobs.totalsInv (h : NoBlobs c) : TotalsInv c := by
  refine ⟨?_, h.wrapped⟩
  intro id info hfind
  rw [h.totals id info hfind, h.blobs]
  rfl

/-- As `ServesAny`, where the devices of some pools complete no read. -/
def ServesBut (faulty : PoolId → Prop) (q : Request) (d : Devices) (r : Reply) (d' : Devices) :
    Prop :=
  ServesAny q d r d' ∧ (faulty q.pool → IsRead q → fullTransfer q r = false)

/-- A read of the whole blob goes to one of these pools, among others. -/
def Unreadable (faulty : PoolId → Prop) (node : BlobNode) : Prop :=
  ∃ p ∈ ioPlan node.info.getTotalSize 0 node.info.blocks node.info.getTotalSize 0,
    faulty p.readRequest.pool

theorem Unreadable.readData_fails {faulty : PoolId → Prop} {node : BlobNode}
    {buffer : Nat → UInt8} {res : UInt32 × (Nat → UInt8)} (hunread : Unreadable faulty node)
    (h : Runs (ServesBut faulty) (readData node.info.blocks buffer node.info.getTotalSize 0) w
      res w') : res.1 ≠ 0 := by
  intro hzero
  simp only [readData, bind_eq, pure_eq, runs_bind, runs_callAll, runs_ret] at h
  obtain ⟨rs, w₁, ⟨all, hrs, hserve, _⟩, hres, _⟩ := h
  rw [hres, hrs] at hzero
  obtain ⟨p, hp, hfaulty⟩ := hunread
  obtain ⟨r, d₁, d₂, hzip, hs⟩ := hserve.exists_reply (List.mem_map_of_mem hp)
  have hfull : fullTransfer p.readRequest r = true := full_of_transferError hzero _ hzip
  rw [hs.2 hfaulty ⟨_, _, rfl⟩] at hfull
  simp at hfull

/-- The tasks that keep the totals right, where some pools complete no read: a put that clears
no bytes and stays below 2^63 bytes for its tag, a reorganization or flush of nothing that it
can read, and every delete and get. -/
def Accounted (cfg : Config) (faulty : PoolId → Prop) (c : Container) : Task → Prop
  | .putBlob t => t.Rejected c ∨
      ((∀ node, c.blobs.find? t.key = some node →
        ¬Clears (t.scoreFor (c.blobs.find? t.key)) t.offset node.info) ∧
      tagBytes c.blobs t.tagId + (t.offset + t.size).toNat < 2 ^ 63)
  | .reorganizeBlob t => ∀ node, t.Moves cfg c node → Unreadable faulty node
  | .flushData level =>
    (c.targets.infos.any fun t => t.persistenceLevel.toInt ≥ level) = false ∨
    ∀ key node, c.blobs.find? key = some node →
      node.info.blocks.any (c.isBelow level) = false ∨ Unreadable faulty node
  | .delBlob _ _ | .getBlob _ => True
  | .getOrCreateTag _ _ | .delTag _ _ => False

/-- A task that keeps the totals right, where a put that grows its blob has complete writes. -/
def RanAccounted (cfg : Config) (t : Task) (w w' : World Container Devices) : Prop :=
  ∃ faulty, Accounted cfg faulty w.c t ∧ Ran (ServesBut faulty) cfg t w w' ∧
    ∀ put, t = .putBlob put → ¬put.Fits w.c → Ran ServesFully cfg t w w'

theorem ServesBut.any {faulty : PoolId → Prop} {q : Request} {d d' : Devices} {r : Reply}
    (h : ServesBut faulty q d r d') : ServesAny q d r d' := h.1

/-- A reorganization of a blob that cannot be read leaves everything as it is. -/
theorem reorganizeBlob_unread {cfg : Config} {faulty : PoolId → Prop} {t : ReorganizeBlobTask}
    (hacc : Accounted cfg faulty w.c (.reorganizeBlob t))
    (h : Runs (ServesBut faulty) (reorganizeBlob cfg t) w rc w') : w' = w := by
  obtain ⟨_, hw'⟩ | ⟨node, r, w₁, hmoves, hget, hrest⟩ := runs_reorganizeBlob_stages h
  · exact hw'
  · have hw₁ := runs_getBlob (fun _ _ _ _ => ServesBut.any) hget
    have hread := (runs_getBlob_found
      (t := ⟨t.tagId, t.blobName, 0, node.info.getTotalSize, cfg.freshBuffer⟩)
      hmoves.nonempty hmoves.named hmoves.found).mp hget
    obtain ⟨_, _, hw'⟩ | ⟨hdone, _⟩ := hrest
    · exact hw'.trans hw₁
    · exact absurd hdone ((hacc node hmoves).readData_fails hread)

/-- So does a flush of blobs that cannot be read. -/
theorem flushData_unread {cfg : Config} {faulty : PoolId → Prop} {level : Int}
    {result : UInt64 × UInt64} (hacc : Accounted cfg faulty w.c (.flushData level))
    (h : Runs (ServesBut faulty) (flushData cfg level) w result w') : w' = w := by
  rcases hacc with hnone | hblobs
  · simp only [flushData, bind_eq, pure_eq, runs_bind, TaskResume.readContainer, runs_read] at h
    obtain ⟨c, w₁, ⟨hc, hw₁⟩, h⟩ := h
    rw [hc, if_neg (by rw [hnone]; exact Bool.false_ne_true)] at h
    exact h.2.trans hw₁
  obtain ⟨steps, htrace⟩ := runs_flushData_steps (fun _ _ _ _ => ServesBut.any) h
  -- No step of the flush changes the world, so each meets the blobs as the flush met them.
  refine htrace.runs.invariant (I := fun w₁ => w₁ = w) ?_ rfl
  rintro ⟨entry, put?⟩ hmem w₁ w₂ hw₁ hstep
  subst hw₁
  cases hstep with
  | left => rfl
  | @put node buffer rc w₃ w₂ hfind _ hread _ _ =>
    rcases htrace.entries with hnil | ⟨order, hperm, hfst⟩
    · rw [hnil] at hmem
      simp at hmem
    · have hentry : entry ∈ w₁.c.blobsToFlush level order := by
        rw [← hfst]
        exact List.mem_map_of_mem hmem
      obtain ⟨e, he, hsame⟩ := List.mem_map.mp hentry
      obtain ⟨heorder, hbelow⟩ := List.mem_filter.mp he
      have hfind' := AMap.find?_eq_some_iff.mpr (hperm.mem_iff.mp heorder)
      rw [← hsame] at hfind hread
      obtain rfl := Option.some.inj (hfind'.symm.trans hfind)
      rcases hblobs _ _ hfind' with habove | hunread
      · rw [habove] at hbelow
        simp at hbelow
      · exact absurd rfl (hunread.readData_fails hread)

theorem RanAccounted.totals {cfg : Config} {t : Task} (h : TotalsInv w.c)
    (hran : RanAccounted cfg t w w') : TotalsInv w'.c := by
  obtain ⟨faulty, hacc, hany, hfull⟩ := hran
  cases t with
  | getOrCreateTag tagName preferredId => exact absurd hacc id
  | delTag tagId tagName => exact absurd hacc id
  | putBlob t =>
    have hrun : ∀ {S : Request → Devices → Reply → Devices → Prop},
        Ran S cfg (.putBlob t) w w' →
        (t.Fits w.c ∨ ∀ q d r d', S q d r d' → ServesFully q d r d') → TotalsInv w'.c := by
      intro S hran hcounts
      obtain ⟨rc, hran⟩ := hran
      have hput := runs_putBlob hran
      rcases hacc with hrej | ⟨hkeeps, hbound⟩
      · cases hput with
        | rejected _ _ => exact h
        | worked hok _ _ _ => exact absurd hrej hok
      · exact hput.totals h hkeeps hbound hcounts
    by_cases hfits : t.Fits w.c
    · exact hrun hany (Or.inl hfits)
    · exact hrun (hfull t rfl hfits) (Or.inr fun _ _ _ _ hs => hs)
  | getBlob t =>
    cases ranAs_of_ran (fun _ _ _ _ => ServesBut.any) hany
    exact h
  | delBlob tagId blobName =>
    cases ranAs_of_ran (fun _ _ _ _ => ServesBut.any) hany with
    | delBlob hdel => exact hdel.totals h
  | reorganizeBlob t =>
    obtain ⟨rc, hrun⟩ := hany
    rw [reorganizeBlob_unread hacc hrun]
    exact h
  | flushData level =>
    obtain ⟨rc, hrun⟩ := hany
    simp only [Task.resume, bind_eq, pure_eq, runs_bind, runs_ret] at hrun
    obtain ⟨counts, w₁, hflush, _, hw'⟩ := hrun
    rw [hw', flushData_unread hacc hflush]
    exact h

/-- **The total of every tag is the sum over its blobs**, after any sequence of puts, gets,
deletes, reorganizations and flushes that keep the books, and no update went below zero. -/
theorem totals_accounted {cfg : Config} {ts : List Task} (hstart : NoBlobs w.c)
    (hruns : Along (RanAccounted cfg) ts w w') :
    (∀ id info, w'.c.tagIdToInfo.find? id = some info → info.totalSize = w'.c.blobTotal id) ∧
      w'.c.wrapped = false := by
  have h : TotalsInv w'.c := by
    refine hruns.invariant (I := fun w => TotalsInv w.c) ?_ hstart.totalsInv
    intro t _ w w' h hran
    exact hran.totals h
  refine ⟨?_, h.wrapped⟩
  intro id info hfind
  have htotal := h.totals id info hfind
  have hlt := info.totalSize.toNat_lt
  rw [← UInt64.toNat_inj, blobTotal_toNat]
  omega

/-- The small engine with the tag 1.1. -/
def taggedEngine : World Container Devices :=
  runAll smallConfig [.getOrCreateTag [116] ⟨1, 1⟩] smallEngine

theorem noBlobs_taggedEngine : NoBlobs taggedEngine.c := by
  refine ⟨rfl, ?_, rfl⟩
  intro id info hfind
  have hmem := AMap.find?_eq_some_iff.mp hfind
  have htags : taggedEngine.c.tagIdToInfo.entries = [(⟨1, 1⟩, ⟨[116], ⟨1, 1⟩, 0⟩)] := by
    decide +kernel
  rw [htags, List.mem_singleton, Prod.mk.injEq] at hmem
  rw [hmem.2]

theorem ranAccounted_of_full {cfg : Config} {t : Task}
    (hacc : Accounted cfg (fun _ => False) w.c t)
    (hran : Ran ServesFully cfg t w w') : RanAccounted cfg t w w' := by
  obtain ⟨rc, hrun⟩ := hran
  refine ⟨_, hacc, ⟨rc, hrun.mono fun _ _ _ _ hs => ⟨hs.any, False.elim⟩⟩, ?_⟩
  intro put _ _
  exact ⟨rc, hrun⟩

/-- Ten bytes and five more behind them. -/
def appendingPuts : List Task :=
  [.putBlob (smallPut [1] 0 10 1), .putBlob (smallPut [1] 10 5 2)]

theorem totals_accounted_appendingPuts :
    (runAll smallConfig appendingPuts taggedEngine).c.tagTotal? ⟨1, 1⟩ = some 15 ∧
    (runAll smallConfig appendingPuts taggedEngine).c.wrapped = false := by
  have hruns : Along (RanAccounted smallConfig) appendingPuts taggedEngine
      (runAll smallConfig appendingPuts taggedEngine) := by
    refine ⟨_, ranAccounted_of_full (Or.inr ⟨?_, by decide +kernel⟩)
      ⟨0, runs_runAll servesFully_of_check [] (.putBlob (smallPut [1] 0 10 1)) taggedEngine
        (by decide +kernel) (by decide +kernel)⟩, _,
      ranAccounted_of_full (Or.inr ⟨?_, by decide +kernel⟩)
      ⟨0, runs_runAll servesFully_of_check [.putBlob (smallPut [1] 0 10 1)]
        (.putBlob (smallPut [1] 10 5 2)) taggedEngine (by decide +kernel) (by decide +kernel)⟩, rfl⟩
    · intro node hfind
      have hnone : taggedEngine.c.blobs.find? (smallPut [1] 0 10 1).key = none := by
        decide +kernel
      have hfind' : taggedEngine.c.blobs.find? (smallPut [1] 0 10 1).key = some node := hfind
      rw [hnone] at hfind'
      simp at hfind'
    · intro node _ hclears
      exact absurd hclears.2.1 (by decide)
  exact ⟨by decide +kernel, (totals_accounted noBlobs_taggedEngine hruns).2⟩

/-- The same ten bytes twice. -/
def repeatedPut : List Task := [.putBlob (smallPut [1] 0 10 1), .putBlob (smallPut [1] 0 10 1)]

/-- The tag then counts twenty bytes, and its only blob has ten. -/
theorem totals_drift :
    NoBlobs taggedEngine.c ∧
    Along (Ran ServesAny smallConfig) repeatedPut taggedEngine
      (runAll smallConfig repeatedPut taggedEngine) ∧
    ∃ info, (runAll smallConfig repeatedPut taggedEngine).c.tagIdToInfo.find? ⟨1, 1⟩ = some info ∧
      info.totalSize ≠ (runAll smallConfig repeatedPut taggedEngine).c.blobTotal ⟨1, 1⟩ := by
  refine ⟨noBlobs_taggedEngine, along_runAll servesAny_of_check repeatedPut (by decide +kernel),
    ⟨[116], ⟨1, 1⟩, 20⟩, by decide +kernel, by decide +kernel⟩

end Cte
end IowarpCore
