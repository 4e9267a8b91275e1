/-
The metadata snapshot and what a restart makes of it.

The reader undoes the writer entry by entry, so restoring a snapshot is putting its
entries into the maps one after another (`restoreMetadataFromLog_writeSnapshot`), each
blob without its blocks on volatile targets.  That is where the trouble is: a block
list is positional, and a block dropped from the middle moves every byte behind it to
a smaller offset.

So a snapshot comes back faithfully exactly when in every blob the volatile blocks
stand behind the others, apart from blocks of no bytes, and no tag has the last of the
32-bit minors, behind which the counter for new ids starts again at zero
(`restore_snapshot_iff`).
-/
import IowarpCore.Cte.Metadata
import IowarpCore.Cte.Contents
import IowarpCore.Proofs.TransactionLog

namespace IowarpCore
namespace Cte

open Wal (TransactionLog)

/-! ### The reader undoes the writer -/

theorem writeName_of_lt {s : Bytes} (h : s.length < 2 ^ 32) : writeName s = writeString s := by
  have hlen : (UInt32.ofNat s.length).toNat = s.length := by
    rw [UInt32.toNat_ofNat']
    omega
  unfold writeName
  rw [hlen, List.take_length]

@[simp] theorem ofBlockTxn_blockTxn (b : BlobBlock) : ofBlockTxn (blockTxn b) = b := rfl

theorem readTagEntry_write {tagName : Bytes} (h : tagName.length < 2 ^ 32) (tagId : TagId)
    (totalSize : UInt64) (rest : Bytes) :
    readTagEntry.run (writeName tagName ++ (writeU32 tagId.major ++ (writeU32 tagId.minor ++
      (writeU64 totalSize ++ rest)))) = some ((tagName, tagId, totalSize), rest) := by
  rw [writeName_of_lt h]
  simp [readTagEntry, readString_write _ _ h]

theorem readBlobHeader_write {key : Bytes} {info : BlobInfo} (hkey : key.length < 2 ^ 32)
    (hname : info.blobName.length < 2 ^ 32) (rest : Bytes) :
    readBlobHeader.run (writeName key ++ (writeName info.blobName ++ (writeU32 info.score.bits ++
      (writeU32 info.compressLib.toUInt32 ++ (writeU32 info.compressPreset.toUInt32 ++
      (writeU64 info.traceKey ++ (writeU32 (UInt32.ofNat info.blocks.length) ++ rest))))))) =
      some ((key, { info with blocks := [] }, UInt32.ofNat info.blocks.length), rest) := by
  rw [writeName_of_lt hkey, writeName_of_lt hname]
  simp [readBlobHeader, readString_write _ _ hkey, readString_write _ _ hname]

/-- The blocks a restart keeps. -/
def Container.nonvolatile (c : Container) (blocks : List BlobBlock) : List BlobBlock :=
  blocks.filter fun b => !c.isVolatile b.bdevClient

theorem restoreBlocks_write (c : Container) (blocks : List BlobBlock) (rest : Bytes) :
    restoreBlocks c blocks.length (blocks.flatMap writeBlock ++ rest) =
      (c.nonvolatile blocks, some rest) := by
  induction blocks with
  | nil => rfl
  | cons b bs ih =>
    have hread : TransactionLog.readBlock.run
        (writeBlock b ++ (bs.flatMap writeBlock ++ rest)) =
        some (blockTxn b, bs.flatMap writeBlock ++ rest) :=
      Wal.readBlock_blockBytes _ _
    rw [List.flatMap_cons, List.append_assoc, List.length_cons, restoreBlocks, hread]
    simp only [ih, ofBlockTxn_blockTxn, Container.nonvolatile]
    by_cases hv : c.isVolatile b.bdevClient = true
    · simp [hv]
    · simp [hv]

/-! ### Restoring is putting the entries back one by one -/

/-- What a restart makes of one tag of the snapshot. -/
def restoreTag (c : Container) (e : TagId × TagInfo) : Container :=
  c.putTag e.2.tagName e.1 e.2.totalSize

/-- What a restart makes of one blob of the snapshot. -/
def restoreBlob (c : Container) (e : Bytes × BlobInfo) : Container :=
  (c.assignBlob e.1 { e.2 with blocks := c.nonvolatile e.2.blocks }).2

/-- The strings and the block list have lengths that 32 bits can hold. -/
structure BlobFits (e : Bytes × BlobInfo) : Prop where
  key : e.1.length < 2 ^ 32
  name : e.2.blobName.length < 2 ^ 32
  blocks : e.2.blocks.length < 2 ^ 32

theorem restoreEntry_tag (c : Container) (m : UInt32) {e : TagId × TagInfo}
    (h : e.2.tagName.length < 2 ^ 32) (rest : Bytes) :
    restoreEntry c m (writeTagEntry e ++ rest) =
      ((restoreTag c e, bumpMinor m e.1), some rest) := by
  have hread := readTagEntry_write h e.1 e.2.totalSize rest
  simp only [writeTagEntry, List.append_assoc, List.cons_append, List.nil_append, restoreEntry,
    if_true, hread]
  rfl

theorem restoreEntry_blob (c : Container) (m : UInt32) {e : Bytes × BlobInfo} (h : BlobFits e)
    (rest : Bytes) :
    restoreEntry c m (writeBlobEntry e ++ rest) = ((restoreBlob c e, m), some rest) := by
  have hread := readBlobHeader_write h.key h.name (e.2.blocks.flatMap writeBlock ++ rest)
  have hcount : (UInt32.ofNat e.2.blocks.length).toNat = e.2.blocks.length := by
    rw [UInt32.toNat_ofNat']
    have := h.blocks
    omega
  simp only [writeBlobEntry, List.append_assoc, List.cons_append, List.nil_append, restoreEntry,
    if_true, hread, hcount, restoreBlocks_write]
  rfl

/-- A pass of the loop that reads `bs` and goes on. -/
theorem restoreLoop_entry {c c' : Container} {m m' : UInt32} {bs rest : Bytes} {fuel : Nat}
    (h : restoreEntry c m (bs ++ rest) = ((c', m'), some rest)) (hne : 0 < bs.length)
    (hfuel : (bs ++ rest).length ≤ fuel) :
    ∃ fuel', rest.length ≤ fuel' ∧
      restoreLoop fuel c m (bs ++ rest) = restoreLoop fuel' c' m' rest := by
  rw [List.length_append] at hfuel
  obtain ⟨fuel, rfl⟩ : ∃ k, fuel = k + 1 := ⟨fuel - 1, by omega⟩
  refine ⟨fuel, by omega, ?_⟩
  rw [restoreLoop, h]

theorem restoreLoop_entries {α : Type} (write : α → Bytes) {restore : Container → α → Container}
    {bump : UInt32 → α → UInt32} (entries : List α) (hne : ∀ e, 0 < (write e).length)
    (h : ∀ e ∈ entries, ∀ c m rest,
      restoreEntry c m (write e ++ rest) = ((restore c e, bump m e), some rest)) :
    ∀ (c : Container) (m : UInt32) (rest : Bytes) (fuel : Nat),
      (entries.flatMap write ++ rest).length ≤ fuel →
      ∃ fuel', rest.length ≤ fuel' ∧
        restoreLoop fuel c m (entries.flatMap write ++ rest) =
          restoreLoop fuel' (entries.foldl restore c) (entries.foldl bump m) rest := by
  induction entries with
  | nil => intro c m rest fuel hfuel; exact ⟨fuel, by simpa using hfuel, rfl⟩
  | cons e es ih =>
    intro c m rest fuel hfuel
    rw [List.flatMap_cons, List.append_assoc] at hfuel ⊢
    obtain ⟨fuel₁, hle, heq⟩ := restoreLoop_entry
      (h e List.mem_cons_self c m (es.flatMap write ++ rest)) (hne e) hfuel
    rw [heq]
    exact ih (fun e' he' => h e' (List.mem_cons_of_mem _ he')) _ _ rest fuel₁ hle

theorem restoreLoop_nil (fuel : Nat) (c : Container) (m : UInt32) :
    restoreLoop fuel c m [] = (c, m) := by
  cases fuel with
  | zero => rfl
  | succ fuel => rfl

/-- Restoring a snapshot puts its entries back one by one and then raises the counter. -/
theorem restoreMetadataFromLog_writeSnapshot (c : Container) {tags : List (TagId × TagInfo)}
    {blobs : List (Bytes × BlobInfo)} (htags : ∀ e ∈ tags, e.2.tagName.length < 2 ^ 32)
    (hblobs : ∀ e ∈ blobs, BlobFits e) :
    restoreMetadataFromLog c (writeSnapshot tags blobs) =
      (blobs.foldl restoreBlob (tags.foldl restoreTag c)).raiseMinor
        (tags.foldl (fun m e => bumpMinor m e.1) 0) := by
  obtain ⟨fuel₁, hle₁, heq₁⟩ := restoreLoop_entries writeTagEntry tags
    (fun e => by simp [writeTagEntry]) (fun e he c m => restoreEntry_tag c m (htags e he))
    c 0 (blobs.flatMap writeBlobEntry) (writeSnapshot tags blobs).length (Nat.le_refl _)
  obtain ⟨fuel₂, _, heq₂⟩ := restoreLoop_entries writeBlobEntry blobs (fun e => by simp [writeBlobEntry])
    (fun e he c m => restoreEntry_blob c m (hblobs e he)) (tags.foldl restoreTag c)
    (tags.foldl (fun m e => bumpMinor m e.1) 0) [] fuel₁ (by simpa using hle₁)
  rw [List.append_nil, restoreLoop_nil, List.foldl_fixed] at heq₂
  have hloop : restoreLoop (writeSnapshot tags blobs).length c 0 (writeSnapshot tags blobs) =
      (blobs.foldl restoreBlob (tags.foldl restoreTag c),
        tags.foldl (fun m e => bumpMinor m e.1) 0) := heq₁.trans heq₂
  unfold restoreMetadataFromLog
  rw [hloop]

/-! ### What the maps then hold -/

theorem foldl_restoreTag (tags : List (TagId × TagInfo)) : ∀ c : Container,
    tags.foldl restoreTag c =
      { c with
        tagNameToId := tags.foldl (fun m e => m.insertOrAssign e.2.tagName e.1) c.tagNameToId
        tagIdToInfo := tags.foldl
          (fun m e => m.insertOrAssign e.1 ⟨e.2.tagName, e.1, e.2.totalSize⟩) c.tagIdToInfo } := by
  induction tags with
  | nil => intro c; rfl
  | cons e es ih =>
    intro c
    rw [List.foldl_cons, ih]
    rfl

theorem assignBlob_find? (c : Container) (key key' : Bytes) (info : BlobInfo) :
    ∃ addr, (c.assignBlob key info).2.blobs.find? key' =
      if key' = key then some ⟨addr, info⟩ else c.blobs.find? key' := by
  unfold Container.assignBlob
  rcases c.blobs.find? key with _ | node
  · exact ⟨c.nextAddr, AMap.find?_insertOrAssign _ _ _ _⟩
  · exact ⟨node.addr, AMap.find?_insertOrAssign _ _ _ _⟩

/-- Assigning a blob touches no other map, no target and no log. -/
theorem assignBlob_frame (c : Container) (key : Bytes) (info : BlobInfo) :
    (c.assignBlob key info).2 =
      { c with
        blobs := (c.assignBlob key info).2.blobs
        nextAddr := (c.assignBlob key info).2.nextAddr } := by
  unfold Container.assignBlob
  rcases c.blobs.find? key with _ | node
  · rfl
  · rfl

theorem restoreBlob_frame (c : Container) (e : Bytes × BlobInfo) :
    restoreBlob c e =
      { c with blobs := (restoreBlob c e).blobs, nextAddr := (restoreBlob c e).nextAddr } :=
  assignBlob_frame _ _ _

theorem foldl_restoreBlob_frame (blobs : List (Bytes × BlobInfo)) : ∀ c : Container,
    blobs.foldl restoreBlob c =
      { c with
        blobs := (blobs.foldl restoreBlob c).blobs
        nextAddr := (blobs.foldl restoreBlob c).nextAddr } := by
  induction blobs with
  | nil => intro c; rfl
  | cons e es ih =>
    intro c
    have h := restoreBlob_frame c e
    rw [List.foldl_cons, ih]
    rw [h]

theorem nonvolatile_congr {c c' : Container} (h : c'.targets = c.targets)
    (blocks : List BlobBlock) : c'.nonvolatile blocks = c.nonvolatile blocks := by
  simp only [Container.nonvolatile, Container.isVolatile, h]

theorem foldl_restoreBlob_of_ne (blobs : List (Bytes × BlobInfo)) {key : Bytes} :
    ∀ c : Container, (∀ e ∈ blobs, e.1 ≠ key) →
      (blobs.foldl restoreBlob c).blobs.find? key = c.blobs.find? key := by
  induction blobs with
  | nil => intro c _; rfl
  | cons e es ih =>
    intro c h
    obtain ⟨addr, hfind⟩ := assignBlob_find? c e.1 key
      { e.2 with blocks := c.nonvolatile e.2.blocks }
    rw [List.foldl_cons, ih _ fun e' he' => h e' (List.mem_cons_of_mem _ he')]
    rw [if_neg (h e (by simp)).symm] at hfind
    exact hfind

/-- Every blob of the snapshot is back, without its volatile blocks. -/
theorem foldl_restoreBlob_find? (blobs : List (Bytes × BlobInfo)) :
    ∀ c : Container, (blobs.map Prod.fst).Nodup → ∀ e ∈ blobs,
      ∃ addr, (blobs.foldl restoreBlob c).blobs.find? e.1 =
        some ⟨addr, { e.2 with blocks := c.nonvolatile e.2.blocks }⟩ := by
  induction blobs with
  | nil => intro c _ e he; simp at he
  | cons e₀ es ih =>
    intro c hnodup e he
    rw [List.map_cons, List.nodup_cons] at hnodup
    rw [List.foldl_cons]
    rcases List.mem_cons.mp he with heq | hmem
    · subst heq
      have hne : ∀ e' ∈ es, e'.1 ≠ e.1 := by
        intro e' he' hkey
        exact hnodup.1 (hkey ▸ List.mem_map_of_mem he')
      obtain ⟨addr, hfind⟩ := assignBlob_find? c e.1 e.1
        { e.2 with blocks := c.nonvolatile e.2.blocks }
      rw [if_pos rfl] at hfind
      rw [foldl_restoreBlob_of_ne es _ hne]
      exact ⟨addr, hfind⟩
    · obtain ⟨addr, hfind⟩ := ih (restoreBlob c e₀) hnodup.2 e hmem
      have htargets : (restoreBlob c e₀).targets = c.targets := by rw [restoreBlob_frame]
      rw [nonvolatile_congr htargets] at hfind
      exact ⟨addr, hfind⟩

/-! ### The counter for tag ids -/

theorem bumpMinor_spec {m : UInt32} {id : TagId} (h : id.minor ≠ 0xffffffff) :
    m ≤ bumpMinor m id ∧ id.minor < bumpMinor m id := by
  have hne : id.minor.toNat ≠ 4294967295 := fun hc => h (UInt32.toNat_inj.mp hc)
  have hlt := id.minor.toNat_lt
  unfold bumpMinor
  by_cases hge : id.minor ≥ m
  · rw [if_pos hge]
    rw [ge_iff_le, UInt32.le_iff_toNat_le] at hge
    rw [UInt32.le_iff_toNat_le, UInt32.lt_iff_toNat_lt, UInt32.toNat_add]
    simp only [UInt32.reduceToNat]
    omega
  · rw [if_neg hge]
    rw [ge_iff_le, UInt32.le_iff_toNat_le] at hge
    rw [UInt32.le_iff_toNat_le, UInt32.lt_iff_toNat_lt]
    omega

theorem foldl_bumpMinor (tags : List (TagId × TagInfo)) : ∀ m : UInt32,
    (∀ e ∈ tags, e.1.minor ≠ 0xffffffff) →
      m ≤ tags.foldl (fun m e => bumpMinor m e.1) m ∧
        ∀ e ∈ tags, e.1.minor < tags.foldl (fun m e => bumpMinor m e.1) m := by
  induction tags with
  | nil => intro m _; exact ⟨Nat.le_refl _, by simp⟩
  | cons e es ih =>
    intro m h
    obtain ⟨hm, he⟩ := bumpMinor_spec (m := m) (h e (by simp))
    obtain ⟨hle, hlt⟩ := ih (bumpMinor m e.1) fun e' he' => h e' (List.mem_cons_of_mem _ he')
    rw [List.foldl_cons]
    refine ⟨UInt32.le_trans hm hle, ?_⟩
    intro e' he'
    rcases List.mem_cons.mp he' with heq | hmem
    · rw [heq]
      exact UInt32.lt_of_lt_of_le he hle
    · exact hlt e' hmem

theorem raiseMinor_frame (c : Container) (m : UInt32) :
    c.raiseMinor m = { c with nextTagIdMinor := (c.raiseMinor m).nextTagIdMinor } := by
  unfold Container.raiseMinor
  by_cases h : m > c.nextTagIdMinor
  · rw [if_pos h]
  · rw [if_neg h]

@[simp] theorem raiseMinor_tagIdToInfo (c : Container) (m : UInt32) :
    (c.raiseMinor m).tagIdToInfo = c.tagIdToInfo := by rw [raiseMinor_frame]

@[simp] theorem raiseMinor_tagNameToId (c : Container) (m : UInt32) :
    (c.raiseMinor m).tagNameToId = c.tagNameToId := by rw [raiseMinor_frame]

@[simp] theorem raiseMinor_blobs (c : Container) (m : UInt32) :
    (c.raiseMinor m).blobs = c.blobs := by rw [raiseMinor_frame]

theorem le_raiseMinor (c : Container) (m : UInt32) : m ≤ (c.raiseMinor m).nextTagIdMinor := by
  unfold Container.raiseMinor
  by_cases h : m > c.nextTagIdMinor
  · rw [if_pos h]
    exact UInt32.le_refl _
  · rw [if_neg h]
    exact UInt32.not_lt.mp h

/-! ### Dropping blocks moves bytes -/

/-- No volatile block stands before a block that is kept, blocks of no bytes aside. -/
def VolatileLast (c : Container) (blocks : List BlobBlock) : Prop :=
  blocks.Pairwise fun v b => ¬(c.isVolatile v.bdevClient = true ∧ 0 < v.size.toNat ∧
    c.isVolatile b.bdevClient = false ∧ 0 < b.size.toNat)

/-- Whatever the devices hold, a byte read from the kept blocks is the byte that stood at
that offset before. -/
def BytesInPlace (c : Container) (blocks : List BlobBlock) : Prop :=
  ∀ (bytes : PoolId → Nat → UInt8) (o : Nat), o < byteLength (c.nonvolatile blocks) →
    readAt bytes (c.nonvolatile blocks) o = readAt bytes blocks o

theorem byteLength_eq_zero {blocks : List BlobBlock} :
    byteLength blocks = 0 ↔ ∀ b ∈ blocks, b.size.toNat = 0 := by
  induction blocks with
  | nil => simp
  | cons b bs ih => rw [byteLength_cons, Nat.add_eq_zero_iff, ih, List.forall_mem_cons]

theorem nonvolatile_cons_of_volatile {c : Container} {b : BlobBlock} (bs : List BlobBlock)
    (h : c.isVolatile b.bdevClient = true) : c.nonvolatile (b :: bs) = c.nonvolatile bs := by
  simp [Container.nonvolatile, h]

theorem nonvolatile_cons_of_kept {c : Container} {b : BlobBlock} (bs : List BlobBlock)
    (h : c.isVolatile b.bdevClient = false) :
    c.nonvolatile (b :: bs) = b :: c.nonvolatile bs := by
  simp [Container.nonvolatile, h]

theorem readAt_cons (bytes : PoolId → Nat → UInt8) (b : BlobBlock) (bs : List BlobBlock)
    (o : Nat) :
    readAt bytes (b :: bs) o =
      if o < b.size.toNat then some (bytes b.bdevClient (b.targetOffset.toNat + o))
      else readAt bytes bs (o - b.size.toNat) := by
  unfold readAt
  rw [locate]
  by_cases h : o < b.size.toNat
  · simp [h]
  · simp [h]

/-- A kept block in front changes nothing about the blocks behind it. -/
theorem bytesInPlace_cons_kept {c : Container} {b : BlobBlock} {bs : List BlobBlock}
    (h : c.isVolatile b.bdevClient = false) :
    BytesInPlace c (b :: bs) ↔ BytesInPlace c bs := by
  unfold BytesInPlace
  rw [nonvolatile_cons_of_kept bs h, byteLength_cons]
  refine ⟨?_, ?_⟩
  · intro hin bytes o ho
    have hat := hin bytes (b.size.toNat + o) (by omega)
    rw [readAt_cons, readAt_cons, if_neg (by omega), if_neg (by omega),
      Nat.add_sub_cancel_left] at hat
    exact hat
  · intro hin bytes o ho
    rw [readAt_cons, readAt_cons]
    by_cases hlt : o < b.size.toNat
    · rw [if_pos hlt, if_pos hlt]
    · rw [if_neg hlt, if_neg hlt]
      exact hin bytes _ (by omega)

/-- Behind a volatile block that holds bytes, no byte may be kept. -/
theorem bytesInPlace_cons_volatile {c : Container} {b : BlobBlock} {bs : List BlobBlock}
    (h : c.isVolatile b.bdevClient = true) (hsize : 0 < b.size.toNat) :
    BytesInPlace c (b :: bs) ↔ byteLength (c.nonvolatile bs) = 0 := by
  unfold BytesInPlace
  rw [nonvolatile_cons_of_volatile bs h]
  refine ⟨?_, ?_⟩
  · intro hin
    by_contra hne
    -- The first byte kept is on another pool than the first byte of the blob was.
    have hat := hin (fun p _ => if p = b.bdevClient then 1 else 0) 0 (by omega)
    rw [readAt_cons, if_pos hsize, if_pos rfl, readAt, Option.map_eq_some_iff] at hat
    obtain ⟨⟨p, a⟩, hlocate, hbyte⟩ := hat
    obtain ⟨b', hmem, hpool, _⟩ := locate_mem hlocate
    have hkept : c.isVolatile b'.bdevClient = false := by
      simpa [Container.nonvolatile] using (List.mem_filter.mp hmem).2
    have hp : p ≠ b.bdevClient := by
      intro hp
      rw [hpool, hp, h] at hkept
      simp at hkept
    simp [hp] at hbyte
  · intro hzero bytes o ho
    omega

theorem bytesInPlace_iff (c : Container) (blocks : List BlobBlock) :
    BytesInPlace c blocks ↔ VolatileLast c blocks := by
  induction blocks with
  | nil => simp [BytesInPlace, VolatileLast, Container.nonvolatile]
  | cons b bs ih =>
    unfold VolatileLast at ih ⊢
    rw [List.pairwise_cons]
    by_cases hv : c.isVolatile b.bdevClient = true
    · by_cases hsize : 0 < b.size.toNat
      · rw [bytesInPlace_cons_volatile hv hsize, byteLength_eq_zero]
        have hzero : (∀ b' ∈ c.nonvolatile bs, b'.size.toNat = 0) ↔
            ∀ b' ∈ bs, ¬(c.isVolatile b'.bdevClient = false ∧ 0 < b'.size.toNat) := by
          simp only [Container.nonvolatile, List.mem_filter, Bool.not_eq_eq_eq_not, Bool.not_true]
          refine ⟨fun hz b' hb' ⟨hk, hpos⟩ => ?_, fun hz b' ⟨hb', hk⟩ => ?_⟩
          · have := hz b' ⟨hb', hk⟩
            omega
          · have := hz b' hb'
            by_contra hne
            exact this ⟨hk, by omega⟩
        rw [hzero]
        refine ⟨fun hz => ⟨?_, ?_⟩, fun hp b' hb' hk => hp.1 b' hb' ⟨hv, hsize, hk⟩⟩
        · intro b' hb' hbad
          exact hz b' hb' hbad.2.2
        · refine List.Pairwise.imp_of_mem ?_ (List.pairwise_of_forall (fun _ _ => trivial))
          intro v b' _ hb' _ hbad
          exact hz b' hb' hbad.2.2
      · -- A volatile block of no bytes is not noticed.
        have hsame : BytesInPlace c (b :: bs) ↔ BytesInPlace c bs := by
          unfold BytesInPlace
          rw [nonvolatile_cons_of_volatile bs hv]
          have hread : ∀ (bytes : PoolId → Nat → UInt8) (o : Nat),
              readAt bytes (b :: bs) o = readAt bytes bs o := by
            intro bytes o
            have hz : b.size.toNat = 0 := by omega
            rw [readAt_cons, hz, if_neg (by omega), Nat.sub_zero]
          simp only [hread]
        rw [hsame, ih]
        refine ⟨fun hp => ⟨fun b' _ hbad => hsize hbad.2.1, hp⟩, fun hp => hp.2⟩
    · have hkept : c.isVolatile b.bdevClient = false := by simpa using hv
      rw [bytesInPlace_cons_kept hkept, ih]
      refine ⟨fun hp => ⟨fun b' _ hbad => hv hbad.1, hp⟩, fun hp => hp.2⟩

/-! ### The round trip -/

/-- Everything of the snapshot is back in `r`, and what is back is where it was. -/
structure SnapshotRestored (c : Container) (tags : AMap TagId TagInfo)
    (blobs : AMap Bytes BlobInfo) (r : Container) : Prop where
  tagBack : ∀ e ∈ tags.entries,
    r.tagIdToInfo.find? e.1 = some ⟨e.2.tagName, e.1, e.2.totalSize⟩
  nameBack :
    (∀ e ∈ tags.entries, ∀ e' ∈ tags.entries, e.2.tagName = e'.2.tagName → e.1 = e'.1) →
      ∀ e ∈ tags.entries, r.tagNameToId.find? e.2.tagName = some e.1
  blobBack : ∀ e ∈ blobs.entries, ∃ addr,
    r.blobs.find? e.1 = some ⟨addr, { e.2 with blocks := c.nonvolatile e.2.blocks }⟩
  byteInPlace : ∀ e ∈ blobs.entries, ∀ kept, r.blocks? e.1 = some kept →
    ∀ (bytes : PoolId → Nat → UInt8) (o : Nat), o < byteLength kept →
      readAt bytes kept o = readAt bytes e.2.blocks o
  minorPast : ∀ e ∈ tags.entries, e.1.minor < r.nextTagIdMinor

section

variable {c : Container} {tags : AMap TagId TagInfo} {blobs : AMap Bytes BlobInfo}

theorem restored_tags (htags : ∀ e ∈ tags.entries, e.2.tagName.length < 2 ^ 32)
    (hblobs : ∀ e ∈ blobs.entries, BlobFits e) :
    ∀ e ∈ tags.entries,
      (restoreMetadataFromLog c (writeSnapshot tags.entries blobs.entries)).tagIdToInfo.find? e.1 =
        some ⟨e.2.tagName, e.1, e.2.totalSize⟩ := by
  intro e he
  rw [restoreMetadataFromLog_writeSnapshot c htags hblobs, raiseMinor_tagIdToInfo,
    foldl_restoreBlob_frame, foldl_restoreTag]
  refine AMap.find?_assignAll (fun e : TagId × TagInfo => e.1)
    (fun e => (⟨e.2.tagName, e.1, e.2.totalSize⟩ : TagInfo)) tags.entries ⟨e, he, rfl⟩ ?_ _
  intro e' he' hkey
  obtain ⟨id, info⟩ := e
  obtain ⟨id', info'⟩ := e'
  simp only at hkey
  subst hkey
  rw [tags.mem_unique he he']

theorem restored_names (htags : ∀ e ∈ tags.entries, e.2.tagName.length < 2 ^ 32)
    (hblobs : ∀ e ∈ blobs.entries, BlobFits e)
    (huniq : ∀ e ∈ tags.entries, ∀ e' ∈ tags.entries, e.2.tagName = e'.2.tagName → e.1 = e'.1) :
    ∀ e ∈ tags.entries,
      (restoreMetadataFromLog c (writeSnapshot tags.entries blobs.entries)).tagNameToId.find?
        e.2.tagName = some e.1 := by
  intro e he
  rw [restoreMetadataFromLog_writeSnapshot c htags hblobs, raiseMinor_tagNameToId,
    foldl_restoreBlob_frame, foldl_restoreTag]
  exact AMap.find?_assignAll (fun e : TagId × TagInfo => e.2.tagName) (fun e => e.1) tags.entries
    ⟨e, he, rfl⟩ (fun e' he' hname => huniq e' he' e he hname) _

theorem restored_blobs (htags : ∀ e ∈ tags.entries, e.2.tagName.length < 2 ^ 32)
    (hblobs : ∀ e ∈ blobs.entries, BlobFits e) :
    ∀ e ∈ blobs.entries, ∃ addr,
      (restoreMetadataFromLog c (writeSnapshot tags.entries blobs.entries)).blobs.find? e.1 =
        some ⟨addr, { e.2 with blocks := c.nonvolatile e.2.blocks }⟩ := by
  intro e he
  rw [restoreMetadataFromLog_writeSnapshot c htags hblobs, raiseMinor_blobs]
  have hfind := foldl_restoreBlob_find? blobs.entries (tags.entries.foldl restoreTag c)
    blobs.nodup e he
  have htargets : (tags.entries.foldl restoreTag c).targets = c.targets := by
    rw [foldl_restoreTag]
  rw [nonvolatile_congr htargets] at hfind
  exact hfind

theorem restored_minor (htags : ∀ e ∈ tags.entries, e.2.tagName.length < 2 ^ 32)
    (hblobs : ∀ e ∈ blobs.entries, BlobFits e)
    (hminor : ∀ e ∈ tags.entries, e.1.minor ≠ 0xffffffff) :
    ∀ e ∈ tags.entries, e.1.minor <
      (restoreMetadataFromLog c (writeSnapshot tags.entries blobs.entries)).nextTagIdMinor := by
  intro e he
  rw [restoreMetadataFromLog_writeSnapshot c htags hblobs]
  exact UInt32.lt_of_lt_of_le ((foldl_bumpMinor tags.entries 0 hminor).2 e he) (le_raiseMinor _ _)

/--
**When a snapshot comes back as it was.**  Restoring what `FlushMetadata` wrote brings
back every tag and every blob with its non-volatile blocks, no byte of a restored
blob at another offset than before, and a counter past every tag id, if and only if
in every blob the volatile blocks stand behind the others (blocks of no bytes aside)
and no tag has the minor `2 ^ 32 - 1`.
-/
theorem restore_snapshot_iff (htags : ∀ e ∈ tags.entries, e.2.tagName.length < 2 ^ 32)
    (hblobs : ∀ e ∈ blobs.entries, BlobFits e) :
    SnapshotRestored c tags blobs
        (restoreMetadataFromLog c (writeSnapshot tags.entries blobs.entries)) ↔
      (∀ e ∈ blobs.entries, VolatileLast c e.2.blocks) ∧
        ∀ e ∈ tags.entries, e.1.minor ≠ 0xffffffff := by
  have hkept : ∀ e ∈ blobs.entries,
      (restoreMetadataFromLog c (writeSnapshot tags.entries blobs.entries)).blocks? e.1 =
        some (c.nonvolatile e.2.blocks) := by
    intro e he
    obtain ⟨addr, hfind⟩ := restored_blobs (c := c) htags hblobs e he
    rw [Container.blocks?, hfind]
    rfl
  refine ⟨?_, ?_⟩
  · intro h
    refine ⟨?_, ?_⟩
    · intro e he
      rw [← bytesInPlace_iff]
      exact h.byteInPlace e he _ (hkept e he)
    · intro e he hmax
      have hlt := h.minorPast e he
      rw [hmax, UInt32.lt_iff_toNat_lt] at hlt
      have hbound := UInt32.toNat_lt
        (restoreMetadataFromLog c (writeSnapshot tags.entries blobs.entries)).nextTagIdMinor
      simp only [UInt32.reduceToNat] at hlt
      omega
  · rintro ⟨hlast, hminor⟩
    refine ⟨restored_tags htags hblobs, restored_names htags hblobs, restored_blobs htags hblobs,
      ?_, restored_minor htags hblobs hminor⟩
    intro e he kept hfind
    rw [hkept e he, Option.some.injEq] at hfind
    rw [← hfind]
    exact (bytesInPlace_iff c e.2.blocks).mpr (hlast e he)

end

/-! ### A blob on two targets -/

def ramTarget : PoolId := ⟨512, 1⟩
def diskTarget : PoolId := ⟨513, 1⟩

/-- A volatile target and one for the long term. -/
def ramAndDisk : Targets where
  map := ⟨[(ramTarget, ⟨ramTarget, default, F32.one, 8192, default, .volatile⟩),
    (diskTarget, ⟨diskTarget, default, F32.zero, 8192, default, .longTerm⟩)], by decide⟩
  keyed := by decide

def ramBlock : BlobBlock := ⟨ramTarget, default, 0, 4⟩
def diskBlock : BlobBlock := ⟨diskTarget, default, 0, 4⟩

/-- The tag `t` and its blob `b` with the given blocks. -/
def oneTag : AMap TagId TagInfo := ⟨[(⟨1, 1⟩, ⟨[116], ⟨1, 1⟩, 8⟩)], by decide⟩
def oneBlob (blocks : List BlobBlock) : AMap Bytes BlobInfo :=
  ⟨[(compositeKey ⟨1, 1⟩ [98], { (default : BlobInfo) with blobName := [98], blocks := blocks })],
    List.nodup_singleton _⟩

/-- With the volatile block last, four bytes are lost and the other four are in place. -/
theorem restore_snapshot_disk_first :
    SnapshotRestored (Container.create ramAndDisk 0) oneTag (oneBlob [diskBlock, ramBlock])
      (restoreMetadataFromLog (Container.create ramAndDisk 0)
        (writeSnapshot oneTag.entries (oneBlob [diskBlock, ramBlock]).entries)) := by
  refine (restore_snapshot_iff (by decide) ?_).mpr ⟨?_, by decide⟩
  · intro e he
    rw [List.mem_singleton.mp he]
    exact ⟨by decide, by decide, by decide⟩
  · intro e he
    rw [List.mem_singleton.mp he]
    unfold VolatileLast
    decide

/-- With the volatile block first, the bytes on disk move to the front of the blob. -/
theorem restore_snapshot_ram_first :
    ¬SnapshotRestored (Container.create ramAndDisk 0) oneTag (oneBlob [ramBlock, diskBlock])
      (restoreMetadataFromLog (Container.create ramAndDisk 0)
        (writeSnapshot oneTag.entries (oneBlob [ramBlock, diskBlock]).entries)) := by
  intro h
  have hat := h.byteInPlace _ (List.mem_singleton.mpr rfl) [diskBlock] (by decide +kernel)
    (fun p _ => if p = ramTarget then 1 else 0) 0 (by decide)
  exact absurd hat (by decide)

end Cte
end IowarpCore
